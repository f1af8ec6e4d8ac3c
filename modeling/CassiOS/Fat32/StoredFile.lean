import CassiOS.Fat32.DataReads

/-!
# What a write stores

A write that succeeds leaves a file whose clusters hold the data from the first byte on.
The loop of `write` keeps `Progress`: the clusters `done` hold their part of the data, the
chain leads on through `rest`, and whatever was neither free nor part of the file is as it
was. What is left of the old chain is freed when the loop ends.
-/

namespace CassiOS.Fat32.StoredFile

open CassiOS.Support.PartialProgram
open CassiOS.Support.Chain
open CassiOS.Fat32.Types
open CassiOS.Fat32.Device
open CassiOS.Fat32.Filesystem
open CassiOS.Fat32.Operations
open CassiOS.Fat32.VolumeModel
open CassiOS.Fat32.FatModel
open CassiOS.Fat32.FileModel
open CassiOS.Fat32.WriteModel
open CassiOS.Fat32.DataReads

set_option autoImplicit false

section Chains

variable {v w : Volume} {start c : Nat} {cs front rest : List Nat}

theorem skip_of_chain (chain : Chain v start cs) {i d : Nat} (inside : cs[i]? = some d) :
    skip v i start = d := by
  induction i generalizing start cs with
  | zero =>
      cases cs with
      | nil => cases inside
      | cons x cs => exact chain.links.1.trans (Option.some.inj inside)
  | succ i ih =>
      cases cs with
      | nil => cases inside
      | cons x cs =>
          obtain ⟨rfl, _, links⟩ := chain.links
          have behind : Chain v (v.fat start) cs :=
            ⟨links, fun y member => chain.valid y (List.mem_cons_of_mem start member)⟩
          cases cs with
          | nil => cases inside
          | cons y cs =>
              have goes : ¬ fatEoc ≤ v.fat start := links.1.symm ▸ links.2.1
              unfold skip
              rw [if_neg goes]
              exact ih behind inside

theorem chain_behind (chain : Chain v start (front ++ c :: rest)) : Chain v (v.fat c) rest where
  links := (follows_suffix chain.links).2.2
  valid d member :=
    chain.valid d (List.mem_append_right front (List.mem_cons_of_mem c member))

/-- A chain whose clusters lead where they led before. -/
theorem chain_congr (chain : Chain v start cs) (count : w.fatEntryCount = v.fatEntryCount)
    (same : ∀ d ∈ cs, w.fat d = v.fat d) : Chain w start cs where
  links := follows_congr chain.links same
  valid d member := ⟨(chain.valid d member).1, count ▸ (chain.valid d member).2⟩

theorem chain_start (chain : Chain v c cs) (nonempty : cs ≠ []) : v.Valid c := by
  cases cs with
  | nil => exact absurd rfl nonempty
  | cons x cs => exact chain.links.1 ▸ chain.valid x List.mem_cons_self

theorem chain_ended (chain : Chain v c cs) (ended : c < 2 ∨ fatEoc ≤ c) : cs = [] := by
  cases cs with
  | nil => rfl
  | cons x cs =>
      obtain ⟨rfl, goes, _⟩ := chain.links
      have low := (chain.valid c List.mem_cons_self).1
      exact absurd (ended.resolve_left (by omega)) goes

theorem chain_cut (chain : Chain v start (front ++ c :: rest))
    (count : w.fatEntryCount = v.fatEntryCount) (same : ∀ d ∈ front, w.fat d = v.fat d)
    (ends : fatEoc ≤ w.fat c) : Chain w start (front ++ [c]) where
  links := follows_cut chain.links same ends
  valid d member := by
    have old : d ∈ front ++ c :: rest := by
      rcases List.mem_append.1 member with before | own
      · exact List.mem_append_left _ before
      · exact List.mem_append_right front (List.mem_singleton.1 own ▸ List.mem_cons_self)
    exact ⟨(chain.valid d old).1, count ▸ (chain.valid d old).2⟩

end Chains

section Freeing

variable {faults : Faults} {v w : Volume} {c : Nat} {cs : List Nat}

/-- The clusters `cs` are free, nothing else is different. -/
structure Freed (v : Volume) (cs : List Nat) (w : Volume) : Prop where
  count : w.fatEntryCount = v.fatEntryCount
  bytes : w.clusterBytes = v.clusterBytes
  cluster : w.cluster = v.cluster
  handles : w.handles = v.handles
  others : ∀ d, d ∉ cs → w.fat d = v.fat d
  freed : ∀ d ∈ cs, w.fat d = fatFree

theorem freed_nil (v : Volume) : Freed v [] v where
  count := rfl
  bytes := rfl
  cluster := rfl
  handles := rfl
  others _ _ := rfl
  freed _ member := absurd member List.not_mem_nil

theorem freed_cons (valid : v.Valid c) (fresh : c ∉ cs)
    (behind : Freed (v.setFat c fatFree) cs w) : Freed v (c :: cs) w where
  count := behind.count
  bytes := behind.bytes
  cluster := behind.cluster
  handles := behind.handles
  others := by
    intro d absent
    rw [behind.others d fun member => absent (List.mem_cons_of_mem c member)]
    exact Volume.set_fat_other v c fatFree fun same => absent (same ▸ List.mem_cons_self)
  freed := by
    intro d member
    rcases List.mem_cons.1 member with rfl | later
    · rw [behind.others d fresh]
      exact Volume.set_fat_self v d fatFree valid.2
    · exact behind.freed d later

theorem free_chain_frees (sure : faults.drive = false) (fuel : Nat)
    (small : v.fatEntryCount ≤ 0x0FFFFFF7) (chain : Chain v c cs) :
    Ensures (Stands faults) (freeChain fuel c) v fun _ w => Freed v cs w := by
  induction fuel generalizing v c cs with
  | zero => exact ensures_none
  | succ fuel ih =>
      intro s stands
      unfold freeChain
      rw [stands.count]
      by_cases valid : 2 ≤ c ∧ c < v.fatEntryCount
      · obtain ⟨rest, rfl, behind⟩ := chain_tail small valid (.inr chain)
        have fresh := (List.nodup_cons.1 (follows_nodup chain.links)).1
        have other : ∀ d ∈ rest, (v.setFat c fatFree).fat d = v.fat d := fun d member =>
          Volume.set_fat_other v c fatFree fun same => fresh (same ▸ member)
        rw [if_pos valid]
        refine ensures_bind_runs (fat_get_sure sure v c) ?_ s stands
        apply ensures_bind_runs (fat_set_does sure v c fatFree)
        split
        · next ended =>
          obtain rfl := chain_ended behind (.inr ended)
          exact ensures_pure (freed_cons valid fresh (freed_nil _))
        · apply (ih (v := v.setFat c fatFree) small (chain_congr behind rfl other)).mono
          exact fun _ _ freed => freed_cons valid fresh freed
      · rw [if_neg valid]
        have empty : cs = [] := by
          cases cs with
          | nil => rfl
          | cons x cs => exact absurd (chain.links.1 ▸ chain.valid x List.mem_cons_self) valid
        subst empty
        exact (runs_pure PUnit.unit v).ensures (freed_nil v) s stands

end Freeing

section Keeping

variable {v u w : Volume} {cs file file' : List Nat} {d : Nat}

/-- What is neither free nor part of the file with the clusters `cs` is as it was, and no part
of the file that now has the clusters `file`. -/
structure Kept (v : Volume) (cs : List Nat) (w : Volume) (file : List Nat) : Prop where
  count : w.fatEntryCount = v.fatEntryCount
  bytes : w.clusterBytes = v.clusterBytes
  apart : ∀ d, d ∉ cs → ¬ v.Free d → d ∉ file
  fat : ∀ d, d ∉ cs → ¬ v.Free d → w.fat d = v.fat d
  cluster : ∀ d, d ∉ cs → ¬ v.Free d → w.cluster d = v.cluster d

theorem Kept.taken (kept : Kept v cs w file) (outside : d ∉ cs) (taken : ¬ v.Free d) :
    ¬ w.Free d := by
  rintro ⟨⟨low, high⟩, free⟩
  rw [kept.fat d outside taken] at free
  rw [kept.count] at high
  exact taken ⟨⟨low, high⟩, free⟩

theorem kept_refl (v : Volume) (cs : List Nat) : Kept v cs v cs where
  count := rfl
  bytes := rfl
  apart _ outside _ := outside
  fat _ _ _ := rfl
  cluster _ _ _ := rfl

theorem Kept.trans (first : Kept v cs u file) (second : Kept u file w file') :
    Kept v cs w file' where
  count := second.count.trans first.count
  bytes := second.bytes.trans first.bytes
  apart d outside taken :=
    second.apart d (first.apart d outside taken) (first.taken outside taken)
  fat d outside taken :=
    (second.fat d (first.apart d outside taken) (first.taken outside taken)).trans
      (first.fat d outside taken)
  cluster d outside taken :=
    (second.cluster d (first.apart d outside taken) (first.taken outside taken)).trans
      (first.cluster d outside taken)

theorem kept_set_fat {c : Nat} (member : c ∈ cs) (value : Nat) : Kept v cs (v.setFat c value) cs where
  count := rfl
  bytes := rfl
  apart _ outside _ := outside
  fat _ outside _ := Volume.set_fat_other v c value fun same => outside (same ▸ member)
  cluster _ _ _ := rfl

theorem kept_put_cluster {c : Nat} (member : c ∈ cs) (buf : Buf) :
    Kept v cs (v.putCluster c buf) cs where
  count := rfl
  bytes := rfl
  apart _ outside _ := outside
  fat _ _ _ := rfl
  cluster _ outside _ := Volume.put_cluster_other v c buf fun same => outside (same ▸ member)

theorem kept_allocate {new : Nat} (free : v.Free new) (value : Nat) :
    Kept v cs (v.setFat new value) (cs ++ [new]) where
  count := rfl
  bytes := rfl
  apart d outside taken member := by
    rcases List.mem_append.1 member with old | own
    · exact outside old
    · exact taken (List.mem_singleton.1 own ▸ free)
  fat d _ taken := Volume.set_fat_other v new value fun same => taken (same ▸ free)
  cluster _ _ _ := rfl

theorem kept_freed {front rest : List Nat} (freed : Freed v rest w) :
    Kept v (front ++ rest) w front where
  count := freed.count
  bytes := freed.bytes
  apart _ outside _ member := outside (List.mem_append_left rest member)
  fat d outside _ := freed.others d fun member => outside (List.mem_append_right front member)
  cluster d _ _ := congrFun freed.cluster d

end Keeping

section Loop

variable {faults : Faults} {v u x w : Volume} {cs done rest : List Nat} {start c prev len : Nat}
  {data buf : Buf}

/-- The clusters hold the data up to `len`. -/
def Holds (w : Volume) (data : Buf) (len : Nat) (cs : List Nat) : Prop :=
  ∀ i d, cs[i]? = some d → ∀ j, j < w.clusterBytes → i * w.clusterBytes + j < len →
    w.cluster d j = data (i * w.clusterBytes + j)

/-- The file from `start` has the clusters `done`, which are written, and `rest` behind them. -/
structure Progress (v : Volume) (cs : List Nat) (start : Nat) (data : Buf) (len : Nat)
    (u : Volume) (done rest : List Nat) : Prop where
  file : Chain u start (done ++ rest)
  holds : Holds u data len done
  kept : Kept v cs u (done ++ rest)
  handles : u.handles = v.handles

/-- The chosen cluster is the next one of the chain, which may have grown by it. -/
theorem Progress.choose {c' : Nat} (progress : Progress v cs start data len u done rest)
    (small : u.fatEntryCount ≤ 0x0FFFFFF7) (position : Chain u c rest) (nonempty : done ++ rest ≠ [])
    (previous : done = [] ∨ ∃ front, done = front ++ [prev]) (chosen : Chosen u c prev c' x) :
    ∃ rest', Progress v cs start data len x done (c' :: rest') := by
  cases chosen with
  | chain valid =>
      obtain ⟨rest', rfl, _⟩ := chain_tail small valid (.inr position)
      exact ⟨rest', progress⟩
  | first _ ended low free =>
      obtain rfl := chain_ended position ended
      rw [List.append_nil] at nonempty
      obtain ⟨front, rfl⟩ := previous.resolve_left nonempty
      have high := (progress.file.valid prev (by simp)).1
      omega
  | behind _ ended high free =>
      obtain rfl := chain_ended position ended
      rw [List.append_nil] at nonempty
      obtain ⟨front, rfl⟩ := previous.resolve_left nonempty
      obtain ⟨file, holds, kept, handles⟩ := progress
      rw [List.append_nil] at file kept
      have member : prev ∈ front ++ [prev] := List.mem_append_right front List.mem_cons_self
      have valid := file.valid prev member
      have fresh : ∀ d ∈ front ++ [prev], d ≠ c' := fun d own same =>
        chain_not_free file own (same ▸ free)
      have apart := (List.nodup_append.1 (follows_nodup file.links)).2.2
      refine ⟨[], ⟨?_, ?_⟩, holds, ?_, handles⟩
      · apply follows_concat file.links
        · intro d own
          rw [Volume.set_fat_other _ prev c' (apart d own prev List.mem_cons_self),
            Volume.set_fat_other u c' fatEoc (fresh d (List.mem_append_left _ own))]
        · rw [Volume.set_fat_self (u.setFat c' fatEoc) prev c' valid.2]
          exact valid_mod small free.1
        · have bound := free.1.2
          unfold fatEoc
          omega
        · rw [Volume.set_fat_other _ prev c' (fresh prev member).symm,
            Volume.set_fat_self u c' fatEoc free.1.2]
          decide
      · intro d own
        rcases List.mem_append.1 own with old | last
        · exact file.valid d old
        · exact List.mem_singleton.1 last ▸ free.1
      · exact (kept.trans (kept_allocate free fatEoc)).trans
          (kept_set_fat (List.mem_append_left [c'] member) c')

theorem Progress.store {rest' : List Nat}
    (progress : Progress v cs start data len x done (c :: rest'))
    (filled : Filled x data len (done.length * x.clusterBytes) c buf) :
    Progress v cs start data len (x.putCluster c buf) (done ++ [c]) rest' where
  file := by
    rw [List.append_assoc]
    exact ⟨progress.file.links, progress.file.valid⟩
  holds := by
    intro i d inside j bound below
    rw [Volume.bytes_put_cluster] at bound below ⊢
    rcases Nat.lt_trichotomy i done.length with earlier | own | beyond
    · rw [List.getElem?_append_left earlier] at inside
      have other : d ≠ c := by
        rintro rfl
        have apart := (List.nodup_append.1 (follows_nodup progress.file.links)).2.2
        exact apart d (List.mem_of_getElem? inside) d List.mem_cons_self rfl
      rw [Volume.put_cluster_other x c buf other]
      exact progress.holds i d inside j bound below
    · subst own
      rw [List.getElem?_concat_length] at inside
      obtain rfl := Option.some.inj inside
      rw [Volume.put_cluster_self x c buf bound]
      have chunk := filled.chunk j (by
        unfold chunkLength
        rw [Nat.mul_mod_left]
        omega)
      rw [Nat.mul_mod_left, Nat.zero_add] at chunk
      exact chunk
    · rw [List.getElem?_eq_none (by simp; omega)] at inside
      cases inside
  kept := by
    rw [List.append_assoc]
    exact progress.kept.trans (kept_put_cluster (List.mem_append_right done List.mem_cons_self) buf)
  handles := progress.handles

/-- Every copy lies in the first `len` bytes, and the last of them has been copied. -/
structure ReadsUpTo (len : Nat) (log : List DataRead) : Prop where
  inside : ∀ r ∈ log, r.offset + r.count ≤ len
  last : 0 < len → ∃ r ∈ log, r.offset + r.count = len

theorem write_loop_logged_done {log : List DataRead} {bytesWritten : Nat}
    (done : ¬ bytesWritten < len) (v : Volume) (fuel c prev : Nat) (buf : Buf) :
    Ensures (Stands faults) (writeLoopLogged data len fuel bytesWritten c prev buf log) v
      fun answer w => answer = (some (c, buf), log) ∧ w = v := by
  cases fuel with
  | zero => exact ensures_none
  | succ fuel =>
      unfold writeLoopLogged
      simp only [if_neg done]
      exact ensures_pure ⟨rfl, rfl⟩

/-- The loop stores the data in the file, whose last written cluster it returns. -/
theorem write_loop_stores (sure : faults.drive = false) (fuel prev : Nat) (buf : Buf)
    {log : List DataRead} (small : u.fatEntryCount ≤ 0x0FFFFFF7)
    (progress : Progress v cs start data len u done rest) (position : Chain u c rest)
    (nonempty : done ++ rest ≠ []) (previous : done = [] ∨ ∃ front, done = front ++ [prev])
    (more : done.length * u.clusterBytes < len) (inside : ∀ r ∈ log, r.offset + r.count ≤ len) :
    Ensures (Stands faults)
      (writeLoopLogged data len fuel (done.length * u.clusterBytes) c prev buf log) u
      fun answer w => ∀ last block, answer.1 = some (last, block) → ReadsUpTo len answer.2 ∧
        ∃ front rest, Progress v cs start data len w (front ++ [last]) rest ∧
          len ≤ (front ++ [last]).length * w.clusterBytes := by
  induction fuel generalizing u c prev buf done rest log with
  | zero => exact ensures_none
  | succ fuel ih =>
      intro s stands
      have reached : Volume.OnVolume u c ∨ fatEoc ≤ c := chain_position (.inr position)
      have aligned : done.length * u.clusterBytes % u.clusterBytes = 0 := Nat.mul_mod_left _ _
      rw [write_loop_logged_eq more, stands.bytes, aligned, Nat.sub_zero]
      refine ensures_bind (store_chunk_does sure reached).ensures ?_ s stands
      rintro _ _ (⟨rfl, rfl, _, _⟩ | ⟨c', x, block, rfl, chosen, filled, rfl⟩)
      · exact ensures_pure nofun
      · obtain ⟨rest', chose⟩ := progress.choose small position nonempty previous chosen
        have bytes := chosen.bytes
        rw [← bytes] at filled
        have stored := chose.store filled
        have length : (done ++ [c']).length = done.length + 1 := List.length_append
        have next : Chain (x.putCluster c' block) (x.fat c') rest' := by
          have behind := chain_behind chose.file
          exact ⟨behind.links, behind.valid⟩
        have position' : (done ++ [c']).length * (x.putCluster c' block).clusterBytes =
            done.length * u.clusterBytes + u.clusterBytes := by
          rw [length, Nat.succ_mul, Volume.bytes_put_cluster, bytes]
        dsimp only
        generalize chunkEq : min u.clusterBytes (len - done.length * u.clusterBytes) = chunk
        have inside' : ∀ r ∈ log ++ [DataRead.mk (done.length * u.clusterBytes) chunk],
            r.offset + r.count ≤ len := by
          intro r member
          rcases List.mem_append.1 member with old | new
          · exact inside r old
          · rw [List.mem_singleton.1 new]
            dsimp only
            omega
        split
        · next again =>
          have whole : chunk = u.clusterBytes := by omega
          subst whole
          apply ensures_bind_runs (fat_get_sure sure _ c')
          rw [← position'] at again ⊢
          apply ih c' block _ stored next
          · simp
          · exact .inr ⟨done, rfl⟩
          · exact again
          · exact inside'
          · exact chosen.count ▸ small
        · next last =>
          apply (write_loop_logged_done last _ fuel c' prev block).mono
          rintro _ _ ⟨rfl, rfl⟩ _ _ same
          obtain ⟨rfl, rfl⟩ := Prod.mk.inj (Option.some.inj same)
          refine ⟨⟨inside', fun _ => ⟨_, List.mem_append_right log List.mem_cons_self, ?_⟩⟩,
            done, rest', stored, ?_⟩
          · dsimp only
            omega
          · rw [position']
            omega

theorem truncate_chain_cuts (sure : faults.drive = false) (fuel : Nat) {front : List Nat}
    (small : u.fatEntryCount ≤ 0x0FFFFFF7)
    (progress : Progress v cs start data len u (front ++ [c]) rest) :
    Ensures (Stands faults) (truncateChain fuel c) u fun _ w =>
      Progress v cs start data len w (front ++ [c]) [] := by
  obtain ⟨file, holds, kept, handles⟩ := progress
  rw [List.append_assoc, List.singleton_append] at file kept
  have member : c ∈ front ++ c :: rest := List.mem_append_right front List.mem_cons_self
  have valid := file.valid c member
  have below : c < fatEoc := by
    have bound := valid.2
    unfold fatEoc
    omega
  have behind := chain_behind file
  have nodup := follows_nodup file.links
  have apart := (List.nodup_append.1 nodup).2.2
  have fresh := (List.nodup_cons.1 (List.nodup_append.1 nodup).2.1).1
  have other : ∀ d ∈ front, (u.setFat c fatEoc).fat d = u.fat d := fun d own =>
    Volume.set_fat_other u c fatEoc (apart d own c List.mem_cons_self)
  have ends : fatEoc ≤ (u.setFat c fatEoc).fat c := by
    rw [Volume.set_fat_self u c fatEoc valid.2]
    decide
  have cut := chain_cut file (w := u.setFat c fatEoc) rfl other ends
  have kept' : Kept v cs (u.setFat c fatEoc) (front ++ c :: rest) :=
    kept.trans (kept_set_fat member fatEoc)
  have behind' : Chain (u.setFat c fatEoc) (u.fat c) rest :=
    chain_congr behind rfl fun d own =>
      Volume.set_fat_other u c fatEoc fun same => fresh (same ▸ own)
  have outside : ∀ d ∈ front ++ [c], d ∉ rest := by
    intro d own later
    rcases List.mem_append.1 own with before | last
    · exact apart d before d (List.mem_cons_of_mem c later) rfl
    · exact fresh (List.mem_singleton.1 last ▸ later)
  have freeing : ∀ w, Freed (u.setFat c fatEoc) rest w →
      Progress v cs start data len w (front ++ [c]) [] := by
    intro w freed
    have rewritten : front ++ c :: rest = front ++ [c] ++ rest := by simp
    rw [rewritten] at kept'
    constructor
    · rw [List.append_nil]
      exact chain_congr cut freed.count fun d own => freed.others d (outside d own)
    · unfold Holds
      rw [freed.bytes, freed.cluster]
      exact holds
    · rw [List.append_nil]
      exact kept'.trans (kept_freed freed)
    · exact freed.handles.trans handles
  unfold truncateChain
  rw [if_pos ⟨valid.1, below⟩]
  apply ensures_bind_runs (fat_get_sure sure u c)
  apply ensures_bind_runs (fat_set_does sure u c fatEoc)
  split
  · apply (free_chain_frees sure fuel (v := u.setFat c fatEoc) small behind').mono
    exact fun _ w freed => freeing w freed
  · next stops =>
    obtain rfl := chain_ended behind (by omega)
    exact ensures_pure (freeing _ (freed_nil _))

end Loop

section Entry

variable {faults : Faults} {v : Volume}

theorem put_cluster_congr {c : Nat} {a b : Buf} (same : ∀ j, j < v.clusterBytes → a j = b j) :
    v.putCluster c a = v.putCluster c b := by
  unfold Volume.putCluster
  congr 1
  funext d
  refine ite_congr rfl (fun _ => ?_) (fun _ => rfl)
  funext j
  exact ite_congr rfl (fun inside => same j inside) (fun _ => rfl)

/-- The directory cluster with the size and the first cluster stored in the slot. -/
def entryStored (v : Volume) (dirCluster dirOffset size startCluster : Nat) : Volume :=
  let idx := dirOffset / dirEntrySize
  v.putCluster dirCluster (setSlot (v.cluster dirCluster) idx
    (setFirstCluster (setFileSize (slotAt (v.cluster dirCluster) idx) size) startCluster))

theorem update_entry_does (sure : faults.drive = false) {dirCluster : Nat}
    (valid : v.Valid dirCluster) (dirOffset size startCluster : Nat) (buf : Buf) :
    Achieves (Stands faults) (updateEntry dirCluster dirOffset size startCluster buf) v
      fun ok w => ok = true ∧ w = entryStored v dirCluster dirOffset size startCluster := by
  unfold updateEntry
  apply achieves_bind (read_cluster_does valid buf)
  rintro _ v ⟨rfl, rfl | ⟨_, fails⟩⟩
  · dsimp only
    rw [if_pos rfl]
    apply achieves_bind_runs (write_cluster_does sure valid _)
    apply achieves_bind_runs (flush_fat_does sure _)
    refine achieves_pure ⟨rfl, put_cluster_congr fun j inside => ?_⟩
    unfold setSlot
    -- a slot that starts in the cluster lies in it
    by_cases here : dirEntrySize * (dirOffset / dirEntrySize) ≤ j ∧
        j < dirEntrySize * (dirOffset / dirEntrySize) + dirEntrySize
    · rw [if_pos here, if_pos here]
      have slot : slotAt (overlay v.clusterBytes (v.cluster dirCluster) buf)
          (dirOffset / dirEntrySize) = slotAt (v.cluster dirCluster) (dirOffset / dirEntrySize) := by
        funext k
        apply if_pos
        have small := k.isLt
        unfold Volume.clusterBytes dirEntrySize at *
        omega
      rw [slot]
    · rw [if_neg here, if_neg here]
      exact if_pos inside
  · rw [sure] at fails
    cases fails

end Entry

section Storing

variable {faults : Faults} {v u w : Volume} {cs : List Nat} {len i : Nat} {data : Buf}
  {fh : FileHandle}

/-- The data are in the clusters `file`; what was neither free nor part of the old file, with
the clusters `cs`, is as it was. -/
structure Stored (v : Volume) (cs : List Nat) (data : Buf) (len : Nat) (u : Volume) (start : Nat)
    (file : List Nat) : Prop where
  chain : start = 0 ∧ file = [] ∨ Chain u start file ∧ file ≠ []
  room : len ≤ file.length * u.clusterBytes
  holds : Holds u data len file
  kept : Kept v cs u file

theorem stored_of_progress {start last : Nat} {front : List Nat}
    (progress : Progress v cs start data len u (front ++ [last]) [])
    (room : len ≤ (front ++ [last]).length * u.clusterBytes) :
    Stored v cs data len u start (front ++ [last]) := by
  obtain ⟨chain, holds, kept, _⟩ := progress
  rw [List.append_nil] at chain kept
  exact ⟨.inr ⟨chain, List.concat_ne_nil last front⟩, room, holds, kept⟩

/-- What `write` leaves behind when the data are stored. -/
def finished (u : Volume) (handles : List FileHandle) (fh : FileHandle) (len start : Nat) :
    Volume :=
  entryStored (u.setHandles handles) fh.dirCluster fh.dirOffset len start

/-- The data are stored and the copies end with the last byte of them. -/
def WritesFile (v : Volume) (cs : List Nat) (data : Buf) (len : Nat) (handles : List FileHandle)
    (fh : FileHandle) (start : Nat) (log : List DataRead) (w : Volume) : Prop :=
  ReadsUpTo len log ∧ ∃ u file, Stored v cs data len u start file ∧
    w = finished u handles fh len start

/-- After the loop only the handle and the directory entry change. -/
theorem write_data_finishes (sure : faults.drive = false) (fuel : Nat) {clusterBuf : Buf}
    (directory : v.Valid fh.dirCluster)
    (loop : Ensures (Stands faults)
      (writeLoopLogged data len fuel 0 fh.startCluster 0 clusterBuf []) v
      fun answer w => ∀ last block, answer.1 = some (last, block) → ReadsUpTo len answer.2 ∧
        Ensures (Stands faults) (truncateChain fuel last) w fun _ u =>
          ∃ file, Stored v cs data len u fh.startCluster file ∧ u.handles = v.handles) :
    Ensures (Stands faults) (writeDataLogged fuel i fh data len clusterBuf) v fun answer w =>
      answer.1 = true → WritesFile v cs data len
        (v.handles.modify i fun fh => { fh with size := len }) fh fh.startCluster answer.2 w := by
  apply ensures_bind loop
  rintro ⟨_ | ⟨last, block⟩, log⟩ w stores
  · exact ensures_pure nofun
  · obtain ⟨reads, cuts⟩ := stores last block rfl
    apply ensures_bind cuts
    rintro _ u ⟨file, stored, handles⟩
    apply ensures_bind_runs (set_handle_does u i _)
    have valid : (u.setHandles (u.handles.modify i fun fh => { fh with size := len })).Valid
        fh.dirCluster := ⟨directory.1, stored.kept.count.symm ▸ directory.2⟩
    apply ensures_bind (update_entry_does sure valid _ _ _ _).ensures
    rintro _ w ⟨_, rfl⟩
    rw [handles]
    exact ensures_pure fun _ => ⟨reads, u, file, stored, rfl⟩

/-- Nothing is stored in a file that has no clusters. -/
theorem write_data_nothing (sure : faults.drive = false) (fuel : Nat) {clusterBuf : Buf}
    (directory : v.Valid fh.dirCluster) (start : fh.startCluster = 0) :
    Ensures (Stands faults) (writeDataLogged fuel i fh data 0 clusterBuf) v fun answer w =>
      answer.1 = true → WritesFile v [] data 0
        (v.handles.modify i fun fh => { fh with size := 0 }) fh fh.startCluster answer.2 w := by
  apply write_data_finishes sure fuel directory
  apply (write_loop_logged_done (Nat.lt_irrefl 0) v fuel _ 0 clusterBuf).mono
  rintro _ w ⟨rfl, rfl⟩ last block same
  obtain ⟨rfl, rfl⟩ := Prod.mk.inj (Option.some.inj same)
  refine ⟨⟨fun r member => absurd member List.not_mem_nil, fun none => by omega⟩, ?_⟩
  unfold truncateChain
  rw [start, if_neg (by omega)]
  exact ensures_pure ⟨[], ⟨.inl ⟨rfl, rfl⟩, Nat.zero_le _, nofun, kept_refl w []⟩, rfl⟩

theorem write_data_stores (sure : faults.drive = false) (fuel : Nat) (fh : FileHandle)
    {clusterBuf : Buf} (small : v.fatEntryCount ≤ 0x0FFFFFF7)
    (chain : Chain v fh.startCluster cs) (nonempty : cs ≠ []) (some : 0 < len)
    (directory : v.Valid fh.dirCluster) :
    Ensures (Stands faults) (writeDataLogged fuel i fh data len clusterBuf) v fun answer w =>
      answer.1 = true → WritesFile v cs data len
        (v.handles.modify i fun fh => { fh with size := len }) fh fh.startCluster answer.2 w := by
  have progress : Progress v cs fh.startCluster data len v [] cs :=
    ⟨chain, nofun, kept_refl v cs, rfl⟩
  apply write_data_finishes sure fuel directory
  have loop := write_loop_stores sure fuel 0 clusterBuf small progress chain nonempty (.inl rfl)
    (by rwa [List.length_nil, Nat.zero_mul]) (fun r member => absurd member List.not_mem_nil)
  rw [List.length_nil, Nat.zero_mul] at loop
  apply loop.mono
  intro answer w stores last block same
  obtain ⟨reads, front, rest, progress', room⟩ := stores last block same
  refine ⟨reads, ?_⟩
  have count : w.fatEntryCount ≤ 0x0FFFFFF7 := progress'.kept.count ▸ small
  apply (truncate_chain_cuts sure fuel count progress').mono
  intro _ u cut
  have bytes : u.clusterBytes = w.clusterBytes :=
    cut.kept.bytes.trans progress'.kept.bytes.symm
  exact ⟨_, stored_of_progress cut (bytes ▸ room), cut.handles⟩

/-- The data go to a first cluster, which was free, and to further free ones. -/
theorem write_first_stores (sure : faults.drive = false) (fuel : Nat) {clusterBuf : Buf}
    (small : v.fatEntryCount ≤ 0x0FFFFFF7) {new : Nat} (free : v.Free new) (some : 0 < len)
    (directory : v.Valid fh.dirCluster) (handles : List FileHandle) :
    Ensures (Stands faults)
      (writeDataLogged fuel i { fh with startCluster := new } data len clusterBuf)
      ((v.setFat new fatEoc).setHandles handles) fun answer w => answer.1 = true →
        WritesFile v [] data len (handles.modify i fun fh => { fh with size := len }) fh new
          answer.2 w := by
  have chain : Chain ((v.setFat new fatEoc).setHandles handles) new [new] := by
    have own : ((v.setFat new fatEoc).setHandles handles).fat new = fatEoc :=
      Volume.set_fat_self v new fatEoc free.1.2
    refine ⟨⟨rfl, ?_, own.symm ▸ Nat.le_refl fatEoc⟩, ?_⟩
    · have bound := free.1.2
      unfold fatEoc
      omega
    · intro d member
      exact List.mem_singleton.1 member ▸ free.1
  apply (write_data_stores sure fuel { fh with startCluster := new }
    (v := (v.setFat new fatEoc).setHandles handles) small chain (List.cons_ne_nil new []) some
    directory).mono
  intro _ w post done
  obtain ⟨reads, u, file, ⟨chainU, room, holds, kept⟩, rfl⟩ := post done
  refine ⟨reads, u, file, ⟨chainU, room, holds, ?_⟩, rfl⟩
  have taken : Kept v [] (v.setFat new fatEoc) ([] ++ [new]) := kept_allocate free fatEoc
  exact taken.trans ⟨kept.count, kept.bytes, kept.apart, kept.fat, kept.cluster⟩

def writtenHandles (v : Volume) (handle : Nat) (fh : FileHandle) (len start : Nat) :
    List FileHandle :=
  v.handles.set (handle - 1) { fh with startCluster := start, size := len }

theorem write_logged_stores (sure : faults.drive = false) (supplied : faults.heap = false)
    (small : v.fatEntryCount ≤ 0x0FFFFFF7) {fuel handle : Nat}
    (opened : openHandle v handle = some fh)
    (chain : fh.startCluster = 0 ∧ cs = [] ∨ Chain v fh.startCluster cs ∧ cs ≠ [])
    (directory : v.Valid fh.dirCluster) :
    Ensures (Stands faults) (writeLogged fuel handle data len) v fun answer w =>
      answer.1 = true → ∃ first,
        WritesFile v cs data len (writtenHandles v handle fh len first) fh first answer.2 w := by
  intro s stands
  unfold openHandle at opened
  split at opened
  · cases opened
  · next inTable =>
    obtain ⟨slot, used⟩ := Option.filter_eq_some_iff.mp opened
    have set : ∀ update, v.handles.modify (handle - 1) update =
        v.handles.set (handle - 1) (update fh) := by
      intro update
      rw [List.modify_eq_set_getElem?, slot]
      rfl
    rw [← stands.table] at slot
    unfold writeLogged
    rw [if_neg inTable, slot]
    dsimp only
    rw [if_pos used]
    refine ensures_bind (heap_alloc_does v).ensures ?_ s stands
    rintro (_ | clusterBuf) v ⟨rfl, missing⟩
    · rw [supplied] at missing
      exact absurd (missing rfl) Bool.false_ne_true
    · dsimp only
      split
      · next emptied =>
        obtain ⟨rfl, high⟩ := emptied
        obtain ⟨chain, _⟩ := chain.resolve_left fun empty => by omega
        apply ensures_bind (free_chain_frees sure fuel small chain)
        intro _ u freed
        apply ensures_bind_runs (set_handle_does u (handle - 1) _)
        rw [freed.handles, set]
        have valid : (u.setHandles (v.handles.set (handle - 1)
            { fh with startCluster := 0, size := 0 })).Valid fh.dirCluster :=
          ⟨directory.1, freed.count.symm ▸ directory.2⟩
        apply ensures_bind (update_entry_does sure valid _ _ _ _).ensures
        rintro _ w ⟨_, rfl⟩
        have kept : Kept v ([] ++ cs) u [] := kept_freed freed
        exact ensures_pure fun _ => ⟨0,
          ⟨fun r member => absurd member List.not_mem_nil, fun none => by omega⟩, u, [],
          ⟨.inl ⟨rfl, rfl⟩, Nat.zero_le _, nofun, kept⟩, rfl⟩
      · split
        · next missing =>
          obtain ⟨low, some⟩ := missing
          obtain ⟨zero, rfl⟩ := chain.resolve_right fun both => by
            have high := (chain_start both.1 both.2).1
            omega
          rcases allocate_cluster_does sure v with ⟨new, free, _, run⟩ | ⟨full, run⟩
          · apply ensures_bind_runs run
            have nonzero : new ≠ 0 := fun zero => by
              have low := free.1.1
              omega
            rw [if_neg nonzero]
            apply ensures_bind_runs (set_handle_does (v.setFat new fatEoc) (handle - 1) _)
            apply (write_first_stores sure fuel small free some directory _).mono
            intro _ w post done
            rw [Volume.handles_set_fat, List.modify_modify_eq, set] at post
            exact ⟨new, post done⟩
          · apply ensures_bind_runs run
            rw [if_pos rfl]
            exact ensures_pure nofun
        · next kept =>
          have size := set fun fh => { fh with size := len }
          rcases chain with ⟨zero, rfl⟩ | ⟨chain, nonempty⟩
          · obtain rfl : len = 0 := by omega
            apply (write_data_nothing sure fuel directory zero).mono
            rw [size]
            exact fun _ _ post done => ⟨_, post done⟩
          · have some : 0 < len := by
              have high := (chain_start chain nonempty).1
              omega
            apply (write_data_stores sure fuel fh small chain nonempty some directory).mono
            rw [size]
            exact fun _ _ post done => ⟨_, post done⟩

theorem write_stores (sure : faults.drive = false) (supplied : faults.heap = false)
    (small : v.fatEntryCount ≤ 0x0FFFFFF7) {fuel handle : Nat}
    (opened : openHandle v handle = some fh)
    (chain : fh.startCluster = 0 ∧ cs = [] ∨ Chain v fh.startCluster cs ∧ cs ≠ [])
    (directory : v.Valid fh.dirCluster) :
    Ensures (Stands faults) (write fuel handle data len) v fun ok w => ok = true →
      ∃ u first file, Stored v cs data len u first file ∧
        w = finished u (writtenHandles v handle fh len first) fh len first := by
  apply (ensures_forget (write_logged_forget fuel handle data len)
    (write_logged_stores sure supplied small opened chain directory)).mono
  rintro ok w ⟨log, post⟩ done
  obtain ⟨first, _, u, file, stored, same⟩ := post done
  exact ⟨u, first, file, stored, same⟩

end Storing

end CassiOS.Fat32.StoredFile

import CassiOS.Fat32.LookupTermination
import CassiOS.Fat32.SlotRuns
import CassiOS.Fat32.StaleMirror

/-!
# When the search for unused slots returns

`createEntry` looks for unused slots in a row along the cluster chain of a directory and passes
end marks. Where the chain ends it appends a cluster; on a chain that leads in a circle it
returns only if the circle has such a row. What it appends is read back from sectors that the
cache serves, also where the second FAT is stale there.
-/

namespace CassiOS.Fat32.FreeSearch

open CassiOS.Support.PartialProgram
open CassiOS.Support.Walks
open CassiOS.Fat32.Types
open CassiOS.Fat32.Names
open CassiOS.Fat32.Device
open CassiOS.Fat32.Cache
open CassiOS.Fat32.Filesystem
open CassiOS.Fat32.Operations
open CassiOS.Fat32.VolumeModel
open CassiOS.Fat32.DirectoryModel
open CassiOS.Fat32.ReadOnly
open CassiOS.Fat32.SlotRuns
open CassiOS.Fat32.StaleMirror
open CassiOS.Fat32.LookupTermination

set_option autoImplicit false

section Runs

variable {total : Nat} {before slots : List Slot} {slot : Slot}

/-- The slots have `total` unused ones in a row. -/
def HasRun (total : Nat) (slots : List Slot) : Prop :=
  ∃ run, run <:+: slots ∧ run.length = total ∧ ∀ slot ∈ run, unused slot = true

theorem has_run_infix (has : HasRun total before) (inside : before <:+: slots) :
    HasRun total slots := by
  obtain ⟨run, within, length, free⟩ := has
  exact ⟨run, within.trans inside, length, free⟩

theorem has_run_fewer {fewer : Nat} (has : HasRun total slots) (le : fewer ≤ total) :
    HasRun fewer slots := by
  obtain ⟨run, within, rfl, free⟩ := has
  refine ⟨run.take fewer, (List.take_prefix fewer run).isInfix.trans within, ?_, ?_⟩
  · exact List.length_take_of_le le
  · exact fun slot member => free slot (List.mem_of_mem_take member)

theorem has_run_at_end (slots : List Slot) :
    HasRun (slots.rtakeWhile unused).length slots :=
  ⟨_, (List.rtakeWhile_suffix unused slots).isInfix, rfl, fun _ member =>
    List.mem_rtakeWhile_imp member⟩

theorem end_run_length {run : List Slot} (ends : run <:+ slots)
    (free : ∀ slot ∈ run, unused slot = true) :
    run.length ≤ (slots.rtakeWhile unused).length := by
  obtain ⟨before, rfl⟩ := ends
  unfold List.rtakeWhile
  rw [List.reverse_append, List.takeWhile_append_of_pos]
  · rw [List.length_reverse, List.length_append, List.length_reverse]
    exact Nat.le_add_right _ _
  · exact fun slot member => free slot (List.mem_reverse.1 member)

theorem has_run_concat (has : HasRun total (before ++ [slot])) :
    HasRun total before ∨ total ≤ ((before ++ [slot]).rtakeWhile unused).length := by
  obtain ⟨run, within, rfl, free⟩ := has
  rcases List.infix_concat_iff.1 within with ends | earlier
  · exact .inr (end_run_length ends free)
  · exact .inl ⟨run, earlier, rfl, free⟩

/-- Where the slot loop goes on, it has passed no run. -/
theorem scan_free_misses (c total : Nat) (buf : Buf) (n i : Nat) {run run' : FreeRun}
    (counted : RunAt before run) (none : ¬ HasRun total before)
    (missed : scanFree c total buf n i run = (run', false)) :
    ¬ HasRun total (before ++ slotsFrom c buf n i) := by
  induction n generalizing i before run with
  | zero =>
      rw [slotsFrom, List.append_nil]
      exact none
  | succ n ih =>
      rw [slotsFrom, List.append_cons]
      unfold scanFree at missed
      dsimp only at missed
      by_cases free : (isEnd (slotAt buf i) || isFree (slotAt buf i)) = true
      · rw [if_pos free] at missed
        have next := run_at_unused c buf i counted free
        generalize (if run.length = 0 then (⟨1, c, i⟩ : FreeRun)
            else { run with length := run.length + 1 }) = longer at next missed
        by_cases enough : total ≤ longer.length
        · rw [if_pos enough] at missed
          cases missed
        · rw [if_neg enough] at missed
          apply ih (i + 1) next ?_ missed
          intro has
          rcases has_run_concat has with earlier | here
          · exact none earlier
          · rw [← next.length] at here
            exact enough here
      · rw [if_neg free] at missed
        have used : unused ⟨slotAt buf i, c, i * dirEntrySize⟩ = false := by
          simpa [unused] using free
        have next : RunAt (before ++ [⟨slotAt buf i, c, i * dirEntrySize⟩])
            { run with length := 0 } := run_at_used used run
        apply ih (i + 1) next ?_ missed
        intro has
        rcases has_run_concat has with earlier | here
        · exact none earlier
        · rw [← next.length] at here
          have zero : total = 0 := Nat.le_zero.1 here
          exact none ⟨[], List.nil_infix, zero.symm, fun _ member => absurd member List.not_mem_nil⟩

end Runs

section Room

variable {d : Fat32Filesystem} {total : Nat}

/-- The chain of `c` ends, or it comes to `total` unused slots in a row. -/
def HasRoom (d : Fat32Filesystem) (total c : Nat) : Prop :=
  ∃ n, ¬ InChain ((nextOf d)^[n] c) ∨ HasRun total (dirSlots d n c)

theorem has_room_fewer {fewer c : Nat} (room : HasRoom d total c) (le : fewer ≤ total) :
    HasRoom d fewer c := by
  obtain ⟨n, ends | has⟩ := room
  · exact ⟨n, .inl ends⟩
  · exact ⟨n, .inr (has_run_fewer has le)⟩

theorem slots_at_length (d : Fat32Filesystem) (c : Nat) :
    (slotsAt d c).length = entriesPerCluster d := slots_from_length _ _ _ _

theorem dir_slots_succ {n c : Nat} (inside : InChain c) :
    dirSlots d (n + 1) c = slotsAt d c ++ dirSlots d n (nextOf d c) := if_pos inside

theorem prefix_dir_slots (positive : 0 < entriesPerCluster d) {m n c : Nat} {run : List Slot}
    (first : run <+: dirSlots d n c) (short : run.length ≤ m) : run <+: dirSlots d m c := by
  induction m generalizing n c run with
  | zero =>
      rw [List.eq_nil_of_length_eq_zero (Nat.le_zero.1 short)]
      exact List.nil_prefix
  | succ m ih =>
      by_cases inside : InChain c
      · rw [dir_slots_succ inside]
        cases n with
        | zero =>
            rw [List.prefix_nil.1 first]
            exact List.nil_prefix
        | succ n =>
            rw [dir_slots_succ inside] at first
            rcases List.prefix_or_prefix_of_prefix first (List.prefix_append _ _)
              with here | ⟨rest, rfl⟩
            · exact here.trans (List.prefix_append _ _)
            · rw [List.prefix_append_right_inj] at first ⊢
              apply ih first
              rw [List.length_append, slots_at_length] at short
              omega
      · rw [dir_slots_outside inside] at first
        rw [List.prefix_nil.1 first]
        exact List.nil_prefix

/-- A run in the chain of `c` shows in the first clusters behind some place of the chain. -/
theorem run_window (positive : 0 < entriesPerCluster d) {n c : Nat}
    (has : HasRun total (dirSlots d n c)) :
    ∃ k, HasRun total (dirSlots d (total + 1) ((nextOf d)^[k] c)) := by
  induction n generalizing c with
  | zero => exact ⟨0, has_run_infix has List.nil_infix⟩
  | succ n ih =>
      by_cases inside : InChain c
      · obtain ⟨run, within, length, free⟩ := has
        rw [dir_slots_succ inside, List.infix_append_iff] at within
        rcases within with here | later | ⟨front, back, rfl, ends, begins⟩
        · refine ⟨0, run, here.trans ?_, length, free⟩
          rw [Function.iterate_zero_apply, dir_slots_succ inside]
          exact (List.prefix_append _ _).isInfix
        · obtain ⟨k, window⟩ := ih ⟨run, later, length, free⟩
          exact ⟨k + 1, window⟩
        · refine ⟨0, front ++ back, ?_, length, free⟩
          rw [List.length_append] at length
          rw [Function.iterate_zero_apply, dir_slots_succ inside, List.infix_append_iff]
          exact .inr (.inr ⟨front, back, rfl, ends,
            prefix_dir_slots positive begins (by omega)⟩)
      · rw [dir_slots_outside inside] at has
        exact ⟨0, has_run_infix has List.nil_infix⟩

theorem dir_slots_append {k c : Nat} (m : Nat)
    (inside : ∀ i, i < k → InChain ((nextOf d)^[i] c)) :
    dirSlots d (k + m) c = dirSlots d k c ++ dirSlots d m ((nextOf d)^[k] c) := by
  induction k generalizing c with
  | zero =>
      rw [Nat.zero_add]
      rfl
  | succ k ih =>
      have here : InChain c := inside 0 (Nat.succ_pos k)
      rw [Nat.add_right_comm, dir_slots_succ here, dir_slots_succ here, List.append_assoc,
        ih fun i less => inside (i + 1) (Nat.succ_lt_succ less)]
      rfl

theorem has_room_soon (positive : 0 < entriesPerCluster d) {c : Nat} (room : HasRoom d total c) :
    ∃ n, n ≤ fatEoc + total ∧ (¬ InChain ((nextOf d)^[n] c) ∨ HasRun total (dirSlots d n c)) := by
  classical
  let Seen : Nat → Prop := fun x => ¬ InChain x ∨ HasRun total (dirSlots d (total + 1) x)
  have reached : ∃ k, Seen ((nextOf d)^[k] c) := by
    obtain ⟨n, ends | has⟩ := room
    · exact ⟨n, .inl ends⟩
    · obtain ⟨k, window⟩ := run_window positive has
      exact ⟨k, .inr window⟩
  have earlier : ∀ m, m < Nat.find reached → InChain ((nextOf d)^[m] c) := by
    intro m less
    by_contra outside
    exact Nat.find_min reached less (.inl outside)
  have within : ∀ m, m < Nat.find reached → (nextOf d)^[m] c ∈ Finset.Ico 2 fatEoc :=
    fun m less => Finset.mem_Ico.2 (earlier m less)
  have bound := first_visit_bound (P := Seen) (Nat.find_spec reached)
    (fun m less => Nat.find_min reached less) within
  rw [Nat.card_Ico] at bound
  rcases Nat.find_spec reached with outside | window
  · exact ⟨Nat.find reached, by omega, .inl outside⟩
  · refine ⟨Nat.find reached + (total + 1), by unfold fatEoc at bound ⊢; omega, .inr ?_⟩
    rw [dir_slots_append _ earlier]
    exact has_run_infix window (List.suffix_append _ _).isInfix

end Room

section Growing

variable {v : Volume} {total : Nat} {before : List Slot} {run : FreeRun}

theorem entries_per_cluster_held {s : Fat32Filesystem} (held : Held s v) :
    entriesPerCluster s = slotCount v := by
  unfold entriesPerCluster slotCount
  rw [held.bytes]

theorem slot_count_held {s : Fat32Filesystem} (held : Held s v) : 0 < slotCount v := by
  rw [← entries_per_cluster_held held]
  unfold entriesPerCluster dirEntrySize
  rw [held.layout.bytes]
  have positive := held.layout.perCluster
  omega

/-- What is left to do where the search stands at the end of the chain. -/
def grow (total fuel cluster : Nat) (buf : Buf) (run : FreeRun) :
    Fs (Option (FreeRun × Buf)) := do
  let (newCluster, buf) ← extendDirectory cluster buf
  if newCluster = 0 then pure none else findFreeRun total fuel newCluster buf run

theorem search_zeroed {fuel n : Nat} (valid : v.Valid n) (zeroed : v.cluster n = fun _ => 0)
    (ended : fatEoc ≤ v.fat n) (counted : RunAt before run) (short : run.length < total)
    (more : ∀ before' run', RunAt before' run' → run.length < run'.length → run'.length < total →
      ∀ buf, Achieves Held (grow total fuel n buf run') v fun _ w => w.handles = v.handles)
    (buf : Buf) : Achieves Held (findFreeRun total (fuel + 1) n buf run) v fun _ w =>
      w.handles = v.handles := by
  intro s held
  have entries := held.layout.entries
  have high : n < fatEoc := by
    have bound := (held.valid valid).2
    unfold fatEoc
    omega
  have positive := slot_count_held held
  refine (?_ : Achieves Held (findFreeRun total (fuel + 1) n buf run) v _) s held
  unfold findFreeRun
  rw [if_pos ⟨valid.1, high⟩]
  apply achieves_bind_runs (read_cluster_held valid buf)
  dsimp only
  rw [if_pos rfl]
  apply achieves_read
  intro s held
  rw [entries_per_cluster_held held, zeroed]
  have searched := scan_free_spec n total (overlay v.clusterBytes (fun _ => 0) buf) (slotCount v) 0
    counted short
  have slots : slotsFrom n (overlay v.clusterBytes (fun _ => 0) buf) (slotCount v) 0 =
      slotsFrom n (fun _ => 0) (slotCount v) 0 :=
    slots_from_bytes fun j inside =>
      if_pos (slot_bytes_inside (Nat.le_of_eq (Nat.zero_add _)) inside)
  revert searched
  rcases scanFree n total (overlay v.clusterBytes (fun _ => 0) buf) (slotCount v) 0 run with
    ⟨run', found⟩
  cases found with
  | true => exact fun _ => achieves_pure rfl
  | false =>
      rintro ⟨counted', short'⟩
      have longer := counted'
      rw [slots] at longer
      have length := run_at_length longer fun slot => zeroed_unused
      rw [← counted.length, slots_from_length] at length
      apply achieves_bind_runs (fat_get_held v n)
      rw [if_pos ended]
      exact more _ run' counted' (by omega) short' _

theorem grow_returns {fuel : Nat} (c : Nat) (buf : Buf) (v : Volume) {before : List Slot}
    {run : FreeRun} (counted : RunAt before run) (short : run.length < total)
    (enough : total ≤ run.length + fuel) :
    Achieves Held (grow total fuel c buf run) v fun _ w => w.handles = v.handles := by
  induction fuel generalizing c buf v before run with
  | zero => omega
  | succ fuel ih =>
      unfold grow
      apply achieves_bind (extend_directory_held v c buf)
      rintro ⟨n, buf'⟩ w ⟨same, made⟩
      dsimp only at made ⊢
      by_cases full : n = 0
      · rw [if_pos full]
        exact achieves_pure same
      · rw [if_neg full]
        obtain ⟨valid, zeroed, ended⟩ := made.resolve_left full
        rw [← same]
        apply search_zeroed valid zeroed ended counted short
        intro before' run' counted' more short' buf
        exact ih n buf w counted' short' (by omega)

end Growing

section Searching

variable {d s : Fat32Filesystem} {total : Nat} {seen : List Slot} {run : FreeRun}

/-- The program returns and leaves the handle table alone. -/
def Finishes {α : Type} (f : Fs α) (s : Fat32Filesystem) : Prop :=
  ∃ a s', f s = some (a, s') ∧ s'.handles = s.handles

theorem finishes_bind {α β : Type} {x : Fs α} {f : α → Fs β} (first : Finishes x s)
    (rest : ∀ a s', Finishes (f a) s') : Finishes (x >>= f) s := by
  obtain ⟨a, s', run, same⟩ := first
  obtain ⟨b, s'', run', same'⟩ := rest a s'
  exact ⟨b, s'', (bind_of_some run).trans run', same'.trans same⟩

theorem finishes_read {α : Type} {f : Fat32Filesystem → Fs α} (spec : Finishes (f s) s) :
    Finishes (fun s => f s s) s := spec

theorem finishes_bind_reading {α β : Type} {faults : Faults} {x : Fs α} {f : α → Fs β}
    {P : α → Prop} (reading : Reading faults s d)
    (first : Achieves (Reading faults) x d fun a w => w = d ∧ P a)
    (rest : ∀ a s', Reading faults s' d → P a → Finishes (f a) s') : Finishes (x >>= f) s := by
  obtain ⟨a, s', w, run, reading', rfl, holds⟩ := first s reading
  obtain ⟨b, s'', run', same'⟩ := rest a s' reading' holds
  refine ⟨b, s'', (bind_of_some run).trans run', same'.trans ?_⟩
  have table : ∀ {s : Fat32Filesystem}, Reading faults s w → s.handles = w.handles := by
    rintro s reading
    rw [← reading.same]
    rfl
  rw [table reading', table reading]

theorem held_of_reading (layout : Layout d) (reading : Reading servedDrive s d) :
    Held s (volumeOf s) := by
  apply held_of_transparent ?_ (reading.granting rfl) reading.transparent
  obtain rfl := reading.same
  exact ⟨layout.sector, layout.perCluster, layout.clusterBytes, layout.fatStart, layout.dataStart,
    layout.copies, layout.fatCovers, layout.entries, layout.dataFits, layout.handleTable⟩

theorem entries_positive (layout : Layout d) : 0 < entriesPerCluster d := by
  unfold entriesPerCluster dirEntrySize
  rw [layout.bytes]
  have positive := layout.perCluster
  omega

theorem read_cluster_served (d : Fat32Filesystem) (c : Nat) (buf : Buf) :
    Achieves (Reading servedDrive) (readCluster c buf) d fun answer w =>
      w = d ∧ answer = (true, clusterInto d c buf) := by
  apply (read_cluster_reading d c buf).mono
  rintro answer w ⟨same, read | ⟨_, fails⟩⟩
  · exact ⟨same, read⟩
  · cases fails

theorem fat_get_served (d : Fat32Filesystem) (c : Nat) :
    Achieves (Reading servedDrive) (fatGet c) d fun a w => w = d ∧ a = nextOf d c := by
  apply (fat_get_reading d c).mono
  rintro a w ⟨same, read | ⟨_, fails⟩⟩
  · exact ⟨same, read⟩
  · cases fails

/-- Where a run or the end of the chain lies within `n` clusters, the search returns. -/
theorem find_free_run_finishes (layout : Layout d) {n fuel c : Nat}
    (room : ¬ InChain ((nextOf d)^[n] c) ∨ HasRun total (seen ++ dirSlots d n c))
    (none : ¬ HasRun total seen) (counted : RunAt seen run) (short : run.length < total)
    (enough : n + total < fuel) {buf : Buf} (spare : Spare d buf)
    (reading : Reading servedDrive s d) : Finishes (findFreeRun total fuel c buf run) s := by
  induction n generalizing fuel c seen run buf s with
  | zero =>
      obtain _ | fuel := fuel
      · omega
      have outside : ¬ InChain c := room.resolve_right fun has => none (by
        rwa [dirSlots, List.append_nil] at has)
      unfold findFreeRun
      rw [if_neg outside]
      exact ⟨_, s, rfl, rfl⟩
  | succ n ih =>
      obtain _ | fuel := fuel
      · omega
      unfold findFreeRun
      by_cases inside : InChain c
      · rw [if_pos inside]
        refine finishes_bind_reading reading (read_cluster_served d c buf) ?_
        rintro answer s₁ reading₁ rfl
        dsimp only
        rw [if_pos rfl]
        apply finishes_read
        rw [reading₁.layout.2.2.2.1]
        have searched := scan_free_spec c total (clusterInto d c buf) (entriesPerCluster d) 0
          counted short
        have missed : ∀ run', scanFree c total (clusterInto d c buf) (entriesPerCluster d) 0 run =
            (run', false) → ¬ HasRun total (seen ++ slotsAt d c) := by
          intro run' misses
          rw [← spare_slots spare]
          exact scan_free_misses c total (clusterInto d c buf) _ 0 counted none misses
        revert searched missed
        rcases scanFree c total (clusterInto d c buf) (entriesPerCluster d) 0 run with
          ⟨run', found⟩
        cases found with
        | true => exact fun _ _ => ⟨_, s₁, rfl, rfl⟩
        | false =>
            rintro ⟨counted', short'⟩ missed
            rw [spare_slots spare] at counted'
            refine finishes_bind_reading reading₁ (fat_get_served d c) ?_
            rintro next s₂ reading₂ rfl
            by_cases ended : fatEoc ≤ nextOf d c
            · rw [if_pos ended]
              have grown : Achieves Held (grow total fuel c (clusterInto d c buf) run')
                  (volumeOf s₂) fun _ w => w.handles = s₂.handles :=
                grow_returns c _ _ counted' short' (by omega)
              obtain ⟨a, s', w, grows, held, same⟩ :=
                grown s₂ (held_of_reading layout reading₂)
              refine ⟨a, s', grows, ?_⟩
              have table : s'.handles = w.handles := by
                rw [← held.content]
                rfl
              exact table.trans same
            · rw [if_neg ended]
              apply ih ?_ (missed run' rfl) counted' short' (by omega) (spare_read spare c) reading₂
              rw [dir_slots_succ inside, ← List.append_assoc] at room
              exact room
      · rw [if_neg inside]
        exact ⟨_, s, rfl, rfl⟩

/-- Where there is neither, the search does not return. -/
theorem find_free_run_endless {fuel c : Nat}
    (endless : ∀ n, InChain ((nextOf d)^[n] c) ∧ ¬ HasRun total (seen ++ dirSlots d n c))
    (counted : RunAt seen run) (short : run.length < total) {buf : Buf} (spare : Spare d buf) :
    Ensures (Reading noFailure) (findFreeRun total fuel c buf run) d fun _ _ => False := by
  induction fuel generalizing c seen run buf with
  | zero => exact ensures_none
  | succ fuel ih =>
      have inside : InChain c := (endless 0).1
      have here := (endless 1).2
      rw [dir_slots_succ inside, dirSlots, List.append_nil] at here
      unfold findFreeRun
      rw [if_pos inside]
      apply ensures_bind (read_cluster_reading d c buf).ensures
      rintro ⟨ok, buf'⟩ w ⟨rfl, read | ⟨_, fails⟩⟩
      · cases read
        dsimp only
        rw [if_pos rfl]
        apply ensures_read
        intro s reading
        rw [reading.layout.2.2.2.1]
        have searched := scan_free_spec c total (clusterInto w c buf) (entriesPerCluster w) 0
          counted short
        revert searched
        rcases scanFree c total (clusterInto w c buf) (entriesPerCluster w) 0 run with
          ⟨run', found⟩
        cases found with
        | true =>
            rintro ⟨m, low, at_, whole⟩
            refine absurd ?_ here
            rw [← whole, at_.length]
            apply has_run_infix (has_run_at_end _)
            rw [← spare_slots spare, ← Nat.add_sub_cancel' low, slots_from_append,
              ← List.append_assoc]
            exact (List.prefix_append _ _).isInfix
        | false =>
            rintro ⟨counted', short'⟩
            rw [spare_slots spare] at counted'
            apply ensures_bind (fat_get_reading w c).ensures
            rintro next u ⟨rfl, rfl | ⟨_, fails⟩⟩
            · have onward : ¬ fatEoc ≤ nextOf u c := Nat.not_le.2 (endless 1).1.2
              rw [if_neg onward]
              apply ih ?_ counted' short' (spare_read spare c)
              intro n
              have later := endless (n + 1)
              rw [dir_slots_succ inside, ← List.append_assoc] at later
              exact later
            · cases fails
      · cases fails

end Searching

section Always

/-! What `createEntry` does behind the search has no loop but over sectors and slots. -/

variable {s : Fat32Filesystem}

theorem cache_lookup_finishes (lba : Nat) : Finishes (cacheLookup lba) s := by
  unfold cacheLookup Finishes
  dsimp only
  split
  · exact ⟨_, _, rfl, rfl⟩
  · exact ⟨_, _, rfl, rfl⟩

theorem write_back_finishes (i : Nat) (entry : CacheEntry) : Finishes (writeBack i entry) s := by
  unfold writeBack
  split
  · exact finishes_bind ⟨_, _, rfl, rfl⟩ fun _ _ => ⟨_, _, rfl, rfl⟩
  · exact ⟨_, _, rfl, rfl⟩

theorem cache_evict_finishes : Finishes cacheEvict s := by
  unfold Finishes cacheEvict
  dsimp only
  split
  · split
    · exact ⟨_, s, rfl, rfl⟩
    · refine finishes_bind (x := heapAlloc) ⟨_, _, rfl, rfl⟩ ?_
      rintro (_ | block) s'
      · exact ⟨_, s', rfl, rfl⟩
      · exact ⟨_, _, rfl, rfl⟩
  · split
    · exact ⟨_, s, rfl, rfl⟩
    · exact finishes_bind (write_back_finishes _ _) fun _ _ => ⟨_, _, rfl, rfl⟩

theorem cache_read_finishes (lba : Nat) : Finishes (cacheRead lba) s := by
  unfold cacheRead
  apply finishes_bind (cache_lookup_finishes lba)
  rintro (_ | i) s'
  · apply finishes_bind cache_evict_finishes
    rintro (_ | i) s'
    · exact ⟨_, _, rfl, rfl⟩
    · refine finishes_bind ⟨_, _, rfl, rfl⟩ ?_
      rintro (_ | data) s'
      · exact ⟨_, _, rfl, rfl⟩
      · exact ⟨_, _, rfl, rfl⟩
  · exact ⟨_, _, rfl, rfl⟩

theorem cache_write_finishes (lba : Nat) (data : Sector) : Finishes (cacheWrite lba data) s := by
  unfold cacheWrite
  apply finishes_bind (cache_lookup_finishes lba)
  rintro (_ | i) s'
  · apply finishes_bind cache_evict_finishes
    rintro (_ | i) s'
    · exact ⟨_, _, rfl, rfl⟩
    · exact ⟨_, _, rfl, rfl⟩
  · exact ⟨_, _, rfl, rfl⟩

theorem read_cluster_finishes (c : Nat) (buf : Buf) : Finishes (readCluster c buf) s := by
  have sectors : ∀ lba n i buf s, Finishes (readSectors lba i n buf) s := by
    intro lba n
    induction n with
    | zero => exact fun _ _ s => ⟨_, s, rfl, rfl⟩
    | succ n ih =>
        intro i buf s
        unfold readSectors
        apply finishes_bind (cache_read_finishes _)
        rintro (_ | data) s'
        · exact ⟨_, s', rfl, rfl⟩
        · exact ih _ _ s'
  unfold readCluster
  apply finishes_read
  exact sectors (clusterToLba s c) s.sectorsPerCluster 0 buf s

theorem write_cluster_finishes (c : Nat) (buf : Buf) : Finishes (writeCluster c buf) s := by
  have sectors : ∀ lba n i s, Finishes (writeSectors lba i buf n) s := by
    intro lba n
    induction n with
    | zero => exact fun _ s => ⟨_, s, rfl, rfl⟩
    | succ n ih =>
        intro i s
        unfold writeSectors
        apply finishes_bind (cache_write_finishes _ _)
        rintro (_ | _) s'
        · exact ⟨_, s', rfl, rfl⟩
        · exact ih _ s'
  unfold writeCluster
  apply finishes_read
  exact sectors (clusterToLba s c) s.sectorsPerCluster 0 s

theorem fat_get_finishes (c : Nat) : Finishes (fatGet c) s := by
  unfold fatGet Finishes
  by_cases beyond : s.fatEntryCount ≤ c
  · exact ⟨fatEoc, s, if_pos beyond, rfl⟩
  · simp only [if_neg beyond]
    apply finishes_bind (cache_read_finishes _)
    rintro (_ | data) s'
    · exact ⟨_, s', rfl, rfl⟩
    · exact ⟨_, s', rfl, rfl⟩

theorem write_lfn_slots_finishes (name : List UInt8) (checksum : UInt8) (seq : Nat)
    (cursor : Cursor) : Finishes (writeLfnSlots name checksum seq cursor) s := by
  induction seq generalizing cursor s with
  | zero => exact ⟨_, s, rfl, rfl⟩
  | succ seq ih =>
      unfold writeLfnSlots Finishes
      dsimp only
      split
      · apply finishes_bind (write_cluster_finishes _ _)
        intro _ s₁
        apply finishes_bind (fat_get_finishes _)
        intro next s₂
        apply finishes_bind (read_cluster_finishes next _)
        rintro ⟨ok, buf⟩ s₃
        dsimp only
        split
        · exact ih _
        · exact ⟨_, s₃, rfl, rfl⟩
      · exact ih _

theorem write_file_slot_finishes (c : Nat) (short : List UInt8) (cursor : Cursor) :
    Finishes (writeShortSlot c short DirAttr.archive cursor) s := by
  unfold writeShortSlot
  dsimp only
  rw [if_neg (by decide)]
  exact finishes_bind (write_cluster_finishes _ _) fun _ s' => ⟨_, s', rfl, rfl⟩

theorem read_back_finishes (c offset : Nat) : Finishes (readBack c offset) s := by
  unfold readBack
  refine finishes_bind ⟨_, _, rfl, rfl⟩ ?_
  rintro (_ | block) s₁
  · exact ⟨_, s₁, rfl, rfl⟩
  · exact finishes_bind (read_cluster_finishes c _) fun _ s₂ => ⟨_, s₂, rfl, rfl⟩

end Always

section Creating

variable {d s : Fat32Filesystem} {fuel c : Nat}

def slotsFor (name : List UInt8) : Nat := (if needsLfn name then lfnCount name else 0) + 1

def mostSlots : Nat := 21

theorem slots_for_most {name : List UInt8} (fits : name.length ≤ 255) :
    slotsFor name ≤ mostSlots := by
  unfold slotsFor mostSlots lfnCount lfnCharsPerEntry
  split
  · omega
  · omega

theorem run_at_start : RunAt [] ⟨0, 0, 0⟩ := ⟨rfl, nofun⟩

theorem no_run_at_start (name : List UInt8) : ¬ HasRun (slotsFor name) [] := by
  rintro ⟨run, inside, length, _⟩
  rw [List.infix_nil.1 inside] at length
  cases length

theorem create_entry_finishes (layout : Layout d) {name : List UInt8}
    (room : HasRoom d (slotsFor name) c) (few : slotsFor name ≤ mostSlots)
    (large : 4294967296 ≤ fuel) (reading : Reading servedDrive s d) :
    Finishes (createEntry fuel c name DirAttr.archive) s := by
  obtain ⟨n, soon, near⟩ := has_room_soon (entries_positive layout) room
  have enough : n + slotsFor name < fuel := by
    unfold fatEoc at soon
    unfold mostSlots at few
    omega
  unfold createEntry
  dsimp only
  refine finishes_bind_reading reading (P := fun block => block = some d.heap.junk ∨ block = none)
    ((heap_alloc_reading d).mono ?_) ?_
  · rintro block w ⟨same, outcome⟩
    exact ⟨same, outcome.imp_right And.left⟩
  rintro _ s₁ reading₁ (rfl | rfl)
  · apply finishes_bind (find_free_run_finishes layout near (no_run_at_start name) run_at_start
      (Nat.succ_pos _) enough (fun _ _ => rfl) reading₁)
    rintro (_ | ⟨run, buf⟩) s₂
    · exact ⟨_, s₂, rfl, rfl⟩
    · apply finishes_bind (read_cluster_finishes _ _)
      rintro ⟨ok, buf⟩ s₃
      dsimp only
      split
      · apply finishes_bind (write_lfn_slots_finishes _ _ _ _)
        rintro (_ | cursor) s₄
        · exact ⟨_, s₄, rfl, rfl⟩
        · exact write_file_slot_finishes _ _ _
      · exact ⟨_, s₃, rfl, rfl⟩
  · exact ⟨_, s₁, rfl, rfl⟩

theorem create_entry_endless {name : List UInt8} (none : ¬ HasRoom d (slotsFor name) c)
    (kind : UInt8) :
    Ensures (Reading noFailure) (createEntry fuel c name kind) d fun _ _ => False := by
  have endless : ∀ n, InChain ((nextOf d)^[n] c) ∧ ¬ HasRun (slotsFor name) ([] ++ dirSlots d n c) :=
    fun n => ⟨by_contra fun outside => none ⟨n, .inl outside⟩, fun has => none ⟨n, .inr has⟩⟩
  unfold createEntry
  dsimp only
  apply ensures_bind (heap_alloc_reading d).ensures
  rintro _ w ⟨rfl, rfl | ⟨_, fails⟩⟩
  · exact ensures_bind (find_free_run_endless endless run_at_start (Nat.succ_pos _) fun _ _ => rfl)
      fun _ _ never => never.elim
  · cases fails

end Creating

end CassiOS.Fat32.FreeSearch

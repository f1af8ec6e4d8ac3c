import CassiOS.Fat32.WriteModel

/-!
# The buffers of the callers

`read` fills the buffer that it is given without looking at it, and what it has filled is what it
counts. `write` looks at the bytes that it is asked to write and at no others.
-/

namespace CassiOS.Fat32.CallerBuffers

open CassiOS.Support.PartialProgram
open CassiOS.Fat32.Types
open CassiOS.Fat32.Device
open CassiOS.Fat32.Filesystem
open CassiOS.Fat32.Operations
open CassiOS.Fat32.WriteModel

set_option autoImplicit false

section Filling

variable {α Count Total : Type} {start limit : Nat} {Agrees : Count → Nat → Prop}
  {s : Fat32Filesystem}

structure Fetched (Count : Type) where
  count : Count
  stop : Nat
  bytes : Buf

def Fetched.into (fetched : Fetched Count) (start : Nat) (buf : Buf) : Buf := fun i =>
  if start ≤ i ∧ i < fetched.stop then fetched.bytes i else buf i

/-- Whatever the buffer holds, the program fills it from `start` with the same bytes and counts
them in the same way. -/
def Fills (start limit : Nat) (Agrees : Count → Nat → Prop)
    (program : Buf → Option ((Count × Buf) × Fat32Filesystem)) : Prop :=
  ∃ run : Option (Fetched Count × Fat32Filesystem),
    (∀ buf, program buf = run.map fun r => ((r.1.count, r.1.into start buf), r.2)) ∧
    ∀ r ∈ run, start ≤ r.1.stop ∧ r.1.stop ≤ limit ∧ Agrees r.1.count r.1.stop

theorem fills_none : Fills start limit Agrees fun _ => none :=
  ⟨none, fun _ => rfl, nofun⟩

theorem fills_pure {count : Count} (room : start ≤ limit) (agrees : Agrees count start) :
    Fills start limit Agrees fun buf => some ((count, buf), s) := by
  refine ⟨some (⟨count, start, fun _ => 0⟩, s), fun buf => ?_, ?_⟩
  · have nothing : Fetched.into ⟨count, start, fun _ => 0⟩ start buf = buf := by
      funext i
      exact if_neg fun inside => Nat.lt_irrefl i (Nat.lt_of_lt_of_le inside.2 inside.1)
    rw [Option.map_some, nothing]
  · intro r member
    obtain rfl := Option.some.inj member
    exact ⟨Nat.le_refl _, room, agrees⟩

theorem fills_bind {x : Fs α} {f : α → Buf → Fs (Count × Buf)}
    (each : ∀ a t, Fills start limit Agrees fun buf => f a buf t) :
    Fills start limit Agrees fun buf => (x >>= fun a => f a buf) s := by
  cases first : x s with
  | none =>
      have stuck : (fun buf => (x >>= fun a => f a buf) s) = fun _ => none := by
        funext buf
        change (x s).bind (fun p => f p.1 buf p.2) = none
        rw [first]
        rfl
      rw [stuck]
      exact fills_none
  | some p =>
      have next : (fun buf => (x >>= fun a => f a buf) s) = fun buf => f p.1 buf p.2 :=
        funext fun buf => bind_of_some first
      rw [next]
      exact each p.1 p.2

theorem Fills.recount {program : Buf → Option ((Count × Buf) × Fat32Filesystem)}
    (fills : Fills start limit Agrees program) (Agrees' : Total → Nat → Prop)
    (total : Count → Total)
    (agrees : ∀ count stop, Agrees count stop → Agrees' (total count) stop) :
    Fills start limit Agrees' fun buf =>
      (program buf).map fun r => ((total r.1.1, r.1.2), r.2) := by
  obtain ⟨run, same, bounds⟩ := fills
  refine ⟨run.map fun r => (⟨total r.1.count, r.1.stop, r.1.bytes⟩, r.2), fun buf => ?_, ?_⟩
  · dsimp only
    rw [same, Option.map_map, Option.map_map]
    rfl
  · intro r member
    obtain ⟨r, before, rfl⟩ := Option.map_eq_some_iff.1 member
    obtain ⟨low, high, counted⟩ := bounds r before
    exact ⟨low, high, agrees _ _ counted⟩

theorem Fills.behind {program : Buf → Option ((Count × Buf) × Fat32Filesystem)} {chunk : Nat}
    (fills : Fills (start + chunk) limit Agrees program) (src : Buf) (srcOff : Nat) :
    Fills start limit Agrees fun buf => program (copyBytes buf start src srcOff chunk) := by
  obtain ⟨run, same, bounds⟩ := fills
  let copied (r : Fetched Count × Fat32Filesystem) : Fetched Count × Fat32Filesystem :=
    (⟨r.1.count, r.1.stop,
      fun i => if i < start + chunk then src (srcOff + (i - start)) else r.1.bytes i⟩, r.2)
  refine ⟨run.map copied, fun buf => ?_, ?_⟩
  · dsimp only
    rw [same, Option.map_map]
    apply Option.map_congr
    intro r member
    have low := (bounds r member).1
    have filled : r.1.into (start + chunk) (copyBytes buf start src srcOff chunk) =
        (copied r).1.into start buf := by
      funext i
      unfold Fetched.into copyBytes
      dsimp only [copied]
      by_cases here : start ≤ i ∧ i < start + chunk
      · rw [if_neg (by omega), if_pos here, if_pos (by omega), if_pos here.2]
      · rw [if_neg here]
        by_cases later : start + chunk ≤ i ∧ i < r.1.stop
        · rw [if_pos later, if_pos (by omega), if_neg (by omega)]
        · rw [if_neg later, if_neg (by omega)]
    dsimp only [Function.comp]
    rw [filled]
  · intro r member
    obtain ⟨r, before, rfl⟩ := Option.map_eq_some_iff.1 member
    obtain ⟨low, high, counted⟩ := bounds r before
    exact ⟨Nat.le_trans (Nat.le_add_right _ _) low, high, counted⟩

end Filling

section Reading

theorem read_loop_fills (startCluster offset toRead fuel bytesRead : Nat) (clusterBuf : Buf)
    (s : Fat32Filesystem) (bound : bytesRead ≤ toRead) :
    Fills bytesRead toRead (fun count stop => ∀ c ∈ count, c = stop) fun buf =>
      readLoop startCluster offset toRead fuel bytesRead buf clusterBuf s := by
  induction fuel generalizing bytesRead clusterBuf s with
  | zero => exact fills_none
  | succ fuel ih =>
      unfold readLoop
      by_cases more : bytesRead < toRead
      · simp only [if_pos more]
        apply fills_bind
        intro cluster t
        by_cases ended : cluster = 0 ∨ fatEoc ≤ cluster
        · simp only [if_pos ended]
          exact fills_pure bound fun c same => (Option.some.inj same).symm
        · simp only [if_neg ended]
          apply fills_bind
          rintro ⟨ok, content⟩ u
          cases ok with
          | false => exact fills_pure bound fun c none => absurd none (Option.not_mem_none c)
          | true => exact (ih _ content u (by omega)).behind content _
      · simp only [if_neg more]
        exact fills_pure bound fun c same => (Option.some.inj same).symm

def Counted (count : Int) (stop : Nat) : Prop := count = -1 ∨ count = toI32 stop

theorem counted_total (count : Option Nat) (stop : Nat) (counts : ∀ c ∈ count, c = stop) :
    Counted (count.elim (-1) toI32) stop := by
  cases count with
  | none => exact .inl rfl
  | some c => exact .inr (congrArg toI32 (counts c rfl))

theorem read_fills (fuel handle offset len : Nat) (s : Fat32Filesystem) :
    Fills 0 len Counted fun buf => Operations.read fuel handle offset buf len s := by
  have failed : ∀ t : Fat32Filesystem, Fills 0 len Counted fun buf => some ((-1, buf), t) :=
    fun t => fills_pure (Nat.zero_le _) (.inl rfl)
  unfold Operations.read
  by_cases outside : handle = 0 ∨ maxHandles < handle
  · simp only [if_pos outside]
    exact failed s
  · simp only [if_neg outside]
    cases s.handles[handle - 1]? with
    | none => exact failed s
    | some fh =>
        dsimp only
        by_cases inUse : fh.inUse = true
        · by_cases beyond : fh.size ≤ offset
          · simp only [if_pos inUse, if_pos beyond]
            exact fills_pure (Nat.zero_le _) (.inr rfl)
          · simp only [if_pos inUse, if_neg beyond]
            apply fills_bind
            rintro (_ | clusterBuf) t
            · exact failed t
            · obtain ⟨run, same, bounds⟩ := (read_loop_fills fh.startCluster offset
                (min len (fh.size - offset)) fuel 0 clusterBuf t (Nat.zero_le _)).recount Counted _
                  counted_total
              refine ⟨run, fun buf => ?_, fun r member => ?_⟩
              · rw [← same]
                change (readLoop _ _ _ _ _ _ _ _).bind _ = (readLoop _ _ _ _ _ _ _ _).map _
                cases readLoop fh.startCluster offset (min len (fh.size - offset)) fuel 0 buf
                  clusterBuf t with
                | none => rfl
                | some r =>
                    obtain ⟨⟨_ | c, out⟩, u⟩ := r
                    · rfl
                    · rfl
              · obtain ⟨low, high, agrees⟩ := bounds r member
                exact ⟨low, Nat.le_trans high (Nat.min_le_left _ _), agrees⟩
        · simp only [if_neg inUse]
          exact failed s

end Reading

section Writing

variable {data data' : Buf} {len : Nat}

theorem copy_bytes_congr (agree : ∀ i, i < len → data i = data' i) (dst : Buf) (dstOff : Nat)
    {srcOff n : Nat} (inside : n ≤ len - srcOff) :
    copyBytes dst dstOff data srcOff n = copyBytes dst dstOff data' srcOff n := by
  funext j
  unfold copyBytes
  split
  · exact agree _ (by omega)
  · rfl

theorem store_chunk_congr (agree : ∀ i, i < len → data i = data' i)
    (bytesWritten cluster prevCluster : Nat) (clusterBuf : Buf) :
    storeChunk data len bytesWritten cluster prevCluster clusterBuf =
      storeChunk data' len bytesWritten cluster prevCluster clusterBuf := by
  funext s
  unfold storeChunk
  have copies : ∀ dst, copyBytes dst (bytesWritten % s.bytesPerCluster) data bytesWritten
      (min (s.bytesPerCluster - bytesWritten % s.bytesPerCluster) (len - bytesWritten)) =
      copyBytes dst (bytesWritten % s.bytesPerCluster) data' bytesWritten
        (min (s.bytesPerCluster - bytesWritten % s.bytesPerCluster) (len - bytesWritten)) :=
    fun dst => copy_bytes_congr agree dst _ (Nat.min_le_right _ _)
  simp only [copies]

theorem write_loop_congr (agree : ∀ i, i < len → data i = data' i)
    (fuel bytesWritten cluster prevCluster : Nat) (clusterBuf : Buf) (s : Fat32Filesystem) :
    writeLoop data len fuel bytesWritten cluster prevCluster clusterBuf s =
      writeLoop data' len fuel bytesWritten cluster prevCluster clusterBuf s := by
  induction fuel generalizing bytesWritten cluster prevCluster clusterBuf s with
  | zero => rfl
  | succ fuel ih =>
      by_cases more : bytesWritten < len
      · rw [write_loop_eq more, write_loop_eq more, store_chunk_congr agree]
        refine congrFun (bind_congr ?_) s
        rintro (_ | ⟨cluster, clusterBuf⟩)
        · rfl
        · dsimp only
          split
          · exact bind_congr fun next => funext fun t => ih _ _ _ _ t
          · exact funext fun t => ih _ _ _ _ t
      · unfold writeLoop
        rw [if_neg more, if_neg more]

theorem write_data_congr (agree : ∀ i, i < len → data i = data' i) (fuel i : Nat) (fh : FileHandle)
    (clusterBuf : Buf) :
    writeData fuel i fh data len clusterBuf = writeData fuel i fh data' len clusterBuf := by
  have loops : writeLoop data len fuel 0 fh.startCluster 0 clusterBuf =
      writeLoop data' len fuel 0 fh.startCluster 0 clusterBuf :=
    funext fun s => write_loop_congr agree fuel 0 fh.startCluster 0 clusterBuf s
  unfold writeData
  rw [loops]

theorem write_takes_bytes (agree : ∀ i, i < len → data i = data' i) (fuel handle : Nat) :
    write fuel handle data len = write fuel handle data' len := by
  funext s
  unfold write
  simp only [write_data_congr agree]

end Writing

end CassiOS.Fat32.CallerBuffers

import CassiOS.Fat32.WriteModel

/-!
# What `write` reads of its data

`write` with a log of the copies it makes from `data`. Without the log it is `write`.
-/

namespace CassiOS.Fat32.DataReads

open CassiOS.Support.PartialProgram
open CassiOS.Fat32.Types
open CassiOS.Fat32.Device
open CassiOS.Fat32.Filesystem
open CassiOS.Fat32.Operations
open CassiOS.Fat32.VolumeModel
open CassiOS.Fat32.FatModel
open CassiOS.Fat32.FileModel
open CassiOS.Fat32.WriteModel

set_option autoImplicit false

section Logging

/-- A `mem::copy` of `count` bytes from `data + offset`. -/
structure DataRead where
  offset : Nat
  count : Nat
deriving DecidableEq

/-- `writeLoop` with the copies made so far. -/
def writeLoopLogged (data : Buf) (len : Nat) :
    Nat → Nat → Nat → Nat → Buf → List DataRead → Fs (Option (Nat × Buf) × List DataRead)
  | 0, _, _, _, _, _ => fun _ => none
  | fuel + 1, bytesWritten, cluster, prevCluster, clusterBuf, log => fun s =>
      if bytesWritten < len then
        (do
          match ← storeChunk data len bytesWritten cluster prevCluster clusterBuf with
          | none => pure (none, log)
          | some (cluster, clusterBuf) =>
              let chunk := min (s.bytesPerCluster - bytesWritten % s.bytesPerCluster)
                (len - bytesWritten)
              let log := log ++ [DataRead.mk bytesWritten chunk]
              if bytesWritten + chunk < len then do
                let next ← fatGet cluster
                writeLoopLogged data len fuel (bytesWritten + chunk) next cluster clusterBuf log
              else
                writeLoopLogged data len fuel (bytesWritten + chunk) cluster prevCluster clusterBuf
                  log) s
      else some ((some (cluster, clusterBuf), log), s)

def writeDataLogged (fuel i : Nat) (fh : FileHandle) (data : Buf) (len : Nat) (clusterBuf : Buf) :
    Fs (Bool × List DataRead) := do
  match ← writeLoopLogged data len fuel 0 fh.startCluster 0 clusterBuf [] with
  | (none, log) => pure (false, log)
  | (some (cluster, clusterBuf), log) => do
      truncateChain fuel cluster
      setHandle i fun fh => { fh with size := len }
      let ok ← updateEntry fh.dirCluster fh.dirOffset len fh.startCluster clusterBuf
      pure (ok, log)

def writeLogged (fuel handle : Nat) (data : Buf) (len : Nat) : Fs (Bool × List DataRead) := fun s =>
  if handle = 0 ∨ maxHandles < handle then some ((false, []), s)
  else
    match s.handles[handle - 1]? with
    | none => some ((false, []), s)
    | some fh =>
        if fh.inUse then
          (do
            match ← heapAlloc with
            | none => pure (false, [])
            | some clusterBuf =>
                if len = 0 ∧ 2 ≤ fh.startCluster then do
                  freeChain fuel fh.startCluster
                  setHandle (handle - 1) fun fh => { fh with startCluster := 0, size := 0 }
                  let ok ← updateEntry fh.dirCluster fh.dirOffset 0 0 clusterBuf
                  pure (ok, [])
                else if fh.startCluster < 2 ∧ 0 < len then do
                  let newCluster ← allocateCluster
                  if newCluster = 0 then pure (false, [])
                  else do
                    setHandle (handle - 1) fun fh => { fh with startCluster := newCluster }
                    writeDataLogged fuel (handle - 1) { fh with startCluster := newCluster } data len
                      clusterBuf
                else writeDataLogged fuel (handle - 1) fh data len clusterBuf) s
        else some ((false, []), s)

end Logging

section Forgetting

theorem write_loop_logged_eq {data : Buf} {len bytesWritten : Nat} (more : bytesWritten < len)
    (fuel cluster prevCluster : Nat) (clusterBuf : Buf) (log : List DataRead)
    (s : Fat32Filesystem) :
    writeLoopLogged data len (fuel + 1) bytesWritten cluster prevCluster clusterBuf log s =
      (storeChunk data len bytesWritten cluster prevCluster clusterBuf >>= fun answer =>
        match answer with
        | none => pure (none, log)
        | some (cluster, clusterBuf) =>
            let chunk := min (s.bytesPerCluster - bytesWritten % s.bytesPerCluster)
              (len - bytesWritten)
            let log := log ++ [DataRead.mk bytesWritten chunk]
            if bytesWritten + chunk < len then do
              let next ← fatGet cluster
              writeLoopLogged data len fuel (bytesWritten + chunk) next cluster clusterBuf log
            else
              writeLoopLogged data len fuel (bytesWritten + chunk) cluster prevCluster clusterBuf
                log) s := by
  rw [writeLoopLogged]
  exact if_pos more

theorem write_loop_logged_forget (data : Buf) (len fuel bytesWritten cluster prevCluster : Nat)
    (clusterBuf : Buf) (log : List DataRead) (s : Fat32Filesystem) :
    forget (writeLoopLogged data len fuel bytesWritten cluster prevCluster clusterBuf log s) =
      writeLoop data len fuel bytesWritten cluster prevCluster clusterBuf s := by
  induction fuel generalizing bytesWritten cluster prevCluster clusterBuf log s with
  | zero => rfl
  | succ fuel ih =>
      by_cases more : bytesWritten < len
      · rw [write_loop_eq more, write_loop_logged_eq more]
        apply forget_bind
        rintro (_ | ⟨cluster, clusterBuf⟩) t
        · rfl
        · dsimp only
          split
          · apply forget_bind
            exact fun next t => ih ..
          · exact ih ..
      · rw [writeLoop, writeLoopLogged]
        dsimp only
        rw [if_neg more, if_neg more]
        rfl

theorem write_data_logged_forget (fuel i : Nat) (fh : FileHandle) (data : Buf) (len : Nat)
    (clusterBuf : Buf) (s : Fat32Filesystem) :
    forget (writeDataLogged fuel i fh data len clusterBuf s) =
      writeData fuel i fh data len clusterBuf s := by
  apply forget_next (write_loop_logged_forget data len fuel 0 fh.startCluster 0 clusterBuf [])
  rintro (_ | ⟨cluster, clusterBuf⟩) log t
  · rfl
  · apply forget_bind
    intro _ t
    apply forget_bind
    intro _ t
    exact forget_pure _ log t

theorem write_logged_forget (fuel handle : Nat) (data : Buf) (len : Nat) (s : Fat32Filesystem) :
    forget (writeLogged fuel handle data len s) = write fuel handle data len s := by
  unfold writeLogged write
  split
  · rfl
  · cases s.handles[handle - 1]? with
    | none => rfl
    | some fh =>
        dsimp only
        split
        · apply forget_bind
          rintro (_ | clusterBuf) t
          · rfl
          · dsimp only
            split
            · apply forget_bind
              intro _ t
              apply forget_bind
              exact fun _ t => forget_pure _ [] t
            · split
              · apply forget_bind
                intro newCluster t
                split
                · rfl
                · apply forget_bind
                  exact fun _ t => write_data_logged_forget ..
              · exact write_data_logged_forget ..
        · rfl

end Forgetting

end CassiOS.Fat32.DataReads

import CassiOS.Kernel.System
import CassiOS.Support.Turns

/-!
# The process table while PIDs have not wrapped

As long as `nextPid` has not come round to 0, the PID of every process is the identity of
its process object, the kernel task is the head of the list, and `get` finds exactly the
live processes.
-/

namespace CassiOS.Kernel.ProcessTable

open CassiOS.Support.Words
open CassiOS.Kernel.State
open CassiOS.Kernel.ProcessManager
open CassiOS.Kernel.Scheduler
open CassiOS.Kernel.System

set_option autoImplicit false

structure Registered (k : KernelState) : Prop where
  head : ∃ rest, k.processes = kernelTask :: rest
  nodup : k.processes.Nodup
  pid : ∀ r ∈ k.processes, (k.table r).pid = r
  live : ∀ r ∈ k.processes, (k.table r).state ≠ .empty
  current : k.current ∈ k.processes
  created : ∀ r ∈ k.processes, r < k.nextRef
  bound : k.nextRef ≤ 4294967296
  nextPid : k.nextPid = k.nextRef % 4294967296

namespace Registered

variable {k : KernelState} (registered : Registered k)
include registered

theorem kernel_task_mem : kernelTask ∈ k.processes := by
  obtain ⟨rest, shape⟩ := registered.head
  rw [shape]
  exact List.mem_cons_self

theorem get_head_eq : getHead k = kernelTask := by
  obtain ⟨rest, shape⟩ := registered.head
  rw [getHead, shape]
  rfl

theorem get_eq_some {pid : Nat} {r : Ref} :
    get k pid = some r ↔ r = pid ∧ pid ∈ k.processes := by
  constructor
  · intro found
    have member := List.mem_of_find?_eq_some found
    have selected := List.find?_some found
    simp only [decide_eq_true_eq] at selected
    have same : r = pid := (registered.pid r member).symm.trans selected.1
    exact ⟨same, same ▸ member⟩
  · rintro ⟨rfl, member⟩
    cases found : get k r with
    | none =>
        have missed := List.find?_eq_none.mp found r member
        simp [registered.pid r member, registered.live r member] at missed
    | some q =>
        have other := List.mem_of_find?_eq_some found
        have selected := List.find?_some found
        simp only [decide_eq_true_eq] at selected
        rw [registered.pid q other] at selected
        rw [selected.1]

theorem get_of_mem {pid : Nat} (member : pid ∈ k.processes) : get k pid = some pid :=
  registered.get_eq_some.mpr ⟨rfl, member⟩

theorem get_eq_none {pid : Nat} : get k pid = none ↔ pid ∉ k.processes := by
  constructor
  · intro missing member
    rw [registered.get_of_mem member] at missing
    cases missing
  · intro absent
    cases found : get k pid with
    | none => rfl
    | some r => exact absurd (registered.get_eq_some.mp found).2 absent

theorem more_than_one (user : k.current ≠ kernelTask) : 1 < getProcessCount k := by
  obtain ⟨rest, shape⟩ := registered.head
  have member := registered.current
  rw [shape] at member
  cases rest with
  | nil => exact absurd (List.mem_singleton.mp member) user
  | cons _ rest =>
      rw [getProcessCount, shape]
      simp

theorem modify {r : Ref} {f : Process → Process}
    (pid : (f (k.table r)).pid = (k.table r).pid)
    (live : (f (k.table r)).state ≠ .empty) : Registered (k.modify r f) where
  head := registered.head
  nodup := registered.nodup
  pid := fun q member => by
    rw [k.modify_keeps r q f Process.pid pid]
    exact registered.pid q member
  live := fun q member => by
    by_cases same : q = r
    · subst same
      rw [k.table_modify_self]
      exact live
    · rw [k.table_modify_of_ne r q f same]
      exact registered.live q member
  current := registered.current
  created := registered.created
  bound := registered.bound
  nextPid := registered.nextPid

end Registered

/-! ## The search for the next ready process -/

theorem mem_candidates {processes : List Ref} (nodup : processes.Nodup) {current : Ref}
    (member : current ∈ processes) (r : Ref) :
    r ∈ candidates processes current ↔ r ∈ processes ∧ r ≠ current :=
  Support.Turns.mem_behind nodup member

/-- A ready process other than `current` is found when there is one. -/
theorem find_next_ready_spec {k : KernelState} (nodup : k.processes.Nodup) {current r : Ref}
    (member : current ∈ k.processes) (other : r ∈ k.processes) (apart : r ≠ current)
    (ready : (k.table r).state = .ready) :
    findNextReady k current ∈ k.processes ∧ findNextReady k current ≠ current ∧
      (k.table (findNextReady k current)).state = .ready := by
  cases found : (candidates k.processes current).find?
      fun r => (k.table r).state = .ready with
  | none =>
      have missed := List.find?_eq_none.mp found r
        ((mem_candidates nodup member r).mpr ⟨other, apart⟩)
      simp [ready] at missed
  | some next =>
      have next_eq : findNextReady k current = next := by
        rw [findNextReady, found]
        rfl
      have inside := (mem_candidates nodup member next).mp (List.mem_of_find?_eq_some found)
      have selected := List.find?_some found
      simp only [decide_eq_true_eq] at selected
      rw [next_eq]
      exact ⟨inside.1, inside.2, selected⟩

/-- Otherwise the search ends at `current`. -/
theorem find_next_ready_cases {k : KernelState} (nodup : k.processes.Nodup) {current : Ref}
    (member : current ∈ k.processes) :
    findNextReady k current = current ∨
      (findNextReady k current ∈ k.processes ∧ findNextReady k current ≠ current ∧
        (k.table (findNextReady k current)).state = .ready) := by
  by_cases some : ∃ r ∈ k.processes, r ≠ current ∧ (k.table r).state = .ready
  · obtain ⟨r, other, apart, ready⟩ := some
    exact Or.inr (find_next_ready_spec nodup member other apart ready)
  · left
    have missing : (candidates k.processes current).find?
        (fun r => (k.table r).state = .ready) = none := by
      refine List.find?_eq_none.mpr fun r inside => ?_
      have known := (mem_candidates nodup member r).mp inside
      intro ready
      simp only [decide_eq_true_eq] at ready
      exact some ⟨r, known.1, known.2, ready⟩
    rw [findNextReady, missing]
    rfl

end CassiOS.Kernel.ProcessTable

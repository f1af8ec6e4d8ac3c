import CassiOS.Kernel.ProcessManager

/-!
# Scheduler

`core/scheduler.cpp`. Each function returns the kernel state and the stack pointer the
interrupt stub resumes with.
-/

namespace CassiOS.Kernel.Scheduler

open CassiOS.Support.Words
open CassiOS.Kernel.State
open CassiOS.Kernel.ProcessManager

set_option autoImplicit false

def setRunning (p : Process) : Process := { p with state := .running }

def switchTo (k : KernelState) (next current : Ref) (currentEsp : Nat) : KernelState × Nat :=
  let k := k.modify current fun p => { p with esp := currentEsp }
  let k := k.modify next setRunning
  let k :=
    if (k.table next).pageDirectory ≠ (k.table current).pageDirectory ∧
        (k.table next).pageDirectory ≠ 0 then
      { k with cr3 := (k.table next).pageDirectory }
    else k
  let k := { k with current := next }
  (k, (k.table next).esp)

/-- The order in which the processes other than `current` are visited: those behind it in
the list, then those from the head on. -/
def candidates (processes : List Ref) (current : Ref) : List Ref :=
  (processes.dropWhile (· ≠ current)).tail ++ processes.takeWhile (· ≠ current)

/-- `current` itself when no other process is ready. -/
def findNextReady (k : KernelState) (current : Ref) : Ref :=
  ((candidates k.processes current).find? fun r => (k.table r).state = .ready).getD current

/-- Only a running process is demoted; a blocked one keeps its state. -/
def demote (p : Process) : Process :=
  if p.state = .running then { p with state := .ready } else p

def schedule (k : KernelState) (currentEsp : Nat) : KernelState × Nat :=
  if getProcessCount k ≤ 1 then (k, currentEsp)
  else
    let k := { k with tickCount := u32 (k.tickCount + 1) }
    if k.tickCount < k.timeSlice then (k, currentEsp)
    else
      let k := { k with tickCount := 0 }
      let current := k.current
      let k := k.modify current demote
      switchTo k (findNextReady k current) current currentEsp

def reschedule (k : KernelState) (currentEsp : Nat) : KernelState × Nat :=
  if getProcessCount k ≤ 1 then (k, currentEsp)
  else
    let current := k.current
    let next := findNextReady k current
    switchTo { k with tickCount := 0 } next current currentEsp

/-- The process to run after `dying`: the kernel task when no other one is ready. -/
def successor (k : KernelState) (dying : Ref) : Ref :=
  if findNextReady k dying = dying then getHead k else findNextReady k dying

def exitCurrent (k : KernelState) : KernelState × Nat :=
  let dying := k.current
  let next := successor k dying
  let k := destroy k (k.table dying).pid
  let k := k.modify next setRunning
  let k := if (k.table next).pageDirectory ≠ 0 then
      { k with cr3 := (k.table next).pageDirectory }
    else k
  let k := { k with current := next, tickCount := 0 }
  (k, (k.table next).esp)

end CassiOS.Kernel.Scheduler

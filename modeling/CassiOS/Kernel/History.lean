import CassiOS.Kernel.State

/-!
# Reading the message log

What a pair of processes has exchanged, how far the current send of a process has got,
and which replies a process still owes, as functions of the log. The log has the newest
event first; message sequences are given oldest first.
-/

namespace CassiOS.Kernel.History

open CassiOS.Kernel.State

set_option autoImplicit false

/-- The message an event adds to what `sender` sent or notified to `target`. -/
def outgoingMessage (sender target : Nat) : Event → List Message
  | .sent s t msg => if s = sender ∧ t = target then [msg] else []
  | .notified s t msg => if s = sender ∧ t = target then [msg] else []
  | _ => []

def sentTo (sender target : Nat) : List Event → List Message
  | [] => []
  | event :: log => sentTo sender target log ++ outgoingMessage sender target event

/-- The message an event adds to what `receiver` got from `sender`. -/
def incomingMessage (receiver sender : Nat) : Event → List Message
  | .received r s msg => if r = receiver ∧ s = sender then [msg] else []
  | .heard r s msg => if r = receiver ∧ s = sender then [msg] else []
  | _ => []

def receivedFrom (receiver sender : Nat) : List Event → List Message
  | [] => []
  | event :: log => receivedFrom receiver sender log ++ incomingMessage receiver sender event

inductive Stage
  | queued
  | received
  | answered
  deriving DecidableEq

/-- The addressee of the latest send of `sender` and how far that send has got. -/
def currentSend (sender : Nat) : List Event → Option (Nat × Stage)
  | [] => none
  | .sent s t _ :: log => if s = sender then some (t, .queued) else currentSend sender log
  | .received r s _ :: log =>
      if s = sender ∧ currentSend sender log = some (r, .queued) then some (r, .received)
      else currentSend sender log
  | .replied _ t :: log =>
      if t = sender then (currentSend sender log).map fun send => (send.1, .answered)
      else currentSend sender log
  | _ :: log => currentSend sender log

/-- The PIDs `receive` has returned to `receiver` and that it has not replied to. -/
def owed (receiver : Nat) : List Event → List Nat
  | [] => []
  | .received r s _ :: log => if r = receiver then s :: owed receiver log else owed receiver log
  | .replied r t :: log =>
      if r = receiver then (owed receiver log).erase t else owed receiver log
  | _ :: log => owed receiver log

section Events

variable (log : List Event) (a b sender receiver : Nat) (msg : Message)

@[simp] theorem sent_to_sent :
    sentTo sender receiver (.sent a b msg :: log) =
      sentTo sender receiver log ++ if a = sender ∧ b = receiver then [msg] else [] := rfl

@[simp] theorem sent_to_notified :
    sentTo sender receiver (.notified a b msg :: log) =
      sentTo sender receiver log ++ if a = sender ∧ b = receiver then [msg] else [] := rfl

@[simp] theorem sent_to_received :
    sentTo sender receiver (.received a b msg :: log) = sentTo sender receiver log :=
  List.append_nil _

@[simp] theorem sent_to_heard :
    sentTo sender receiver (.heard a b msg :: log) = sentTo sender receiver log :=
  List.append_nil _

@[simp] theorem sent_to_replied :
    sentTo sender receiver (.replied a b :: log) = sentTo sender receiver log :=
  List.append_nil _

@[simp] theorem received_from_received :
    receivedFrom receiver sender (.received a b msg :: log) =
      receivedFrom receiver sender log ++
        if a = receiver ∧ b = sender then [msg] else [] := rfl

@[simp] theorem received_from_heard :
    receivedFrom receiver sender (.heard a b msg :: log) =
      receivedFrom receiver sender log ++
        if a = receiver ∧ b = sender then [msg] else [] := rfl

@[simp] theorem received_from_sent :
    receivedFrom receiver sender (.sent a b msg :: log) = receivedFrom receiver sender log :=
  List.append_nil _

@[simp] theorem received_from_notified :
    receivedFrom receiver sender (.notified a b msg :: log) =
      receivedFrom receiver sender log := List.append_nil _

@[simp] theorem received_from_replied :
    receivedFrom receiver sender (.replied a b :: log) = receivedFrom receiver sender log :=
  List.append_nil _

end Events

end CassiOS.Kernel.History

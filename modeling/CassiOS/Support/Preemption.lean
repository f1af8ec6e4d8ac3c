import Mathlib.Logic.Function.Basic
import Mathlib.Tactic.Common

/-!
# Preemptible handlers on one processor

A handler is a sequence of atomic steps. A `plain` step is right in every settled state
that meets its demand; a `relying` step is right only as long as nothing but a quiet
interrupt (`rely`) has happened since the step before it. `Safe` and `Rests` are the proof
obligations of one handler; `Secure` collects them for all threads, and the lemmas at the
end say which changes of the configuration keep it.
-/

namespace CassiOS.Support.Preemption

set_option autoImplicit false

universe u

/-- What a thread still has to do; `finish` when it is outside its handler. -/
inductive Handler (State : Type u) : Type u
  | finish
  | plain (demand : State → Bool) (act : State → State) (rest : State → Handler State)
  | relying (act : State → State) (rest : State → Handler State)

variable {State : Type u} {Thread : Type*}

namespace Handler

/-- The state after the handler, when nothing happens in between. -/
def run : Handler State → State → State
  | .finish, s => s
  | .plain _ act rest, s => (rest s).run (act s)
  | .relying act rest, s => (rest s).run (act s)

def Relies : Handler State → Prop
  | .relying _ _ => True
  | _ => False

instance (handler : Handler State) : Decidable handler.Relies :=
  match handler with
  | .relying _ _ => isTrue trivial
  | .plain _ _ _ => isFalse id
  | .finish => isFalse id

def Demands : Handler State → State → Prop
  | .plain demand _ _, s => demand s = true
  | _, _ => True

instance (handler : Handler State) (s : State) : Decidable (handler.Demands s) :=
  match handler with
  | .plain demand _ _ => inferInstanceAs (Decidable (demand s = true))
  | .relying _ _ => isTrue trivial
  | .finish => isTrue trivial

end Handler

/-- The shared state and what each thread still has to do. -/
structure Config (State : Type u) (Thread : Type*) where
  state : State
  handlers : Thread → Handler State

section Steps

variable [DecidableEq Thread] (current : State → Thread)

def Config.active (c : Config State Thread) : Handler State := c.handlers (current c.state)

def Config.advance (c : Config State Thread) : Option (Config State Thread) :=
  match c.active current with
  | .finish => none
  | .plain _ act rest =>
      some ⟨act c.state, Function.update c.handlers (current c.state) (rest c.state)⟩
  | .relying act rest =>
      some ⟨act c.state, Function.update c.handlers (current c.state) (rest c.state)⟩

def Config.enter (c : Config State Thread) (handler : Handler State) : Config State Thread :=
  ⟨c.state, Function.update c.handlers (current c.state) handler⟩

end Steps

section Obligations

variable (current : State → Thread) (settled guaranteed : State → Prop)
  (rely : State → State → Prop)

/-- A thread keeps the processor until its last step. -/
def Stays (me : Thread) (handler : Handler State) (s : State) : Prop :=
  current s = me ∨ handler = .finish

/-- The handler, about to go on in state `s`, does no harm from there. -/
def Safe (me : Thread) : Handler State → State → Prop
  | .finish, s => settled s
  | .plain demand act rest, s => settled s ∧
      ∀ s', settled s' → current s' = me → demand s' = true →
        Safe me (rest s') (act s') ∧ Stays current me (rest s') (act s')
  | .relying act rest, s => guaranteed s ∧
      ∀ s', rely s s' → Safe me (rest s') (act s') ∧ Stays current me (rest s') (act s')

def Rests (me : Thread) : Handler State → Prop
  | .finish => True
  | .plain demand act rest => ∀ s', settled s' → current s' = me → demand s' = true →
      Safe current settled guaranteed rely me (rest s') (act s') ∧
        Stays current me (rest s') (act s')
  | .relying _ _ => False

/-- The active handler is safe where it stands, and every other one may go on later. -/
structure Secure (c : Config State Thread) : Prop where
  active : Safe current settled guaranteed rely (current c.state) (c.active current) c.state
  resting : ∀ t, t ≠ current c.state → Rests current settled guaranteed rely t (c.handlers t)

variable {current settled guaranteed rely}

theorem safe_of_rests {me : Thread} {handler : Handler State} {s : State} (now : settled s)
    (rests : Rests current settled guaranteed rely me handler) :
    Safe current settled guaranteed rely me handler s := by
  cases handler with
  | finish => exact now
  | plain demand act rest => exact ⟨now, rests⟩
  | relying act rest => exact rests.elim

theorem settled_of_safe {me : Thread} {handler : Handler State} {s : State}
    (safe : Safe current settled guaranteed rely me handler s) (free : ¬ handler.Relies) :
    settled s ∧ Rests current settled guaranteed rely me handler := by
  cases handler with
  | finish => exact ⟨safe, trivial⟩
  | plain demand act rest => exact safe
  | relying act rest => exact absurd trivial free

theorem Secure.holds {c : Config State Thread}
    (secure : Secure current settled guaranteed rely c)
    (of_settled : ∀ s, settled s → guaranteed s) : guaranteed c.state := by
  have safe := secure.active
  cases shape : c.active current with
  | finish =>
      rw [shape] at safe
      exact of_settled _ safe
  | plain demand act rest =>
      rw [shape] at safe
      exact of_settled _ safe.1
  | relying act rest =>
      rw [shape] at safe
      exact safe.1

theorem Secure.interrupted {c : Config State Thread} {s : State}
    (secure : Secure current settled guaranteed rely c) (quiet : rely c.state s)
    (same : current s = current c.state)
    (trans : ∀ {a b d}, rely a b → rely b d → rely a d)
    (keeps_settled : settled c.state → settled s)
    (keeps_guaranteed : guaranteed c.state → guaranteed s) :
    Secure current settled guaranteed rely { c with state := s } := by
  refine ⟨?_, fun t other => secure.resting t (same ▸ other)⟩
  have safe := secure.active
  have shape : Config.active current { c with state := s } = c.active current :=
    congrArg c.handlers same
  change Safe current settled guaranteed rely (current s) _ s
  rw [shape, same]
  cases handler : c.active current with
  | finish =>
      rw [handler] at safe
      exact keeps_settled safe
  | plain demand act rest =>
      rw [handler] at safe
      exact ⟨keeps_settled safe.1, safe.2⟩
  | relying act rest =>
      rw [handler] at safe
      exact ⟨keeps_guaranteed safe.1, fun s' later => safe.2 s' (trans quiet later)⟩

/-- The processor may go to another thread unless the active handler relies on its last
step. -/
theorem Secure.preempted {c : Config State Thread} {s : State}
    (secure : Secure current settled guaranteed rely c)
    (free : ¬ (c.active current).Relies) (settles : settled c.state → settled s) :
    Secure current settled guaranteed rely { c with state := s } := by
  obtain ⟨now, rests⟩ := settled_of_safe secure.active free
  have all (t : Thread) : Rests current settled guaranteed rely t (c.handlers t) := by
    by_cases active : t = current c.state
    · subst active
      exact rests
    · exact secure.resting t active
  exact ⟨safe_of_rests (settles now) (all _), fun t _ => all t⟩

section Advancing

variable [DecidableEq Thread]

/-- A thread outside its handler starts one that may go on in any settled state. -/
theorem Secure.entered {c : Config State Thread} {handler : Handler State}
    (secure : Secure current settled guaranteed rely c) (idle : c.active current = .finish)
    (rests : Rests current settled guaranteed rely (current c.state) handler) :
    Secure current settled guaranteed rely (c.enter current handler) := by
  have now : settled c.state := by
    have safe := secure.active
    rw [idle] at safe
    exact safe
  refine ⟨?_, fun t other => ?_⟩
  · have shape : (c.enter current handler).active current = handler :=
      Function.update_self _ _ _
    rw [shape]
    exact safe_of_rests now rests
  · have shape : (c.enter current handler).handlers t = c.handlers t :=
      Function.update_of_ne other _ _
    rw [shape]
    exact secure.resting t other

theorem secure_moved {c : Config State Thread} {handler : Handler State} {s : State}
    (secure : Secure current settled guaranteed rely c)
    (safe : Safe current settled guaranteed rely (current c.state) handler s)
    (stays : Stays current (current c.state) handler s) :
    Secure current settled guaranteed rely
      ⟨s, Function.update c.handlers (current c.state) handler⟩ := by
  by_cases same : current s = current c.state
  · refine ⟨?_, fun t other => ?_⟩
    · change Safe current settled guaranteed rely (current s)
        (Function.update c.handlers (current c.state) handler (current s)) s
      rw [same, Function.update_self]
      exact safe
    · change Rests current settled guaranteed rely t
        (Function.update c.handlers (current c.state) handler t)
      rw [Function.update_of_ne (same ▸ other)]
      exact secure.resting t (same ▸ other)
  · -- the last step gave the processor to another thread
    obtain rfl := stays.resolve_left same
    have all (t : Thread) : Rests current settled guaranteed rely t
        (Function.update c.handlers (current c.state) .finish t) := by
      by_cases active : t = current c.state
      · subst active
        rw [Function.update_self]
        exact trivial
      · rw [Function.update_of_ne active]
        exact secure.resting t active
    exact ⟨safe_of_rests (show settled s from safe) (all _), fun t _ => all t⟩

theorem Secure.advanced {c c' : Config State Thread}
    (secure : Secure current settled guaranteed rely c) (refl : ∀ s, rely s s)
    (demands : (c.active current).Demands c.state) (next : c.advance current = some c') :
    Secure current settled guaranteed rely c' := by
  have safe := secure.active
  unfold Config.advance at next
  cases handler : c.active current with
  | finish =>
      rw [handler] at next
      cases next
  | plain demand act rest =>
      rw [handler] at next safe demands
      obtain rfl := Option.some.inj next
      obtain ⟨onward, stays⟩ := safe.2 c.state safe.1 rfl demands
      exact secure_moved secure onward stays
  | relying act rest =>
      rw [handler] at next safe
      obtain rfl := Option.some.inj next
      obtain ⟨onward, stays⟩ := safe.2 c.state (refl _)
      exact secure_moved secure onward stays

end Advancing

end Obligations

end CassiOS.Support.Preemption

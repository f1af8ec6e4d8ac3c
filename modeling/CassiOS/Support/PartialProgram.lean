import Mathlib.Control.Monad.Basic
import Mathlib.Tactic.Common

/-!
# Partial state programs and the abstract states they act on

A program is a state transformer that may fail to return (`none`). `Runs R f v a w`
reads a program through an abstraction relation `R` between its concrete states and
abstract ones: from every concrete state standing for `v` the program returns `a` in
a state standing for `w`. `Ensures` and `Achieves` are partial and total correctness with a
postcondition on what is returned and on the abstract state. `Settles` says that a program only
looks at its state, and at no more of it than the abstract state tells. `Below` orders programs
by definedness, which is how a result obtained with some fuel is carried over to more fuel.
-/

namespace CassiOS.Support.PartialProgram

set_option autoImplicit false

universe u

variable {State : Type u} {Abstract : Type*}

abbrev Program (State : Type u) (Value : Type u) : Type u := StateT State Option Value

section Equations

variable {α β : Type u}

theorem bind_of_some {x : Program State α} {f : α → Program State β}
    {s s' : State} {a : α} (first : x s = some (a, s')) :
    (x >>= f) s = f a s' := by
  change (x s).bind (fun p => f p.1 p.2) = f a s'
  rw [first]
  rfl

theorem bind_eq_some {x : Program State α} {f : α → Program State β}
    {s : State} {r : β × State} :
    (x >>= f) s = some r ↔ ∃ a s', x s = some (a, s') ∧ f a s' = some r := by
  change (x s).bind (fun p => f p.1 p.2) = some r ↔ _
  rw [Option.bind_eq_some_iff]
  constructor
  · rintro ⟨⟨a, s'⟩, first, rest⟩
    exact ⟨a, s', first, rest⟩
  · rintro ⟨a, s', first, rest⟩
    exact ⟨(a, s'), first, rest⟩

end Equations

section Logging

variable {α β Log : Type u}

/-- The run of a program that keeps a log, without the log. -/
def forget (run : Option ((α × Log) × State)) : Option (α × State) :=
  run.map fun r => (r.1.1, r.2)

theorem forget_bind {x : Program State β} {f : β → Program State (α × Log)}
    {g : β → Program State α} (each : ∀ b s, forget (f b s) = g b s) (s : State) :
    forget ((x >>= f) s) = (x >>= g) s := by
  change forget ((x s).bind fun p => f p.1 p.2) = (x s).bind fun p => g p.1 p.2
  cases x s with
  | none => rfl
  | some p => exact each p.1 p.2

theorem forget_pure (x : Program State α) (log : Log) (s : State) :
    forget ((x >>= fun a => pure (a, log)) s) = x s := by
  change forget ((x s).bind fun p => some ((p.1, log), p.2)) = x s
  cases x s with
  | none => rfl
  | some p => rfl

theorem forget_next {x : Program State (β × Log)} {y : Program State β}
    {f : β × Log → Program State (α × Log)} {g : β → Program State α}
    (first : ∀ s, forget (x s) = y s) (each : ∀ b log s, forget (f (b, log) s) = g b s)
    (s : State) : forget ((x >>= f) s) = (y >>= g) s := by
  change forget ((x s).bind fun p => f p.1 p.2) = (y s).bind fun p => g p.1 p.2
  rw [← first s]
  cases x s with
  | none => rfl
  | some p => exact each p.1.1 p.1.2 p.2

end Logging

section Refinement

variable (R : State → Abstract → Prop) {α β : Type u}

/-- Every concrete state that stands for `v` returns `a` and then stands for `w`. -/
def Runs (f : Program State α) (v : Abstract) (a : α) (w : Abstract) : Prop :=
  ∀ s, R s v → ∃ s', f s = some (a, s') ∧ R s' w

variable {R}

theorem runs_pure (a : α) (v : Abstract) : Runs R (pure a) v a v :=
  fun s related => ⟨s, rfl, related⟩

theorem runs_bind {x : Program State α} {f : α → Program State β}
    {u v w : Abstract} {a : α} {b : β}
    (first : Runs R x u a v) (rest : Runs R (f a) v b w) :
    Runs R (x >>= f) u b w := by
  intro s related
  obtain ⟨s₁, firstRun, related₁⟩ := first s related
  obtain ⟨s₂, restRun, related₂⟩ := rest s₁ related₁
  exact ⟨s₂, by rw [bind_of_some firstRun, restRun], related₂⟩

/-- A program that already returned must have returned what its specification says. -/
theorem runs_result {f : Program State α} {v w : Abstract} {a b : α} {s s' : State}
    (spec : Runs R f v a w) (related : R s v) (run : f s = some (b, s')) :
    b = a ∧ R s' w := by
  obtain ⟨s₁, run₁, related₁⟩ := spec s related
  rw [run] at run₁
  cases run₁
  exact ⟨rfl, related₁⟩

end Refinement

section Correctness

variable (R : State → Abstract → Prop) {α β : Type u}

/-- Whenever the program returns from a state that stands for `v`, `Q` holds. -/
def Ensures (f : Program State α) (v : Abstract) (Q : α → Abstract → Prop) : Prop :=
  ∀ s, R s v → ∀ a s', f s = some (a, s') → ∃ w, R s' w ∧ Q a w

/-- The program returns from every state that stands for `v`, and `Q` holds. -/
def Achieves (f : Program State α) (v : Abstract) (Q : α → Abstract → Prop) : Prop :=
  ∀ s, R s v → ∃ a s' w, f s = some (a, s') ∧ R s' w ∧ Q a w

variable {R} {f : Program State α} {u v w : Abstract} {P Q : α → Abstract → Prop}

theorem Achieves.ensures (total : Achieves R f v Q) : Ensures R f v Q := by
  intro s related a s' run
  obtain ⟨b, t, w, run', related', holds⟩ := total s related
  rw [run] at run'
  cases run'
  exact ⟨w, related', holds⟩

theorem Runs.achieves {a : α} (spec : Runs R f v a w) (holds : Q a w) : Achieves R f v Q := by
  intro s related
  obtain ⟨s', run, related'⟩ := spec s related
  exact ⟨a, s', w, run, related', holds⟩

theorem Achieves.runs {a : α} (total : Achieves R f v fun b u => b = a ∧ u = w) :
    Runs R f v a w := by
  intro s related
  obtain ⟨b, s', u, run, related', rfl, rfl⟩ := total s related
  exact ⟨s', run, related'⟩

theorem Runs.ensures {a : α} (spec : Runs R f v a w) (holds : Q a w) : Ensures R f v Q :=
  (spec.achieves holds).ensures

theorem Ensures.mono (spec : Ensures R f v P) (weaker : ∀ a w, P a w → Q a w) :
    Ensures R f v Q := by
  intro s related a s' run
  obtain ⟨w, related', holds⟩ := spec s related a s' run
  exact ⟨w, related', weaker a w holds⟩

/-- Two facts about one run, where a state stands for one abstract state only. -/
theorem Ensures.and (unique : ∀ s v w, R s v → R s w → v = w) (left : Ensures R f v P)
    (right : Ensures R f v Q) : Ensures R f v fun a w => P a w ∧ Q a w := by
  intro s related a s' run
  obtain ⟨w, related', holds⟩ := left s related a s' run
  obtain ⟨w', related'', holds'⟩ := right s related a s' run
  obtain rfl := unique s' w w' related' related''
  exact ⟨w, related', holds, holds'⟩

theorem Achieves.mono (spec : Achieves R f v P) (weaker : ∀ a w, P a w → Q a w) :
    Achieves R f v Q := by
  intro s related
  obtain ⟨a, s', w, run, related', holds⟩ := spec s related
  exact ⟨a, s', w, run, related', weaker a w holds⟩

theorem ensures_pure {a : α} (holds : Q a v) : Ensures R (pure a) v Q :=
  (runs_pure a v).ensures holds

theorem achieves_pure {a : α} (holds : Q a v) : Achieves R (pure a) v Q :=
  (runs_pure a v).achieves holds

theorem ensures_bind {g : α → Program State β} {T : β → Abstract → Prop}
    (first : Ensures R f v P) (rest : ∀ a w, P a w → Ensures R (g a) w T) :
    Ensures R (f >>= g) v T := by
  intro s related b t run
  obtain ⟨a, s', firstRun, restRun⟩ := bind_eq_some.1 run
  obtain ⟨w, related', holds⟩ := first s related a s' firstRun
  exact rest a w holds s' related' b t restRun

theorem achieves_bind {g : α → Program State β} {T : β → Abstract → Prop}
    (first : Achieves R f v P) (rest : ∀ a w, P a w → Achieves R (g a) w T) :
    Achieves R (f >>= g) v T := by
  intro s related
  obtain ⟨a, s', w, firstRun, related', holds⟩ := first s related
  obtain ⟨b, t, x, restRun, related'', holds'⟩ := rest a w holds s' related'
  exact ⟨b, t, x, (bind_of_some firstRun).trans restRun, related'', holds'⟩

theorem ensures_bind_runs {g : α → Program State β} {T : β → Abstract → Prop} {a : α}
    (first : Runs R f v a w) (rest : Ensures R (g a) w T) : Ensures R (f >>= g) v T := by
  apply ensures_bind (P := fun b u => b = a ∧ u = w) (first.ensures ⟨rfl, rfl⟩)
  rintro _ _ ⟨rfl, rfl⟩
  exact rest

theorem achieves_bind_runs {g : α → Program State β} {T : β → Abstract → Prop} {a : α}
    (first : Runs R f v a w) (rest : Achieves R (g a) w T) : Achieves R (f >>= g) v T := by
  apply achieves_bind (P := fun b u => b = a ∧ u = w) (first.achieves ⟨rfl, rfl⟩)
  rintro _ _ ⟨rfl, rfl⟩
  exact rest

/-- What holds of a program with a log holds of the program without it. -/
theorem ensures_forget {Log : Type u} {x : Program State (α × Log)} {y : Program State α}
    {Q : α × Log → Abstract → Prop} (same : ∀ s, forget (x s) = y s) (spec : Ensures R x v Q) :
    Ensures R y v fun a w => ∃ log, Q (a, log) w := by
  intro s related a s' run
  rw [← same s] at run
  obtain ⟨⟨⟨b, log⟩, t⟩, logged, result⟩ := Option.map_eq_some_iff.1 run
  obtain ⟨rfl, rfl⟩ := Prod.mk.inj result
  obtain ⟨w, related', holds⟩ := spec s related _ _ logged
  exact ⟨w, related', log, holds⟩

/-- A program without fuel returns nothing. -/
theorem ensures_none : Ensures R (fun _ => none : Program State α) v Q := by
  intro _ _ _ _ run
  cases run

/-- A program that looks at its state before it starts. -/
theorem ensures_read {f : State → Program State α} (spec : ∀ s, R s v → Ensures R (f s) v Q) :
    Ensures R (fun s => f s s) v Q := fun s related => spec s related s related

theorem achieves_read {f : State → Program State α} (spec : ∀ s, R s v → Achieves R (f s) v Q) :
    Achieves R (fun s => f s s) v Q := fun s related => spec s related s related

theorem achieves_get {State : Type u} {R : State → Abstract → Prop} {v : Abstract} {β : Type u}
    {Q : β → Abstract → Prop} {g : State → Program State β}
    (spec : ∀ s, R s v → Achieves R (g s) v Q) : Achieves R (get >>= g) v Q :=
  fun s related => spec s related s related

theorem ensures_get {State : Type u} {R : State → Abstract → Prop} {v : Abstract} {β : Type u}
    {Q : β → Abstract → Prop} {g : State → Program State β}
    (spec : ∀ s, R s v → Ensures R (g s) v Q) : Ensures R (get >>= g) v Q :=
  fun s related => spec s related s related

/-- The program returns from `s`. -/
def Halts (f : Program State α) (s : State) : Prop := ∃ r, f s = some r

theorem Achieves.halts {s : State} (total : Achieves R f v Q) (related : R s v) : Halts f s := by
  obtain ⟨a, s', _, run, _⟩ := total s related
  exact ⟨(a, s'), run⟩

theorem halts_bind {g : α → Program State β} {s : State} (first : Achieves R f v Q)
    (related : R s v) (rest : ∀ a s' w, R s' w → Q a w → Halts (g a) s') :
    Halts (f >>= g) s := by
  obtain ⟨a, s', w, run, related', holds⟩ := first s related
  obtain ⟨r, run'⟩ := rest a s' w related' holds
  exact ⟨r, (bind_of_some run).trans run'⟩

end Correctness

section Settled

variable {sure : Prop} {R S : State → Abstract → Prop} {α β : Type u} {v : Abstract}
  {told : Set α} {told' : Set β}

/-- The program keeps the abstract state, and what it returns from one state that stands for `v`
under `R` it returns from all that stand for `v` under `S`. Where `R` is not `sure`, the answers
in `told` are an exception: they tell of a failure. -/
def Settles (sure : Prop) (R S : State → Abstract → Prop) (told : Set α) (f : Program State α)
    (v : Abstract) : Prop :=
  Ensures R f v fun a w => w = v ∧ (Runs S f v a v ∨ ¬ sure ∧ a ∈ told)

theorem settles_pure (a : α) : Settles sure R S told (pure a) v :=
  ensures_pure ⟨rfl, .inl (runs_pure a v)⟩

theorem settles_none : Settles sure R S told (fun _ => none : Program State α) v := ensures_none

/-- What goes on from an answer that tells of a failure has to tell of it too. -/
theorem settles_bind {x : Program State α} {f : α → Program State β}
    (first : Settles sure R S told x v) (rest : ∀ a, Settles sure R S told' (f a) v)
    (onward : ∀ a ∈ told, Ensures R (f a) v fun b _ => b ∈ told') :
    Settles sure R S told' (x >>= f) v := by
  intro s related b t run
  obtain ⟨a, s₁, first', rest'⟩ := bind_eq_some.1 run
  obtain ⟨w, related₁, same, outcome⟩ := first s related a s₁ first'
  subst same
  obtain ⟨u, related', same, outcome'⟩ := rest a s₁ related₁ b t rest'
  subst same
  refine ⟨u, related', rfl, ?_⟩
  rcases outcome with runs | ⟨unsure, tells⟩
  · exact outcome'.imp_left fun runs' => runs_bind runs runs'
  · obtain ⟨_, _, tells'⟩ := onward a tells s₁ related₁ b t rest'
    exact .inr ⟨unsure, tells'⟩

/-- A program that always returns, and what it returns is `a` or tells of a failure. -/
theorem settles_of_achieves {f : Program State α} (a : α)
    (total : Achieves R f v fun b w => w = v ∧ (b = a ∨ ¬ sure ∧ b ∈ told))
    (runs : Runs S f v a v) : Settles sure R S told f v := by
  apply total.ensures.mono
  rintro b w ⟨same, rfl | tells⟩
  · exact ⟨same, .inl runs⟩
  · exact ⟨same, .inr tells⟩

/-- A program that does on the states of `v` what a settled one does. -/
theorem settles_congr {f g : Program State α} (same : ∀ s, R s v ∨ S s v → f s = g s)
    (settles : Settles sure R S told g v) : Settles sure R S told f v := by
  intro s related a s' run
  rw [same s (.inl related)] at run
  obtain ⟨w, related', kept, outcome⟩ := settles s related a s' run
  refine ⟨w, related', kept, outcome.imp_left fun runs t related'' => ?_⟩
  rw [same t (.inr related'')]
  exact runs t related''

theorem Settles.keeps {f : Program State α} (settles : Settles sure R S told f v) {s s' : State}
    {a : α} (related : R s v) (run : f s = some (a, s')) : R s' v := by
  obtain ⟨w, related', same, _⟩ := settles s related a s' run
  rw [← same]
  exact related'

theorem Settles.runs {f : Program State α} (settles : Settles sure R S told f v) {s s' : State}
    {a : α} (related : R s v) (run : f s = some (a, s')) (silent : sure ∨ a ∉ told) :
    Runs S f v a v := by
  obtain ⟨_, _, _, runs | ⟨unsure, tells⟩⟩ := settles s related a s' run
  · exact runs
  · exact absurd tells (silent.resolve_left unsure)

end Settled

section Definedness

variable {α β : Type u}

/-- `g` returns whatever `f` returns, and may return on more states. -/
def Below (f g : Program State α) : Prop := ∀ s r, f s = some r → g s = some r

theorem below_refl (f : Program State α) : Below f f := fun _ _ run => run

theorem below_trans {f g h : Program State α} (fg : Below f g) (gh : Below g h) : Below f h :=
  fun s r run => gh s r (fg s r run)

theorem below_bind {x y : Program State α} {f g : α → Program State β}
    (first : Below x y) (rest : ∀ a, Below (f a) (g a)) : Below (x >>= f) (y >>= g) := by
  intro s r run
  obtain ⟨a, s', firstRun, restRun⟩ := bind_eq_some.1 run
  exact bind_eq_some.2 ⟨a, s', first s _ firstRun, rest a s' _ restRun⟩

theorem below_none {f : Program State α} : Below (fun _ => none) f :=
  fun _ _ run => absurd run (by simp)

theorem below_ite {c : Prop} [Decidable c] {f f' g g' : Program State α}
    (yes : Below f f') (no : Below g g') :
    Below (if c then f else g) (if c then f' else g') := by
  split
  · exact yes
  · exact no

/-- A program that looks at its state before it starts. -/
theorem below_read {f g : State → Program State α} (each : ∀ s, Below (f s) (g s)) :
    Below (fun s => f s s) (fun s => g s s) := fun s r run => each s s r run

/-- What a program achieves, one that is defined on fewer states ensures. -/
theorem ensures_of_below {Abstract : Type*} {R : State → Abstract → Prop}
    {f g : Program State α} {v : Abstract} {Q : α → Abstract → Prop} (below : Below f g)
    (total : Achieves R g v Q) : Ensures R f v Q :=
  fun s related a s' run => total.ensures s related a s' (below s _ run)

theorem runs_of_below {Abstract : Type*} {R : State → Abstract → Prop} {f g : Program State α}
    {v w : Abstract} {a : α} (below : Below f g) (runs : Runs R f v a w) : Runs R g v a w := by
  intro s related
  obtain ⟨s', run, related'⟩ := runs s related
  exact ⟨s', below s _ run, related'⟩

theorem below_of_le {f : Nat → Program State α} (step : ∀ n, Below (f n) (f (n + 1)))
    {n m : Nat} (le : n ≤ m) : Below (f n) (f m) := by
  induction le with
  | refl => exact below_refl _
  | step _ ih => exact below_trans ih (step _)

end Definedness

end CassiOS.Support.PartialProgram

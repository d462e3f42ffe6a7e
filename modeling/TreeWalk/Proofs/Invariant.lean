import TreeWalk.Proofs.Compositional

/-!
# What every run keeps

A relation between the machine before a run and the machine after it needs to be
looked at only where the machine changes: at a binding, at a scope that comes or
goes, at a line read, at a number printed, at a note in the record.  **Whatever
these single changes keep, every evaluation keeps**, in any scope, whether the
scope is there or not, and however the evaluation ends.

## Main definitions

* `Event.number?`: the number that an event says was printed
* `Proc.Keeps`: the states before and after are related, whatever the outcome
* `Machine.Steady`: a preorder on machines that contains every single change but those
  of the number of scopes
* `Machine.Stable`: a preorder on machines that contains every single change

## Main statements

* `Machine.Steady.compositional`: keeping a steady relation is inherited by evaluation,
  provided that a body in a scope of its own inherits it
* `Machine.Stable.eval`: a stable relation is kept by every evaluation

## Design notes

A number is printed and recorded in one step, and no other step records one.  The
two halves are therefore a single change, so that a relation may tie the output to
the record.

A scope that comes or goes may be a change that the relation does not contain, though it
contains the two together.  Then a body in a scope of its own is looked at as a whole.
-/

namespace TreeWalk

/-! ## Procedures that keep a relation -/

namespace Proc

variable {σ ε α β : Type} {K : σ → σ → Prop}

/-- Whatever `x` comes to, the states before and after it are related. -/
def Keeps (K : σ → σ → Prop) (x : Proc σ ε α) : Prop :=
  ∀ s r s', x.run s = some (r, s') → K s s'

namespace Keeps

theorem noOutcome : Keeps K (Proc.noOutcome : Proc σ ε α) := by
  rintro s r s' ⟨⟩

theorem bind (trans : ∀ a b c, K a b → K b c → K a c) {x : Proc σ ε α} {f : α → Proc σ ε β}
    (hx : Keeps K x) (hf : ∀ a, Keeps K (f a)) : Keeps K (x >>= f) := by
  intro s r s' run
  rcases run_bind_eq_some_iff.mp run with ⟨a, s₁, first, second⟩ | ⟨e, s₁, first, outcome⟩
  · exact trans s s₁ s' (hx s _ s₁ first) (hf a s₁ r s' second)
  · cases outcome
    exact hx s _ _ first

theorem ensuring (trans : ∀ a b c, K a b → K b c → K a c) {x : Proc σ ε α}
    {last : Proc σ ε Unit} (hx : Keeps K x) (hlast : Keeps K last) :
    Keeps K (x.ensuring last) := by
  intro s r s' run
  obtain ⟨r₁, s₁, r₂, first, second⟩ := exists_run_of_run_ensuring run
  exact trans s s₁ s' (hx s r₁ s₁ first) (hlast s₁ r₂ s' second)

/-- A step that leaves the state alone keeps whatever is reflexive. -/
theorem of_state_eq (refl : ∀ a, K a a) {x : Proc σ ε α}
    (h : ∀ s r s', x.run s = some (r, s') → s' = s) : Keeps K x := by
  intro s r s' run
  rw [h s r s' run]
  exact refl s

theorem pure (refl : ∀ a, K a a) (a : α) : Keeps K (Pure.pure a : Proc σ ε α) :=
  of_state_eq refl (by rintro s r s' ⟨⟩; rfl)

theorem ofExcept (refl : ∀ a, K a a) (r : Except ε α) : Keeps K (Proc.ofExcept r) :=
  of_state_eq refl (by rintro s _ s' ⟨⟩; rfl)

theorem stop (refl : ∀ a, K a a) (e : ε) : Keeps K (Proc.stop e : Proc σ ε α) :=
  ofExcept refl (.error e)

/-- What a procedure leaves does not depend on what is done with its result. -/
theorem of_discard {x : Proc σ ε α} (h : Keeps K (do let _ ← x)) : Keeps K x := by
  intro s r s' run
  cases r with
  | error e => exact h s _ s' (run_bind_of_error run _)
  | ok a => exact h s _ s' (run_bind_of_ok run _)

end Keeps

end Proc

/-! ## Relations that contain every single change -/

/-- The number that an event says was printed. -/
def Event.number? : Event → Option Number
  | .printed n => some n
  | _ => none

/-- A preorder on machines that contains every single change an evaluation can
make within the scopes that are there. -/
structure Machine.Steady (K : Machine → Machine → Prop) : Prop where
  refl : ∀ m, K m m
  trans : ∀ m₁ m₂ m₃, K m₁ m₂ → K m₂ m₃ → K m₁ m₃
  log : ∀ m {e : Event}, e.number? = none → K m (m.log e)
  set : ∀ {m : Machine} {s x v env}, m.env.set s x v = .ok env → K m { m with env := env }
  emit : ∀ (m : Machine) n, K m ({ m with output := m.output.emit n }.log (.printed n))
  read : ∀ m : Machine, K m { m with input := m.input.read.2 }

/-- A preorder on machines that contains every single change an evaluation can
make. -/
structure Machine.Stable (K : Machine → Machine → Prop) : Prop extends Machine.Steady K where
  push : ∀ {m : Machine} {p s env}, m.env.push p = .ok (s, env) → K m { m with env := env }
  pop : ∀ {m : Machine} {s env}, m.env.pop s = .ok env → K m { m with env := env }

namespace Machine.Steady

variable {K : Machine → Machine → Prop} (hK : Steady K)

include hK

theorem keeps_assign (s : ScopeId) (x : Name) (v : Value) : Proc.Keeps K (Run.assign s x v) := by
  intro m r m' run
  simp only [Run.assign] at run
  split at run
  · next env bound =>
    cases run
    exact hK.set bound
  · cases run
    exact hK.refl m

theorem keeps_assignAll (s : ScopeId) (bindings : Bindings) :
    Proc.Keeps K (Run.assignAll s bindings) := by
  induction bindings with
  | nil => exact .pure hK.refl ()
  | cons b rest ih => exact .bind hK.trans (hK.keeps_assign s b.1 b.2) fun _ => ih

theorem keeps_readLine : Proc.Keeps K Run.readLine := by
  intro m r m' run
  have taken := hK.read m
  simp only [Run.readLine] at run
  rcases read : m.input.read with ⟨reading, rest⟩
  rw [read] at taken run
  cases reading with
  | line text =>
    cases run
    exact hK.trans _ _ _ taken (hK.log _ rfl)
  | exhausted =>
    cases run
    exact hK.trans _ _ _ taken (hK.log _ rfl)
  | undecodable =>
    cases run
    exact taken

theorem keeps_record {e : Event} (other : e.number? = none) : Proc.Keeps K (Run.record e) := by
  rintro m r m' ⟨⟩
  exact hK.log m other

theorem keeps_evalRead (x : Name) (s : ScopeId) : Proc.Keeps K (evalRead x s) :=
  Run.evalRead_of_parts (P := fun _ y => Proc.Keeps K y) (.bind hK.trans) (.pure hK.refl)
    hK.keeps_readLine (fun _ => .stop hK.refl _) fun k => hK.keeps_assign s x (.number k)

theorem keeps_lookup (s : ScopeId) (x : Name) : Proc.Keeps K (Run.lookup s x) := by
  refine .of_state_eq hK.refl fun m r m' run => ?_
  simp only [Run.lookup] at run
  split at run <;> cases run <;> rfl

theorem keeps_emit (n : Number) : Proc.Keeps K (Run.emit n) := by
  rintro m r m' ⟨⟩
  exact hK.emit m n

theorem keeps_noted {α : Type} {x : Run α} (hx : Proc.Keeps K x) {before after : Event}
    (first : before.number? = none) (last : after.number? = none) :
    Proc.Keeps K (do Run.record before; x.ensuring (Run.record after)) :=
  .bind hK.trans (hK.keeps_record first) fun _ => .ensuring hK.trans hx (hK.keeps_record last)

/-- A note about an error is one more note. -/
theorem keeps_noting {α : Type} {x : Run α} (hx : Proc.Keeps K x) {note : EvalError → Event}
    (other : ∀ e, (note e).number? = none) : Proc.Keeps K (x.noting note) := by
  intro m r m' run
  simp only [Run.noting] at run
  split at run
  · next e m₁ failed =>
    cases run
    exact hK.trans _ _ _ (hx m _ m₁ failed) (hK.log _ (other e))
  · exact hx m r m' run

/-- Keeping a steady relation is inherited by evaluation, provided that a body in a scope
of its own inherits it. -/
theorem compositional
    (block : ∀ {parent : ScopeId} {bindings : Bindings} {body : ScopeId → Run Value},
      (∀ s, Proc.Keeps K (body s)) → Proc.Keeps K (Run.withScope parent bindings body)) :
    Run.Compositional fun _ _ _ x => Proc.Keeps K x where
  noOutcome := .noOutcome
  pure a := .pure hK.refl a
  bind hx hf := .bind hK.trans hx hf
  ofExcept _ := .ofExcept hK.refl _
  lookup x := hK.keeps_lookup _ x
  assign v _ := hK.keeps_assign _ _ v
  emit n := hK.keeps_emit n
  read _ := hK.keeps_evalRead _ _
  evaluating _ := hK.keeps_record rfl
  arityDiffers _ _ := hK.keeps_record rfl
  noted _ _ hx := hK.keeps_noted hx rfl rfl
  withScope := block

end Machine.Steady

namespace Machine.Stable

variable {K : Machine → Machine → Prop} (hK : Stable K)

include hK

theorem keeps_pushScope (parent : ScopeId) : Proc.Keeps K (Run.pushScope parent) := by
  intro m r m' run
  simp only [Run.pushScope] at run
  split at run
  · next s env pushed =>
    cases run
    exact hK.trans _ _ _ (hK.push pushed) (hK.log _ rfl)
  · cases run
    exact hK.refl m

theorem keeps_popScope (s : ScopeId) : Proc.Keeps K (Run.popScope s) := by
  intro m r m' run
  simp only [Run.popScope] at run
  split at run
  · split at run
    · next env popped =>
      cases run
      exact hK.trans _ _ _ (hK.pop popped) (hK.log _ rfl)
    · cases run
      exact hK.refl m
  · cases run
    exact hK.refl m

theorem keeps_withScope {α : Type} {parent : ScopeId} {bindings : Bindings}
    {body : ScopeId → Run α} (h : ∀ s, Proc.Keeps K (body s)) :
    Proc.Keeps K (Run.withScope parent bindings body) :=
  .bind hK.trans (hK.keeps_pushScope parent) fun s =>
    .ensuring hK.trans (.bind hK.trans (hK.keeps_assignAll s bindings) fun _ => h s)
      (hK.keeps_popScope s)

/-- **Whatever the single changes keep, every evaluation keeps.** -/
theorem eval (depth : Nat) (n : Node) (s : ScopeId) : Proc.Keeps K (eval depth n s) :=
  (hK.compositional hK.keeps_withScope).eval depth n s Set.univ fun _ _ => Set.mem_univ _

theorem evalBlock (depth : Nat) (body : List Node) (s : ScopeId) :
    Proc.Keeps K (evalBlock (TreeWalk.eval depth) body s) :=
  (hK.compositional hK.keeps_withScope).evalBlock (fun n s _ _ => hK.eval depth n s) body s
    fun _ _ => Set.mem_univ _

theorem evalBody (depth : Nat) (f : Function) (s : ScopeId) :
    Proc.Keeps K (evalBody (TreeWalk.eval depth) f s) :=
  (hK.compositional hK.keeps_withScope).evalBody (fun n s _ _ => hK.eval depth n s) f s
    fun _ _ => Set.mem_univ _

/-- A whole program keeps the relation too, notes of its start, its end and its
failure included. -/
theorem runProgram (depth : Nat) (program : List Node) :
    Proc.Keeps K (runProgram depth program) :=
  hK.keeps_noted (hK.keeps_noting (hK.evalBlock depth program .root) fun _ => rfl) rfl rfl

end Machine.Stable

end TreeWalk

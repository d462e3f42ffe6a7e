import Mathlib.Data.Set.Basic
import TreeWalk.Eval.Depth

/-!
# Properties that evaluation inherits from its parts

Evaluation puts a handful of primitive runs together: it binds and looks up
names, reads and prints, leaves notes in the record, and runs bodies in scopes
of their own.  A property of runs that holds of the primitives, and that every
way of putting runs together keeps, therefore holds of every evaluation.  **The
induction over the depth, the kinds of node and the lists of nodes is done here,
once**, and each such property has only its primitives left to look at.

## Main definitions

* `Node.targets`: the names that a tree may bind in the scope where it is
  evaluated
* `EvalError.OfValues`: the errors that operators and conversions give rise to
* `Run.Compositional`: the primitives have the property, and composition keeps
  it

## Main statements

* `Run.Compositional.eval`: then every evaluation has it

## Design notes

A property may depend on the scope in which a run works and on the names it is
allowed to bind there.  The allowance is what makes the tree matter: an
evaluation is allowed the targets of its tree.  The body of a call works in
another scope, and there it is allowed every name.
-/

namespace TreeWalk

/-! ## Targets -/

namespace Node

mutual

/-- The names that a tree may bind in the scope where it is evaluated: those it
reads and those it defines.  The body of a definition does not count, because it
runs only when it is called, and then in another scope.  The body of a literal
does. -/
def targets : Node → List Name
  | .number _ => []
  | .reference _ => []
  | .unary _ operand => operand.targets
  | .binary _ left right => left.targets ++ right.targets
  | .literal _ body => targetsAll body
  | .define x _ _ => [x]
  | .call callee args => callee.targets ++ targetsAll args
  | .conditional condition ifTrue ifFalse =>
    condition.targets ++ targetsAll ifTrue ++ targetsBranch ifFalse
  | .print operand => operand.targets
  | .read x => [x]

/-- The targets of several trees. -/
def targetsAll : List Node → List Name
  | [] => []
  | n :: rest => n.targets ++ targetsAll rest

/-- The targets of a branch that may be missing. -/
def targetsBranch : Option (List Node) → List Name
  | none => []
  | some body => targetsAll body

end

/-- The branch that a condition chooses has no targets but those of the two. -/
theorem targetsAll_chooseBranch (c : Number) (ifTrue : List Node) (ifFalse : Option (List Node)) :
    targetsAll (chooseBranch c ifTrue ifFalse) ⊆ targetsAll ifTrue ++ targetsBranch ifFalse := by
  unfold chooseBranch
  split
  · exact List.subset_append_left _ _
  · cases ifFalse with
    | none => simp [targetsAll]
    | some body => exact List.subset_append_right _ _

end Node

/-! ## Errors of values -/

/-- The errors that come from values alone: an operator, a condition, a print or a
call met a value that it cannot work with.  Names and input have no part in
them. -/
inductive EvalError.OfValues : EvalError → Prop where
  | divisionByZero : OfValues .divisionByZero
  | moduloByZero : OfValues .moduloByZero
  | integerOverflow {operation : String} :
    operation ∈ ["negation", "addition", "subtraction", "multiplication", "division"] →
      OfValues (.integerOverflow operation)
  | typeMismatch {v : Value} : (∀ k, v ≠ .number k) → OfValues (.typeMismatch "number" v.typeName)
  | notCallable {v : Value} : (∀ f, v ≠ .function f) → OfValues (.notCallable v.typeName)

/-- A step on values goes wrong, if at all, for a reason that lies in the
values. -/
def EvalError.OnlyOfValues {α : Type} (r : Except EvalError α) : Prop :=
  ∀ e, r = .error e → e.OfValues

namespace EvalError.OnlyOfValues

theorem ok {α : Type} (a : α) : OnlyOfValues (.ok a) := fun _ => nofun

theorem bind {α β : Type} {x : Except EvalError α} {f : α → Except EvalError β}
    (hx : OnlyOfValues x) (hf : ∀ a, OnlyOfValues (f a)) : OnlyOfValues (x >>= f) := by
  intro e h
  cases x with
  | error e' =>
    cases h
    exact hx e rfl
  | ok a => exact hf a e h

theorem checked {operation : String} (result : Option Number)
    (known : operation ∈ ["negation", "addition", "subtraction", "multiplication", "division"]) :
    OnlyOfValues (checked operation result) := by
  intro e h
  obtain ⟨-, rfl⟩ := checked_eq_error_iff.mp h
  exact .integerOverflow known

theorem toNumber (v : Value) : OnlyOfValues v.toNumber := by
  intro e h
  obtain ⟨other, rfl⟩ := Value.toNumber_eq_error_iff.mp h
  exact .typeMismatch other

theorem toFunction (v : Value) : OnlyOfValues (toFunction v) := by
  have other : (∀ f, v ≠ .function f) → OfValues (.notCallable v.typeName) := .notCallable
  intro e h
  cases v <;> cases h <;> exact other nofun

theorem unaryApply (op : UnaryOp) (a : Number) : OnlyOfValues (op.apply a) := by
  cases op with
  | neg => exact checked _ (by decide)
  | not => exact ok _

theorem binaryApply (op : BinaryOp) (a b : Number) : OnlyOfValues (op.apply a b) := by
  cases op with
  | add | sub | mul => exact checked _ (by decide)
  | floorDiv =>
    simp only [BinaryOp.apply]
    split
    · rintro e ⟨⟩
      exact .divisionByZero
    · exact checked _ (by decide)
  | mod =>
    simp only [BinaryOp.apply]
    split
    · rintro e ⟨⟩
      exact .moduloByZero
    · next nonzero =>
      -- A remainder always fits, so this check never fails.
      rintro e h
      rw [checked_eq_error_iff, Number.floorMod?_eq_ofInt? nonzero, Number.ofInt?_eq_none_iff] at h
      exact absurd (Number.fits_fmod nonzero) h.1
  | eq | notEq | lt | ltEq | gt | gtEq | and | or => exact ok _

theorem unaryEvaluate (op : UnaryOp) (v : Value) : OnlyOfValues (op.evaluate v) :=
  bind (toNumber v) fun a => bind (unaryApply op a) fun _ => ok _

theorem binaryEvaluate (op : BinaryOp) (left right : Value) :
    OnlyOfValues (op.evaluate left right) :=
  bind (toNumber left) fun a => bind (toNumber right) fun b =>
    bind (binaryApply op a b) fun _ => ok _

end EvalError.OnlyOfValues

/-! ## Compositional properties -/

/-- A property of runs that work in a scope and are allowed to bind certain names
there, such that the primitives have it and composition keeps it. -/
structure Run.Compositional (P : (α : Type) → Set Name → ScopeId → Run α → Prop) : Prop where
  noOutcome {α : Type} {T : Set Name} {s : ScopeId} : P α T s Proc.noOutcome
  pure {α : Type} {T : Set Name} {s : ScopeId} (a : α) : P α T s (Pure.pure a)
  bind {α β : Type} {T : Set Name} {s : ScopeId} {x : Run α} {f : α → Run β} :
    P α T s x → (∀ a, P β T s (f a)) → P β T s (x >>= f)
  /-- A step that uses no more than values goes wrong only because of them. -/
  ofExcept {α : Type} {T : Set Name} {s : ScopeId} {r : Except EvalError α} :
    EvalError.OnlyOfValues r → P α T s (Run.ofExcept r)
  lookup {T : Set Name} {s : ScopeId} (x : Name) : P Value T s (Run.lookup s x)
  /-- Only a name that is allowed may be bound. -/
  assign {T : Set Name} {s : ScopeId} {x : Name} (v : Value) :
    x ∈ T → P Unit T s (Run.assign s x v)
  emit {T : Set Name} {s : ScopeId} (n : Number) : P Unit T s (Run.emit n)
  /-- Reading is looked at as a whole: the input is never exhausted but by it. -/
  read {T : Set Name} {s : ScopeId} {x : Name} : x ∈ T → P Value T s (evalRead x s)
  /-- Notes about a tree that is entered and about arguments that do not fit. -/
  evaluating {T : Set Name} {s : ScopeId} (kind : Kind) :
    P Unit T s (Run.record (.evaluating kind))
  arityDiffers {T : Set Name} {s : ScopeId} (params args : Nat) :
    P Unit T s (Run.record (.arityDiffers params args))
  /-- A call is noted at its start and at its end, however it ends. -/
  noted {T : Set Name} {s : ScopeId} {x : Run Value} (callee : Kind) (args : Nat) :
    P Value T s x →
      P Value T s (do
        Run.record (.callStarted callee args)
        x.ensuring (Run.record .callEnded))
  /-- A body in a scope of its own may bind there what it likes. -/
  withScope {T : Set Name} {s : ScopeId} {bindings : Bindings} {body : ScopeId → Run Value} :
    (∀ t, P Value Set.univ t (body t)) → P Value T s (Run.withScope s bindings body)

/-- A read is put together from taking a line, binding a number, and two ways to fail. -/
theorem Run.evalRead_of_parts {P : (α : Type) → Run α → Prop} {x : Name} {s : ScopeId}
    (bind : ∀ {α β : Type} {y : Run α} {f : α → Run β},
      P α y → (∀ a, P β (f a)) → P β (y >>= f))
    (pure : ∀ v, P Value (Pure.pure v)) (readLine : P (Option String) Run.readLine)
    (fail : ∀ e, P Value (Run.fail e)) (assign : ∀ k, P Unit (Run.assign s x (.number k))) :
    P Value (evalRead x s) := by
  refine bind readLine fun line => ?_
  cases line with
  | none => exact fail .inputExhausted
  | some line =>
    dsimp only
    split
    · exact fail _
    · exact bind (assign _) fun _ => pure _

namespace Run.Compositional

variable {P : (α : Type) → Set Name → ScopeId → Run α → Prop}

section

variable (hP : Compositional P) {ev : Evaluator}
  (hev : ∀ (n : Node) (s : ScopeId) (T : Set Name), (∀ x ∈ n.targets, x ∈ T) →
    P Value T s (ev n s))

include hP hev

theorem evalFrom (s : ScopeId) {T : Set Name} (last : Value) (body : List Node)
    (allowed : ∀ x ∈ Node.targetsAll body, x ∈ T) :
    P Value T s (evalFrom ev s last body) := by
  induction body generalizing last with
  | nil => exact hP.pure last
  | cons n rest ih =>
    simp only [Node.targetsAll, List.mem_append] at allowed
    have first := hev n s T fun x hx => allowed x (.inl hx)
    refine hP.bind first fun v => ?_
    exact ih v fun x hx => allowed x (.inr hx)

theorem evalBlock (body : List Node) (s : ScopeId) {T : Set Name}
    (allowed : ∀ x ∈ Node.targetsAll body, x ∈ T) :
    P Value T s (evalBlock ev body s) := hP.evalFrom hev s .void body allowed

theorem evalBody (f : Function) (s : ScopeId) {T : Set Name}
    (allowed : ∀ x ∈ Node.targetsAll f.body, x ∈ T) :
    P Value T s (evalBody ev f s) := by
  unfold TreeWalk.evalBody
  split
  · exact hP.pure _
  · next n rest body =>
    rw [body] at allowed
    exact hP.evalBlock hev (n :: rest) s allowed

theorem evalArgs (s : ScopeId) {T : Set Name} (args : List Node)
    (allowed : ∀ x ∈ Node.targetsAll args, x ∈ T) :
    P (List Value) T s (evalArgs ev s args) := by
  induction args with
  | nil => exact hP.pure []
  | cons n rest ih =>
    simp only [Node.targetsAll, List.mem_append] at allowed
    have first := hev n s T fun x hx => allowed x (.inl hx)
    have others := ih fun x hx => allowed x (.inr hx)
    refine hP.bind first fun v => hP.bind others fun vs => ?_
    exact hP.pure (v :: vs)

/-- Applying a function needs no allowance: its body has a scope of its own. -/
theorem applyFunction (f : Function) (args : List Value) (s : ScopeId) {T : Set Name} :
    P Value T s (applyFunction ev f args s) := by
  refine hP.bind ?_ fun _ => hP.withScope fun t => hP.evalBody hev f t fun _ _ => Set.mem_univ _
  unfold noteArity
  split
  · exact hP.pure ()
  · exact hP.arityDiffers _ _

theorem evalCall (callee : Node) (args : List Node) (s : ScopeId) {T : Set Name}
    (allowed : ∀ x ∈ callee.targets ++ Node.targetsAll args, x ∈ T) :
    P Value T s (evalCall ev callee args s) := by
  simp only [List.mem_append] at allowed
  refine hP.noted callee.kind args.length ?_
  have first := hev callee s T fun x hx => allowed x (.inl hx)
  have others := hP.evalArgs hev s args fun x hx => allowed x (.inr hx)
  refine hP.bind first fun v => ?_
  refine hP.bind (hP.ofExcept (.toFunction v)) fun f => ?_
  refine hP.bind others fun values => ?_
  exact hP.applyFunction hev f values s

theorem evalConditional (condition : Node) (ifTrue : List Node) (ifFalse : Option (List Node))
    (s : ScopeId) {T : Set Name}
    (allowed : ∀ x ∈ condition.targets ++ Node.targetsAll ifTrue ++ Node.targetsBranch ifFalse,
      x ∈ T) :
    P Value T s (evalConditional ev condition ifTrue ifFalse s) := by
  simp only [List.append_assoc, List.mem_append] at allowed
  refine hP.bind (hev condition s T fun x hx => allowed x (.inl hx)) fun v => ?_
  refine hP.bind (hP.ofExcept (.toNumber v)) fun c => ?_
  refine hP.evalBlock hev (chooseBranch c ifTrue ifFalse) s fun x hx => allowed x (.inr ?_)
  exact List.mem_append.mp (Node.targetsAll_chooseBranch c ifTrue ifFalse hx)

/-- One step of evaluation has the property if the evaluator for the parts has
it. -/
theorem evalNode (n : Node) (s : ScopeId) {T : Set Name} (allowed : ∀ x ∈ n.targets, x ∈ T) :
    P Value T s (evalNode ev n s) := by
  refine hP.bind (hP.evaluating n.kind) fun _ => ?_
  cases n with
  | number k => exact hP.pure (Value.number k)
  | reference x => exact hP.lookup x
  | unary op operand =>
    exact hP.bind (hev operand s T allowed) fun v => hP.ofExcept (.unaryEvaluate op v)
  | binary op left right =>
    simp only [Node.targets, List.mem_append] at allowed
    have first := hev left s T fun x hx => allowed x (.inl hx)
    have second := hev right s T fun x hx => allowed x (.inr hx)
    refine hP.bind first fun l => hP.bind second fun r => ?_
    exact hP.ofExcept (.binaryEvaluate op l r)
  | literal params body => exact hP.evalBody hev ⟨params, body⟩ s allowed
  | define x params body =>
    exact hP.bind (hP.assign _ (allowed x (List.mem_singleton_self x))) fun _ => hP.pure _
  | call callee args => exact hP.evalCall hev callee args s allowed
  | conditional condition ifTrue ifFalse =>
    exact hP.evalConditional hev condition ifTrue ifFalse s allowed
  | print operand =>
    refine hP.bind (hev operand s T allowed) fun v => ?_
    refine hP.bind (hP.ofExcept (.toNumber v)) fun k => ?_
    exact hP.bind (hP.emit k) fun _ => hP.pure v
  | read x => exact hP.read (allowed x (List.mem_singleton_self x))

end

/-- **Every evaluation has the property**, with the targets of its tree as the
names it is allowed to bind. -/
theorem eval (hP : Compositional P) (depth : Nat) (n : Node) (s : ScopeId) (T : Set Name)
    (allowed : ∀ x ∈ n.targets, x ∈ T) : P Value T s (eval depth n s) := by
  induction depth generalizing n s T with
  | zero => exact hP.noOutcome
  | succ depth ih => exact hP.evalNode ih n s allowed

end Run.Compositional

end TreeWalk

import TreeWalk.Eval

/-!
# The bound on depth

Evaluation has a bound on its depth so that it is total.  The bound is no part
of the meaning: an evaluation that comes to an outcome comes to the same one
under every larger bound.

## Main definitions

* `Evaluator.Below`: one evaluator agrees with another wherever it has an outcome
* `Evaluates`: a tree comes to an outcome, under some bound
* `EvaluatesAll`: a sequence of trees does

## Main statements

* `evalNode_below`: a step of evaluation agrees with one over an evaluator that
  comes to more outcomes
* `eval_below_of_le`: a larger bound keeps every outcome
* `Evaluates.unique`: a tree comes to at most one outcome
-/

namespace TreeWalk

/-! ## Runs that agree where one has an outcome -/

namespace Run

variable {α : Type}

/-- Running in a new scope keeps agreement. -/
theorem below_withScope {body body' : ScopeId → Run α} (parent : ScopeId) (bindings : Bindings)
    (h : ∀ s, (body s).Below (body' s)) :
    (withScope parent bindings body).Below (withScope parent bindings body') :=
  .bind (.refl _) fun s => .ensuring (.bind (.refl _) fun _ => h s) (.refl _)

end Run

/-! ## Evaluators that agree where one has an outcome -/

/-- Wherever `ev` has an outcome, `ev'` has the same. -/
def Evaluator.Below (ev ev' : Evaluator) : Prop := ∀ n s, Proc.Below (ev n s) (ev' n s)

section

variable {ev ev' : Evaluator} (h : ev.Below ev')

include h

theorem evalFrom_below (s : ScopeId) (last : Value) (body : List Node) :
    Proc.Below (evalFrom ev s last body) (evalFrom ev' s last body) := by
  induction body generalizing last with
  | nil => exact .refl _
  | cons n rest ih => exact .bind (h n s) ih

theorem evalBlock_below (body : List Node) (s : ScopeId) :
    Proc.Below (evalBlock ev body s) (evalBlock ev' body s) := evalFrom_below h s .void body

theorem evalBody_below (f : Function) (s : ScopeId) :
    Proc.Below (evalBody ev f s) (evalBody ev' f s) := by
  unfold evalBody
  split
  · exact .refl _
  · exact evalBlock_below h _ s

theorem evalArgs_below (s : ScopeId) (args : List Node) :
    Proc.Below (evalArgs ev s args) (evalArgs ev' s args) := by
  induction args with
  | nil => exact .refl _
  | cons n rest ih => exact .bind (h n s) fun _ => .bind ih fun _ => .refl _

theorem applyFunction_below (f : Function) (args : List Value) (s : ScopeId) :
    Proc.Below (applyFunction ev f args s) (applyFunction ev' f args s) :=
  .bind (.refl _) fun _ => Run.below_withScope s (f.params.zip args) (evalBody_below h f)

theorem evalCall_below (callee : Node) (args : List Node) (s : ScopeId) :
    Proc.Below (evalCall ev callee args s) (evalCall ev' callee args s) :=
  .bind (.refl _) fun _ =>
    .ensuring
      (.bind (h callee s) fun _ => .bind (.refl _) fun f =>
        .bind (evalArgs_below h s args) fun values => applyFunction_below h f values s)
      (.refl _)

theorem evalConditional_below (condition : Node) (ifTrue : List Node)
    (ifFalse : Option (List Node)) (s : ScopeId) :
    Proc.Below (evalConditional ev condition ifTrue ifFalse s)
      (evalConditional ev' condition ifTrue ifFalse s) :=
  .bind (h condition s) fun _ => .bind (.refl _) fun c =>
    evalBlock_below h (chooseBranch c ifTrue ifFalse) s

/-- A step of evaluation agrees with one over an evaluator that comes to more
outcomes. -/
theorem evalNode_below : Evaluator.Below (evalNode ev) (evalNode ev') := by
  intro n s
  refine .bind (.refl _) fun _ => ?_
  cases n with
  | number | reference | define | read => exact .refl _
  | unary op operand => exact .bind (h operand s) fun _ => .refl _
  | binary op left right =>
    exact .bind (h left s) fun _ => .bind (h right s) fun _ => .refl _
  | literal params body => exact evalBody_below h ⟨params, body⟩ s
  | call callee args => exact evalCall_below h callee args s
  | conditional condition ifTrue ifFalse =>
    exact evalConditional_below h condition ifTrue ifFalse s
  | print operand => exact .bind (h operand s) fun _ => .refl _

end

/-! ## Larger bounds -/

theorem eval_below_succ (depth : Nat) : (eval depth).Below (eval (depth + 1)) := by
  induction depth with
  | zero => exact fun _ _ => .noOutcome _
  | succ depth ih => exact evalNode_below ih

/-- A larger bound keeps every outcome. -/
theorem eval_below_of_le {d e : Nat} (h : d ≤ e) : (eval d).Below (eval e) := by
  induction h with
  | refl => exact fun _ _ => .refl _
  | step _ ih => exact fun n s => .trans (ih n s) (eval_below_succ _ n s)

/-- A tree comes to an outcome and leaves a machine, under some bound. -/
def Evaluates (n : Node) (s : ScopeId) (m : Machine) (r : Except Stop Value × Machine) : Prop :=
  ∃ depth, (eval depth n s).run m = some r

/-- Trees that are evaluated one after the other come to an outcome and leave a
machine, under some bound. -/
def EvaluatesAll (body : List Node) (s : ScopeId) (m : Machine) (r : Except Stop Value × Machine) :
    Prop :=
  ∃ depth, (evalBlock (eval depth) body s).run m = some r

/-- A single tree is a sequence of one. -/
@[simp] theorem evaluatesAll_singleton (n : Node) (s : ScopeId) (m : Machine) :
    EvaluatesAll [n] s m = Evaluates n s m := by
  have same (depth : Nat) : evalBlock (eval depth) [n] s = eval depth n s := bind_pure _
  funext r
  simp only [EvaluatesAll, same, Evaluates]

/-- A tree comes to at most one outcome. -/
theorem Evaluates.unique {n : Node} {s : ScopeId} {m : Machine}
    {r r' : Except Stop Value × Machine} (h : Evaluates n s m r) (h' : Evaluates n s m r') :
    r = r' := by
  obtain ⟨d, hd⟩ := h
  obtain ⟨e, he⟩ := h'
  have hl := eval_below_of_le (Nat.le_max_left d e) n s m r hd
  have hr := eval_below_of_le (Nat.le_max_right d e) n s m r' he
  exact Option.some.inj (hl.symm.trans hr)

end TreeWalk

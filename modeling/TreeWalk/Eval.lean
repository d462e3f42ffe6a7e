import TreeWalk.Arithmetic
import TreeWalk.Machine
import TreeWalk.Text.Blank

/-!
# Evaluation

A tree is evaluated in a scope, on a machine.  Each kind of node has its rule;
the rules are stated over an arbitrary evaluator `ev` for the parts of a node,
and `eval` ties the knot.

## Main definitions

* `evalBlock`, `evalBody`, `evalArgs`, `evalCall`, `evalRead`, `evalConditional`:
  the rules, over an evaluator for the parts
* `evalNode`: one step of evaluation, which picks the rule of a node
* `eval`: evaluation with a bound on the depth of recursion
* `runProgram`: a whole program, in the outermost scope

## Design notes

**Names are resolved where they are used, not where they were written.**  The
scope of a call is nested in the scope of the caller, so a function sees the
names of whoever calls it.

A call can reach a function that is bound nowhere in the tree of the call, so
evaluation does not follow the tree and need not end.  The bound on the depth
makes it total: `eval 0` has no outcome, and `eval (n + 1)` is one step over
`eval n`.  A larger bound never changes an outcome that a smaller one came to
(`eval_below_of_le`).
-/

namespace TreeWalk

/-- An evaluator of trees in scopes. -/
abbrev Evaluator := Node → ScopeId → Run Value

/-! ## Rules over an evaluator for the parts -/

section

variable (ev : Evaluator)

/-- Evaluate statements in order, with `last` the value so far. -/
def evalFrom (s : ScopeId) (last : Value) : List Node → Run Value
  | [] => pure last
  | n :: rest => do
    let v ← ev n s
    evalFrom s v rest

/-- Evaluate statements in order.  The value is that of the last one, and `void`
if there is none. -/
def evalBlock (body : List Node) (s : ScopeId) : Run Value := evalFrom ev s .void body

/-- Evaluate the body of a function.  An empty one has the value `0`. -/
def evalBody (f : Function) (s : ScopeId) : Run Value :=
  match f.body with
  | [] => pure (.number 0)
  | n :: rest => evalBlock ev (n :: rest) s

/-- Evaluate arguments, first to last. -/
def evalArgs (s : ScopeId) : List Node → Run (List Value)
  | [] => pure []
  | n :: rest => do
    let v ← ev n s
    return v :: (← evalArgs s rest)

/-- The function in a value that is called. -/
def toFunction : Value → Except EvalError Function
  | .function f => .ok f
  | v => .error (.notCallable v.typeName)

/-- Leave an event if a function gets more or fewer arguments than it has
parameters. -/
def noteArity (f : Function) (args : List Value) : Run Unit :=
  if args.length = f.arity then pure () else Run.record (.arityDiffers f.arity args.length)

/-- Apply a function to arguments in a new scope inside the caller's.  Arguments
beyond the parameters are dropped, and parameters beyond the arguments are not
bound. -/
def applyFunction (f : Function) (args : List Value) (s : ScopeId) : Run Value := do
  noteArity f args
  Run.withScope s (f.params.zip args) (evalBody ev f)

/-- Evaluate a call: the callee, then the arguments, then the body. -/
def evalCall (callee : Node) (args : List Node) (s : ScopeId) : Run Value := do
  Run.record (.callStarted callee.kind args.length)
  Proc.ensuring
    (do
      let f ← Run.ofExcept (toFunction (← ev callee s))
      let values ← evalArgs ev s args
      applyFunction ev f values s)
    (Run.record .callEnded)

/-- The branch that a condition chooses.  An empty first branch is passed over
even where the condition holds. -/
def chooseBranch (condition : Number) (ifTrue : List Node) (ifFalse : Option (List Node)) :
    List Node :=
  if condition ≠ 0 ∧ ifTrue ≠ [] then ifTrue else ifFalse.getD []

/-- Evaluate a condition and the branch that it chooses. -/
def evalConditional (condition : Node) (ifTrue : List Node) (ifFalse : Option (List Node))
    (s : ScopeId) : Run Value := do
  let c ← Run.ofExcept (← ev condition s).toNumber
  evalBlock ev (chooseBranch c ifTrue ifFalse) s

end

/-- Read a number from the next line and bind it.  Blanks around it do not count,
and its digits may be in groups. -/
def evalRead (x : Name) (s : ScopeId) : Run Value := do
  match ← Run.readLine with
  | none => Run.fail .inputExhausted
  | some line =>
    let core := Text.trim line.toList
    match Number.ofGrouped? core with
    | none => Run.fail (.invalidInput (String.ofList core))
    | some n =>
      Run.assign s x (.number n)
      return .number n

/-- One step of evaluation: the rule of a node, over an evaluator for its
parts. -/
def evalNode (ev : Evaluator) (n : Node) (s : ScopeId) : Run Value := do
  Run.record (.evaluating n.kind)
  match n with
  | .number k => return .number k
  | .reference x => Run.lookup s x
  | .unary op operand =>
    let v ← ev operand s
    Run.ofExcept (op.evaluate v)
  | .binary op left right =>
    -- Both operands are evaluated before either is looked at: they may print or read.
    let l ← ev left s
    let r ← ev right s
    Run.ofExcept (op.evaluate l r)
  | .literal params body => evalBody ev ⟨params, body⟩ s
  | .define x params body =>
    -- The function is stored as it is; no scope is stored with it.
    Run.assign s x (.function ⟨params, body⟩)
    return .function ⟨params, body⟩
  | .call callee args => evalCall ev callee args s
  | .conditional condition ifTrue ifFalse => evalConditional ev condition ifTrue ifFalse s
  | .print operand =>
    let v ← ev operand s
    Run.emit (← Run.ofExcept v.toNumber)
    return v
  | .read x => evalRead x s

/-! ## Tying the knot -/

/-- Evaluate a tree in a scope, with a bound on the depth of recursion. -/
def eval : (depth : Nat) → Evaluator
  | 0, _, _ => Proc.noOutcome
  | depth + 1, n, s => evalNode (eval depth) n s

/-- Run a program in the outermost scope.  A program that goes wrong leaves a
note of the error in the record. -/
def runProgram (depth : Nat) (program : List Node) : Run Value := do
  Run.record (.runStarted program.length)
  Proc.ensuring
    (Run.noting (evalBlock (eval depth) program .root) .runAborted)
    (Run.record .runEnded)

@[simp] theorem eval_zero (n : Node) (s : ScopeId) : eval 0 n s = Proc.noOutcome := rfl

theorem eval_succ (depth : Nat) (n : Node) (s : ScopeId) :
    eval (depth + 1) n s = evalNode (eval depth) n s := rfl

@[simp] theorem evalBlock_nil (ev : Evaluator) (s : ScopeId) :
    evalBlock ev [] s = pure .void := rfl

@[simp] theorem evalBody_nil (ev : Evaluator) (params : List Name) (s : ScopeId) :
    evalBody ev ⟨params, []⟩ s = pure (.number 0) := rfl

end TreeWalk

import Mathlib.Logic.Function.Basic
import TreeWalk.Eval

/-!
# Flat evaluation

A second semantics of program trees that knows no scopes.  Its state holds one
view, which says what each name stands for, and the two channels.  **A call runs
its body on a copy of the view** and throws the copy away at the end; there are
no frames, no parents and no positions.

## Main definitions

* `Flat`: the state, a view and the two channels
* `Flat.onCopy`: run on a copy of the view, in which some names are bound anew
* `Flat.eval`: evaluation with a bound on the depth of recursion
* `Flat.Evaluates`: a tree comes to an outcome, under some bound

## Design notes

There is no record of events, and nothing can break a rule of the arena: a flat
evaluation stops with an error of the program or not at all.
-/

namespace TreeWalk

/-- What a flat evaluation can see or change. -/
structure Flat where
  /-- What each name stands for. -/
  view : Name → Option Value
  input : Input
  output : Output

namespace Flat

/-- A procedure on a flat state, which can stop only with an error. -/
abbrev Run (α : Type) : Type := Proc Flat EvalError α

/-! ## Primitive steps -/

/-- The value of a name.  The table is asked only for the text of an error. -/
def lookup (names : NameTable) (x : Name) : Run Value :=
  ⟨fun st =>
    match st.view x with
    | some v => some (.ok v, st)
    | none => some (.error (.undefinedVariable (names.lookup x)), st)⟩

/-- Let a name stand for a value. -/
def assign (x : Name) (v : Value) : Run Unit :=
  Proc.modify fun st => { st with view := Function.update st.view x (some v) }

/-- Print a number. -/
def emit (n : Number) : Run Unit :=
  Proc.modify fun st => { st with output := st.output.emit n }

/-- Take a line from the input; `none` at its end. -/
def readLine : Run (Option String) :=
  ⟨fun st =>
    match st.input.read with
    | (.line text, rest) => some (.ok (some text), { st with input := rest })
    | (.exhausted, rest) => some (.ok none, { st with input := rest })
    | (.undecodable, rest) =>
      some (.error (.inputFailed Reading.undecodableMessage), { st with input := rest })⟩

/-- A view in which some names are bound anew, first to last. -/
def override (view : Name → Option Value) (bindings : List (Name × Value)) :
    Name → Option Value :=
  bindings.foldl (fun view b => Function.update view b.1 (some b.2)) view

/-- Run on a copy of the view in which some names are bound anew.  However the run
ends, the view is the old one again, and the channels stay as the run left
them. -/
def onCopy {α : Type} (bindings : List (Name × Value)) (body : Run α) : Run α :=
  ⟨fun st =>
    (body.run { st with view := override st.view bindings }).map fun o =>
      (o.1, { o.2 with view := st.view })⟩

/-! ## Evaluation -/

section

variable (ev : Node → Run Value)

/-- Evaluate statements in order; the value is that of the last one. -/
def block (body : List Node) : Run Value := body.foldlM (fun _ n => ev n) .void

/-- Evaluate the body of a function. -/
def body (f : Function) : Run Value := if f.body = [] then pure (.number 0) else block ev f.body

end

/-- Read a number from the next line, and let a name stand for it. -/
def read (x : Name) : Run Value := do
  match ← readLine with
  | none => Proc.stop .inputExhausted
  | some line =>
    let core := Text.trim line.toList
    match Number.ofGrouped? core with
    | none => Proc.stop (.invalidInput (String.ofList core))
    | some n =>
      assign x (.number n)
      return .number n

/-- Evaluate a tree, with a bound on the depth of recursion. -/
def eval (names : NameTable) : (depth : Nat) → Node → Run Value
  | 0, _ => Proc.noOutcome
  | _ + 1, .number k => return .number k
  | _ + 1, .reference x => lookup names x
  | depth + 1, .unary op operand => do
    let v ← eval names depth operand
    Proc.ofExcept (op.evaluate v)
  | depth + 1, .binary op left right => do
    let l ← eval names depth left
    let r ← eval names depth right
    Proc.ofExcept (op.evaluate l r)
  | depth + 1, .literal params stmts => body (eval names depth) ⟨params, stmts⟩
  | _ + 1, .define x params stmts => do
    assign x (.function ⟨params, stmts⟩)
    return .function ⟨params, stmts⟩
  | depth + 1, .call callee args => do
    let f ← Proc.ofExcept (toFunction (← eval names depth callee))
    let values ← args.mapM (eval names depth)
    onCopy (f.params.zip values) (body (eval names depth) f)
  | depth + 1, .conditional condition ifTrue ifFalse => do
    let c ← Proc.ofExcept (← eval names depth condition).toNumber
    block (eval names depth) (chooseBranch c ifTrue ifFalse)
  | depth + 1, .print operand => do
    let v ← eval names depth operand
    emit (← Proc.ofExcept v.toNumber)
    return v
  | _ + 1, .read x => read x

/-- A tree comes to an outcome and leaves a flat state, under some bound. -/
def Evaluates (names : NameTable) (n : Node) (st : Flat) (r : Except EvalError Value × Flat) :
    Prop :=
  ∃ depth, (eval names depth n).run st = some r

end Flat

/-- What can be seen of a machine from a scope: the value of each name, and the
channels. -/
def Machine.flatten (m : Machine) (s : ScopeId) : Flat := ⟨m.env.get? s, m.input, m.output⟩

end TreeWalk

import TreeWalk.Draft

/-!
# Commands

What the host of a machine can ask for.  A request is answered at once; a block
holds further commands, which are carried out inside a scope of their own.

## Main definitions

* `Handle`: the number under which the host knows a scope
* `Request`: one thing to do
* `Command`: a request, or a block

## Design notes

The host never sees scopes directly: it counts the scopes that were opened for
it, and handle 0 is the outermost one.  A handle stays valid when its scope is
discarded, and then it stands for whatever is at that position.
-/

namespace TreeWalk

/-- The number under which the host knows a scope. -/
abbrev Handle := Nat

/-- One thing to do. -/
inductive Request where
  /-- Run a program in the outermost scope. -/
  | run (program : List Draft)
  /-- Evaluate one tree several times over, until it fails. -/
  | eval (node : Draft) (scope : Handle) (times : Nat)
  /-- Evaluate statements. -/
  | block (body : List Draft) (scope : Handle)
  /-- Evaluate the body of a function, with nothing bound for it. -/
  | function (params : List Identifier) (body : List Draft) (scope : Handle)
  /-- Make a scope. -/
  | push (parent : Handle)
  /-- Discard a scope. -/
  | pop (scope : Handle)
  /-- Bind a name. -/
  | set (scope : Handle) (name : Identifier) (value : ValueDraft)
  /-- Look a name up. -/
  | get (scope : Handle) (name : Identifier)
  /-- Ask about a scope. -/
  | inspect (scope : Handle)
  /-- Keep a copy of the environment. -/
  | save
  /-- Go back to the copy that was kept. -/
  | load
  /-- Put a line at the end of the input. -/
  | pushLine (line : String)
  /-- Take a line from the input. -/
  | readLine
  /-- Print a number. -/
  | emit (n : Number)
  /-- Write a line of text to the output. -/
  | writeLine (text : String)
  /-- The numbers that were captured. -/
  | emitted
  /-- Forget what was captured. -/
  | clear
  /-- The text of a name. -/
  | lookup (name : Identifier)

/-- A request, or a block of commands in a scope of their own. -/
inductive Command where
  | request (r : Request)
  /-- Make a scope in `parent` with some bindings, carry out the inner commands,
  and discard the scope. -/
  | within (parent : Handle) (bindings : List (Identifier × ValueDraft)) (inner : List Command)

end TreeWalk

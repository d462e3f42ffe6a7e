import TreeWalk.Environment

/-!
# Events

A run leaves a record of what it did: each tree it entered, each call and run
from its start to its end, each scope that came or went, each line read and each
number printed.

## Main definitions

* `Event`: one entry of the record
* `Event.text`: its written form
-/

namespace TreeWalk

/-- An entry of the record of a run. -/
inductive Event where
  | runStarted (statements : Nat)
  | runEnded
  /-- A run ended early; this comes before its end. -/
  | runAborted (e : EvalError)
  /-- A tree is about to be evaluated. -/
  | evaluating (kind : Kind)
  /-- A call has begun, and its callee is about to be evaluated. -/
  | callStarted (callee : Kind) (args : Nat)
  | callEnded
  /-- The numbers of parameters and arguments differ. -/
  | arityDiffers (params args : Nat)
  | scopePushed (scope parent : ScopeId)
  | scopePopped (scope : ScopeId)
  /-- A number is about to be printed. -/
  | printed (n : Number)
  /-- An attempt to read came to a line, or to the end of the input. -/
  | lineRead (line : Option String)
  deriving DecidableEq

/-- The written form of a line that may be missing. -/
def Event.lineText : Option String → String
  | some line => "Some(" ++ String.ofList (Text.quote line.toList) ++ ")"
  | none => "None"

/-- The written form of an entry. -/
def Event.text : Event → String
  | .runStarted statements => "DEBUG > run statements=" ++ statements.repr
  | .runEnded => "< run"
  | .runAborted e => "DEBUG run aborted error=" ++ e.message
  | .evaluating kind => "TRACE eval kind=" ++ kind.text
  | .callStarted callee args =>
    "DEBUG > eval_call callee=" ++ callee.text ++ " args=" ++ args.repr
  | .callEnded => "< eval_call"
  | .arityDiffers params args =>
    "DEBUG arity differs, binding positionally params=" ++ params.repr ++ " args=" ++ args.repr
  | .scopePushed scope parent =>
    "TRACE push scope scope=" ++ scope.index.repr ++ " parent=" ++ parent.index.repr
  | .scopePopped scope => "TRACE pop scope scope=" ++ scope.index.repr
  | .printed n => "TRACE print value=" ++ n.text
  | .lineRead line => "TRACE read line=" ++ lineText line

end TreeWalk

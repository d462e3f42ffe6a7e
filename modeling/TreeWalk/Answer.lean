import TreeWalk.Command
import TreeWalk.Machine

/-!
# Answers

Every command is answered by what it came to, together with a view of the
machine afterwards.

## Main definitions

* `Reply`: what a command came to
* `Answer`: a reply, the state of the machine, and the answers of inner commands
-/

namespace TreeWalk

/-- What a command came to. -/
inductive Reply where
  /-- An evaluation came to a value. -/
  | value (v : Value.Description)
  /-- The program went wrong. -/
  | error (e : EvalError)
  /-- A rule of the arena was broken. -/
  | fault (f : Fault)
  /-- No such handle was given out. -/
  | unknownHandle
  /-- A scope was made, and the host knows it by this handle. -/
  | opened (handle : Handle) (scope : ScopeId)
  /-- It was done, and there is nothing to tell. -/
  | done
  /-- What a name stands for, and whether the scope itself binds it. -/
  | binding (found : Option Value.Description) (ownBinding : Bool)
  | scope (id : ScopeId) (parent : Option ScopeId) (live isRoot : Bool)
  | line (text : Option String)
  | emitted (numbers : List Number)
  /-- The text of a name, and the size of the table. -/
  | name (text : String) (tableSize : Nat)

/-- The reply to a run that ended early. -/
def Reply.ofStop : Stop → Reply
  | .error e => .error e
  | .fault f => .fault f

/-- A reply with the state of the machine after the command. -/
structure Answer where
  reply : Reply
  /-- The number of scopes. -/
  depth : Nat
  /-- The number of lines that wait in the input. -/
  left : Nat
  /-- The captured output. -/
  out : String
  /-- The events since the answer before this one. -/
  events : Array Event
  /-- The answers of the inner commands, if the command is a block. -/
  inner : Option (List Answer)

end TreeWalk

import TreeWalk.Answer
import TreeWalk.Eval

/-!
# Sessions

A host keeps one machine and drives it by commands.  The machine lives on
between them: names, scopes, input and output are those that the command before
left.

## Main definitions

* `Setup`, `Session.start`: how a session begins
* `Session`: the machine, a copy of its environment, and the handles
* `Session.respond`: carry out a request
* `Session.perform`, `Session.performAll`: carry out commands
* `Session.conduct`: a session from its beginning to its end

## Design notes

**A command is prepared before it acts.**  First the handle has to be known,
then everything that the command brings along is built; only then does anything
happen.  A command that fails on the way ends there, and the session goes on.

A block discards its scope at its end.  What its inner commands did may have
made that impossible, because scopes after it are still there; then the fault is
the reply of the block.
-/

namespace TreeWalk

/-- How a session begins. -/
structure Setup where
  /-- Texts to enter into the name table first. -/
  names : List String := []
  /-- What the outermost scope binds. -/
  bindings : List (Identifier × ValueDraft) := []
  input : Input := .queue []
  output : Output := .captured ""

/-- A machine in the hands of a host. -/
structure Session where
  machine : Machine
  /-- The environment to go back to. -/
  saved : Environment
  /-- The scopes that were made for the host. -/
  handles : Array ScopeId

/-- A part of a command.  It may end the command early with a reply, and it has no
outcome if an evaluation needs more depth than it was given. -/
abbrev Step (α : Type) : Type := Proc Session Reply α

namespace Session

/-- Begin a session. -/
def start (setup : Setup) : Except EvalError Session :=
  let names := NameTable.initial.internAll setup.names
  let (built, names) := (ValueDraft.buildBindings setup.bindings).runWith names
  built.map fun bindings =>
    { machine :=
        { names
          env := .ofBindings bindings
          input := setup.input
          output := setup.output
          events := #[] }
      saved := .initial
      handles := #[.root] }

/-! ## Parts of commands -/

/-- The scope of a handle. -/
def scopeOf (h : Handle) : Step ScopeId := do
  match (← Proc.get).handles[h]? with
  | some s => return s
  | none => Proc.stop .unknownHandle

/-- Give out a handle to a new scope. -/
def addHandle (s : ScopeId) : Step Handle :=
  ⟨fun session =>
    some (.ok session.handles.size, { session with handles := session.handles.push s })⟩

/-- Build something with the names of the machine. -/
def build {α : Type} (b : Builder α) : Step α :=
  ⟨fun session =>
    let (built, names) := b.runWith session.machine.names
    some (built.mapError .error, { session with machine := { session.machine with names } })⟩

/-- Run something on the machine. -/
def run {α : Type} (x : Run α) : Step α :=
  ⟨fun session =>
    match x.run session.machine with
    | none => none
    | some (outcome, machine) => some (outcome.mapError .ofStop, { session with machine })⟩

/-- Change the machine in a way that cannot fail. -/
def change (f : Machine → Machine) : Step Reply := do
  Proc.modify fun session => { session with machine := f session.machine }
  return .done

/-- The machine as it is now. -/
def machineNow : Step Machine := return (← Proc.get).machine

/-- A value as it is reported now. -/
def describe (v : Value) : Step Value.Description := return v.describe (← machineNow).names

/-- Run an evaluation and report its value. -/
def evaluate (x : Run Value) : Step Reply := do
  let v ← run x
  return .value (← describe v)

/-! ## Requests -/

/-- Carry out a request, with a bound on the depth of evaluation. -/
def respond (depth : Nat) : Request → Step Reply
  | .run program => do
    let program ← build (Draft.buildAll program)
    evaluate (runProgram depth program)
  | .eval node scope times => do
    let s ← scopeOf scope
    let n ← build node.build
    -- A tree evaluated several times over is a block of copies of it.
    evaluate (evalBlock (TreeWalk.eval depth) (List.replicate times n) s)
  | .block body scope => do
    let s ← scopeOf scope
    let body ← build (Draft.buildAll body)
    evaluate (evalBlock (TreeWalk.eval depth) body s)
  | .function params body scope => do
    let s ← scopeOf scope
    let params ← build (Identifier.buildAll params)
    let body ← build (Draft.buildAll body)
    evaluate (evalBody (TreeWalk.eval depth) ⟨params, body⟩ s)
  | .push parent => do
    let p ← scopeOf parent
    let s ← run (Run.pushScope p)
    return .opened (← addHandle s) s
  | .pop scope => do
    let s ← scopeOf scope
    run (Run.popScope s)
    return .done
  | .set scope name value => do
    let s ← scopeOf scope
    let (x, v) ← build (ValueDraft.buildBinding (name, value))
    run (Run.assign s x v)
    return .done
  | .get scope name => do
    let s ← scopeOf scope
    let x ← build name.build
    let env := (← machineNow).env
    match env.get? s x with
    | none => return .binding none (env.bindsLocally s x)
    | some v => return .binding (some (← describe v)) (env.bindsLocally s x)
  | .inspect scope => do
    let s ← scopeOf scope
    let env := (← machineNow).env
    return .scope s (env.parent? s) (decide (env.IsLive s)) (decide (s = .root))
  | .save => do
    Proc.modify fun session => { session with saved := session.machine.env }
    return .done
  | .load => do
    let saved := (← Proc.get).saved
    change fun m => { m with env := saved }
  | .pushLine line => change fun m => { m with input := m.input.pushLine line }
  | .readLine => return .line (← run Run.readLine)
  | .emit n => do
    run (Run.emit n)
    return .done
  | .writeLine text => change fun m => { m with output := m.output.writeLine text }
  | .emitted => return .emitted (← machineNow).output.emitted
  | .clear => change fun m => { m with output := m.output.clear }
  | .lookup name => do
    let x ← build name.build
    let names := (← machineNow).names
    return .name (names.lookup x) names.size

/-! ## Commands -/

/-- Make the scope of a block, with its bindings and a handle to it. -/
def enter (parent : Handle) (bindings : List (Identifier × ValueDraft)) :
    Step (Handle × ScopeId) := do
  let p ← scopeOf parent
  let bindings ← build (ValueDraft.buildBindings bindings)
  let s ← run (Run.pushScope p)
  run (Run.assignAll s bindings)
  return (← addHandle s, s)

/-- Discard the scope of a block. -/
def leave (h : Handle) (s : ScopeId) : Step Reply := do
  run (Run.popScope s)
  return .opened h s

/-- What a command came to, whether or not it ended early. -/
def settle (x : Step Reply) (session : Session) : Option (Reply × Session) :=
  match x.run session with
  | none => none
  | some (.ok reply, session) => some (reply, session)
  | some (.error reply, session) => some (reply, session)

/-- Close a command: the answer takes the events since the one before. -/
def answer (reply : Reply) (inner : Option (List Answer)) (session : Session) : Answer × Session :=
  let m := session.machine
  ({ reply
     depth := m.env.depth
     left := m.input.remaining
     out := m.output.text
     events := m.events
     inner },
    { session with machine := { m with events := #[] } })

mutual

/-- Carry out a command. -/
def perform (depth : Nat) : Command → Session → Option (Answer × Session)
  | .request r, session => do
    let (reply, session) ← settle (respond depth r) session
    return answer reply none session
  | .within parent bindings inner, session =>
    match (enter parent bindings).run session with
    | none => none
    -- The scope was not made, so no inner command is carried out.
    | some (.error reply, session) => some (answer reply (some []) session)
    | some (.ok (h, s), session) => do
      let (answers, session) ← performAll depth inner session
      let (reply, session) ← settle (leave h s) session
      return answer reply (some answers) session

/-- Carry out commands, first to last. -/
def performAll (depth : Nat) : List Command → Session → Option (List Answer × Session)
  | [], session => some ([], session)
  | c :: rest, session => do
    let (a, session) ← perform depth c session
    let (answers, session) ← performAll depth rest session
    return (a :: answers, session)

end

/-- A whole session: the answers, and the session as the last command left it. -/
def conduct (depth : Nat) (setup : Setup) (commands : List Command) :
    Option (Except EvalError (List Answer × Session)) :=
  match start setup with
  | .error e => some (.error e)
  | .ok session => (performAll depth commands session).map .ok

end Session

end TreeWalk

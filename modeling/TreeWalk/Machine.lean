import TreeWalk.Channel.Input
import TreeWalk.Channel.Output
import TreeWalk.Event
import TreeWalk.Proc

/-!
# Machines and runs

A machine is everything that an evaluation can see or change.  A run is a
procedure on a machine.

## Main definitions

* `Machine`: names, scopes, input, output, and the record of events
* `Stop`: why a run ended early
* `Run`: a procedure on a machine
* `Run.withScope`: run inside a new scope

## Design notes

**Three ways of ending are kept apart.**  A run comes to a result, or it stops
with an error of the program or a fault of the arena, or it reaches the bound on
its depth and has no outcome at all.  In the first two cases there is a machine
afterwards: what was printed, read or bound before a stop stays.

The record of events grows at its end and is never read by a run.
-/

namespace TreeWalk

/-- Everything that an evaluation can see or change. -/
structure Machine where
  names : NameTable
  env : Environment
  input : Input
  output : Output
  /-- What happened, oldest first. -/
  events : Array Event

/-- Add an event to the record. -/
def Machine.log (m : Machine) (e : Event) : Machine := { m with events := m.events.push e }

/-- Why a run ended early. -/
inductive Stop where
  /-- The program went wrong. -/
  | error (e : EvalError)
  /-- A rule of the arena was broken. -/
  | fault (f : Fault)
  deriving DecidableEq, Repr

/-- A procedure on a machine. -/
abbrev Run (α : Type) : Type := Proc Machine Stop α

namespace Run

variable {α : Type}

/-- Stop with an error of the program. -/
@[inline] def fail (e : EvalError) : Run α := Proc.stop (.error e)

/-- The outcome of a step that does not use the machine. -/
@[inline] def ofExcept (r : Except EvalError α) : Run α := Proc.ofExcept (r.mapError .error)

/-! ## The record -/

/-- Add an event to the record. -/
@[inline] def record (e : Event) : Run Unit := Proc.modify (·.log e)

/-- Add an event to the record if `x` stops with an error of the program. -/
@[inline] def noting (x : Run α) (note : EvalError → Event) : Run α :=
  ⟨fun m =>
    match x.run m with
    | some (.error (.error e), m) => some (.error (.error e), m.log (note e))
    | outcome => outcome⟩

/-! ## Scopes -/

/-- Bind a name in a scope. -/
def assign (s : ScopeId) (x : Name) (v : Value) : Run Unit :=
  ⟨fun m =>
    match m.env.set s x v with
    | .ok env => some (.ok (), { m with env := env })
    | .error f => some (.error (.fault f), m)⟩

/-- Bind several names in a scope, first to last. -/
def assignAll (s : ScopeId) : Bindings → Run Unit
  | [] => pure ()
  | (x, v) :: rest => do
    assign s x v
    assignAll s rest

/-- Make a new scope in `parent`. -/
def pushScope (parent : ScopeId) : Run ScopeId :=
  ⟨fun m =>
    match m.env.push parent with
    | .ok (s, env) => some (.ok s, { m with env := env }.log (.scopePushed s parent))
    | .error f => some (.error (.fault f), m)⟩

/-- Discard a scope.  There is an event only if a scope went. -/
def popScope (s : ScopeId) : Run Unit :=
  ⟨fun m =>
    if m.env.IsInner s then
      match m.env.pop s with
      | .ok env => some (.ok (), { m with env := env }.log (.scopePopped s))
      | .error f => some (.error (.fault f), m)
    else some (.ok (), m)⟩

/-- Run in a new scope in `parent` that starts with the given bindings.  The
scope is discarded at the end, however the run ends. -/
@[inline] def withScope (parent : ScopeId) (bindings : Bindings) (body : ScopeId → Run α) :
    Run α := do
  let s ← pushScope parent
  Proc.ensuring (do assignAll s bindings; body s) (popScope s)

/-- The value of a name, from a scope outward. -/
def lookup (s : ScopeId) (x : Name) : Run Value :=
  ⟨fun m =>
    match m.env.get? s x with
    | some v => some (.ok v, m)
    | none => some (.error (.error (.undefinedVariable (m.names.lookup x))), m)⟩

/-! ## Channels -/

/-- Print a number. -/
def emit (n : Number) : Run Unit :=
  Proc.modify fun m => { m with output := m.output.emit n }.log (.printed n)

/-- Take a line from the input; `none` at its end.  A line that is no text is an
error, and leaves no event. -/
def readLine : Run (Option String) :=
  ⟨fun m =>
    match m.input.read with
    | (.line text, rest) =>
      some (.ok (some text), { m with input := rest }.log (.lineRead (some text)))
    | (.exhausted, rest) => some (.ok none, { m with input := rest }.log (.lineRead none))
    | (.undecodable, rest) =>
      some (.error (.error (.inputFailed Reading.undecodableMessage)), { m with input := rest })⟩

end Run

end TreeWalk

import TreeWalk.Proofs.Lookahead
import TreeWalk.Proofs.Printing

/-!
# What the record tells

Events come from many places: from scopes that are made and discarded, also on
the way out of a failure, from lines that are taken and from numbers that are
printed.  **Read from its beginning to its end, the record of an evaluation tells
exactly what happened**: which scopes were open at every moment and how they were
nested, what was printed, and which lines were taken.

## Main definitions

* `Event.track`: the scopes that are open after an event
* `Event.Nested`: along some events, scopes come and go like brackets
* `Machine.Records`: from one machine to another, some events were recorded, and
  they tell what became of the scopes and of the input

## Main statements

* `Run.recorded_compositional`: to be recorded like this is inherited by evaluation
* `evaluates_recorded`: the record of every evaluation, however it ends

## Design notes

`track` follows the record without looking at the machine.  It refuses an event
that does not fit the scopes that are open at that moment, so that a record which
it follows to the end has everything in its place.

What the record tells of the output is shown for the single changes of a machine
already (`Evaluates.printsOnRecord`), and is only put together with the rest here.

The record of a part is seen within the record of the whole, where more scopes are
open.  `Nested` therefore speaks of all stacks on which the part may find itself,
and not of the empty one alone.
-/

namespace TreeWalk

/-! ## Reading a record -/

namespace Event

/-- The scopes that are open after an event, innermost first, if those in `stack`
were open before it.  A new scope takes the first position that is free, after the
`depth` scopes of the start, and is nested in the innermost open one, or in `s` if
none is open.  Only the innermost open scope can be discarded. -/
def track (depth : Nat) (s : ScopeId) (stack : List ScopeId) : Event → Option (List ScopeId)
  | .scopePushed new parent =>
    if new.index = depth + stack.length ∧ parent = stack.headD s then some (new :: stack) else none
  | .scopePopped old =>
    match stack with
    | [] => none
    | top :: rest => if old = top then some rest else none
  | _ => some stack

/-- The line that an event says was taken. -/
def line? : Event → Option String
  | .lineRead line => line
  | _ => none

/-- Events of a run in the scope `s`, which found `depth` scopes: whatever scopes
are open around it, those that it opens it closes again, and each stands in its
place. -/
def Nested (depth : Nat) (s : ScopeId) (new : List Event) : Prop :=
  ∀ (base : Nat) (outer : ScopeId) (stack : List ScopeId),
    base + stack.length = depth → stack.headD outer = s →
      new.foldlM (track base outer) stack = some stack

namespace Nested

variable {depth : Nat} {s : ScopeId} {first second : List Event}

theorem nil : Nested depth s [] := fun _ _ _ _ _ => rfl

theorem append (h : Nested depth s first) (h' : Nested depth s second) :
    Nested depth s (first ++ second) := by
  intro base outer stack size top
  rw [List.foldlM_append, h base outer stack size top]
  exact h' base outer stack size top

/-- An event that is not about a scope. -/
theorem singleton {e : Event} (other : ∀ base outer stack, track base outer stack e = some stack) :
    Nested depth s [e] := by
  intro base outer stack _ _
  rw [List.foldlM_cons, other]
  rfl

/-- A body in a scope of its own, between the events of its scope. -/
theorem bracket {inner : List Event} (h : Nested (depth + 1) ⟨depth⟩ inner) :
    Nested depth s (.scopePushed ⟨depth⟩ s :: (inner ++ [.scopePopped ⟨depth⟩])) := by
  intro base outer stack size top
  have pushed : track base outer stack (.scopePushed ⟨depth⟩ s) = some (⟨depth⟩ :: stack) :=
    if_pos ⟨size.symm, top.symm⟩
  have popped : track base outer (⟨depth⟩ :: stack) (.scopePopped ⟨depth⟩) = some stack :=
    if_pos rfl
  have deeper : base + (⟨depth⟩ :: stack : List ScopeId).length = depth + 1 := by
    rw [List.length_cons, ← size, Nat.add_assoc]
  calc (scopePushed ⟨depth⟩ s :: (inner ++ [scopePopped ⟨depth⟩])).foldlM
        (track base outer) stack
      = (inner ++ [scopePopped ⟨depth⟩]).foldlM (track base outer) (⟨depth⟩ :: stack) := by
        rw [List.foldlM_cons, pushed]
        rfl
    _ = [scopePopped ⟨depth⟩].foldlM (track base outer) (⟨depth⟩ :: stack) := by
        rw [List.foldlM_append, h base outer _ deeper rfl]
        rfl
    _ = some stack := by
        rw [List.foldlM_cons, popped]
        rfl

end Nested

end Event

/-! ## Machines -/

/-- From `m` to `m'` the events `new` were recorded by a run in the scope `s`.  They
tell which scopes came and went, and which lines were taken. -/
structure Machine.Records (s : ScopeId) (m m' : Machine) (new : List Event) : Prop where
  events : m'.events.toList = m.events.toList ++ new
  nested : Event.Nested m.env.depth s new
  input : ∀ lines, m.input = .queue lines →
    ∃ left, lines = new.filterMap Event.line? ++ left ∧ m'.input = .queue left

namespace Machine.Records

variable {s : ScopeId} {m m₁ m' : Machine} {new first second : List Event}

/-- A step that changes neither the record nor the input. -/
theorem of_eq (events : m'.events = m.events) (input : m'.input = m.input) :
    Records s m m' [] where
  events := by rw [events, List.append_nil]
  nested := .nil
  input lines waiting := ⟨lines, rfl, input.trans waiting⟩

/-- One record after the other, with as many scopes between them as at the start. -/
theorem trans (h : Records s m m₁ first) (h' : Records s m₁ m' second)
    (depth_eq : m₁.env.depth = m.env.depth) : Records s m m' (first ++ second) where
  events := by rw [h'.events, h.events, List.append_assoc]
  nested := h.nested.append (depth_eq ▸ h'.nested)
  input lines waiting := by
    obtain ⟨rest, rfl, waiting'⟩ := h.input lines waiting
    obtain ⟨left, rfl, waiting''⟩ := h'.input rest waiting'
    refine ⟨left, ?_, waiting''⟩
    rw [List.filterMap_append, List.append_assoc]

/-- An event that tells nothing of scopes or lines. -/
theorem log (m : Machine) {e : Event}
    (other : ∀ base outer stack, e.track base outer stack = some stack)
    (line : e.line? = none) : Records s m (m.log e) [e] where
  events := Array.toList_push
  nested := .singleton other
  input lines waiting := by
    rw [List.filterMap_cons_none line]
    exact ⟨lines, rfl, waiting⟩

theorem emit (m : Machine) (n : Number) :
    Records s m ({ m with output := m.output.emit n }.log (.printed n)) [.printed n] where
  events := Array.toList_push
  nested := .singleton fun _ _ _ => rfl
  input lines waiting := ⟨lines, rfl, waiting⟩

/-- A line that is taken, or the end of the input, is recorded. -/
theorem read {m : Machine} {line : Option String} {rest : Input}
    (taken : ∀ lines, m.input = .queue lines →
      ∃ left, lines = line.toList ++ left ∧ rest = .queue left) :
    Records s m ({ m with input := rest }.log (.lineRead line)) [.lineRead line] where
  events := Array.toList_push
  nested := .singleton fun _ _ _ => rfl
  input lines waiting := by
    obtain ⟨left, split, waiting'⟩ := taken lines waiting
    refine ⟨left, ?_, waiting'⟩
    cases line <;> exact split

/-- A body in a scope of its own. -/
theorem within {bindings : Bindings} {inner : List Event}
    (h : Records ⟨m.env.depth⟩ (m.enter s bindings) m' inner) :
    Records s m (m.resume m')
      (.scopePushed ⟨m.env.depth⟩ s :: (inner ++ [.scopePopped ⟨m.env.depth⟩])) where
  events := by
    have before : (m.enter s bindings).events.toList =
        m.events.toList ++ [.scopePushed ⟨m.env.depth⟩ s] := Array.toList_push
    have after : (m.resume m').events.toList =
        m'.events.toList ++ [.scopePopped ⟨m.env.depth⟩] := Array.toList_push
    rw [after, h.events, before, List.append_assoc, List.append_assoc]
    rfl
  nested := .bracket (m.env.depth_enter s bindings ▸ h.nested)
  input lines waiting := by
    rw [List.filterMap_cons_none rfl, List.filterMap_append, List.filterMap_cons_none rfl,
      List.filterMap_nil, List.append_nil]
    exact h.input lines waiting

end Machine.Records

/-! ## Runs -/

namespace Run

variable {α β : Type} {T : Set Name} {s : ScopeId}

/-- A run works in the scope `s`, within its allowance, and wherever that scope is
there the record tells what the run did. -/
structure Recorded (T : Set Name) (s : ScopeId) (x : Run α) : Prop where
  confined : Confined T s x
  records : ∀ m, m.env.IsLive s → ∀ r m', x.run m = some (r, m') → ∃ new, m.Records s m' new

namespace Recorded

/-- A step that changes neither the record nor the input. -/
theorem of_eq {x : Run α} (confined : Confined T s x)
    (same : ∀ m r m', x.run m = some (r, m') → m'.events = m.events ∧ m'.input = m.input) :
    Recorded T s x := by
  refine ⟨confined, fun m _ r m' run => ⟨[], ?_⟩⟩
  obtain ⟨events, input⟩ := same m r m' run
  exact .of_eq events input

theorem ofExcept (r : Except EvalError α) : Recorded T s (Run.ofExcept r) := by
  refine of_eq (confined_ofExcept r) ?_
  rintro m _ m' ⟨⟩
  exact ⟨rfl, rfl⟩

theorem pure (a : α) : Recorded T s (Pure.pure a : Run α) := ofExcept (.ok a)

theorem bind {x : Run α} {f : α → Run β} (hx : Recorded T s x) (hf : ∀ a, Recorded T s (f a)) :
    Recorded T s (x >>= f) := by
  refine ⟨hx.confined.bind fun a => (hf a).confined, fun m live r m' run => ?_⟩
  rcases Proc.run_bind_eq_some_iff.mp run with ⟨a, m₁, first, second⟩ | ⟨e, m₁, first, outcome⟩
  · obtain ⟨-, changes⟩ := hx.confined m live _ m₁ first
    obtain ⟨new, before⟩ := hx.records m live _ m₁ first
    obtain ⟨more, after⟩ := (hf a).records m₁ (changes.isLive_iff.mpr live) r m' second
    exact ⟨new ++ more, before.trans after changes.depth_eq⟩
  · cases outcome
    exact hx.records m live _ _ first

theorem lookup (x : Name) : Recorded T s (lookup s x) := by
  refine of_eq (confined_lookup x) fun m r m' run => ?_
  simp only [Run.lookup] at run
  split at run <;> cases run <;> exact ⟨rfl, rfl⟩

theorem assign {x : Name} (v : Value) (allowed : x ∈ T) : Recorded T s (assign s x v) := by
  refine of_eq (confined_assign v allowed) fun m r m' run => ?_
  simp only [Run.assign] at run
  split at run <;> cases run <;> exact ⟨rfl, rfl⟩

theorem emit (n : Number) : Recorded T s (emit n) := by
  refine ⟨confined_modify fun _ => rfl, ?_⟩
  rintro m - r m' ⟨⟩
  exact ⟨_, .emit m n⟩

theorem record {e : Event} (other : ∀ base outer stack, e.track base outer stack = some stack)
    (line : e.line? = none) : Recorded T s (record e) := by
  refine ⟨confined_modify fun _ => rfl, ?_⟩
  rintro m - r m' ⟨⟩
  exact ⟨_, .log m other line⟩

/-- Taking a line, or an attempt at it. -/
theorem readLine : Recorded T s readLine := by
  refine ⟨confined_readLine, fun m _ r m' run => ?_⟩
  rcases read : m.input.read with ⟨reading, rest⟩
  -- Of a queue, a reading says which line was at its front.
  have front : ∀ lines, m.input = .queue lines →
      Input.read (.queue lines) = (reading, rest) := by
    rintro lines waiting
    rw [← waiting, read]
  cases reading with
  | line text =>
    rw [run_readLine_line read] at run
    cases run
    refine ⟨_, .read fun lines waiting => ?_⟩
    have taken := front lines waiting
    cases lines with
    | nil => cases taken
    | cons line left =>
      cases taken
      exact ⟨left, rfl, rfl⟩
  | exhausted =>
    rw [run_readLine_exhausted read] at run
    cases run
    refine ⟨_, .read fun lines waiting => ?_⟩
    have taken := front lines waiting
    cases lines with
    | nil =>
      cases taken
      exact ⟨[], rfl, rfl⟩
    | cons line left => cases taken
  | undecodable =>
    rw [run_readLine_undecodable read] at run
    cases run
    refine ⟨[], (List.append_nil _).symm, .nil, fun lines waiting => ?_⟩
    have taken := front lines waiting
    cases lines <;> cases taken

theorem evalRead {x : Name} (allowed : x ∈ T) : Recorded T s (evalRead x s) :=
  evalRead_of_parts (P := fun _ y => Recorded T s y) .bind .pure .readLine
    (fun e => .ofExcept (.error e)) fun k => .assign (.number k) allowed

/-- Notes at the start and at the end, of things that are not about scopes. -/
theorem noted {x : Run α} (hx : Recorded T s x) (callee : Kind) (args : Nat) :
    Recorded T s (do
      Run.record (.callStarted callee args)
      x.ensuring (Run.record .callEnded)) := by
  refine ⟨hx.confined.noted _ _, fun m live r m' run => ?_⟩
  rw [Proc.run_bind_of_ok rfl, Run.record, Proc.run_ensuring_modify, Option.map_eq_some_iff] at run
  obtain ⟨⟨r, m₁⟩, inner, outcome⟩ := run
  cases outcome
  obtain ⟨-, changes⟩ := hx.confined (m.log _) live r m₁ inner
  obtain ⟨new, during⟩ := hx.records (m.log _) live r m₁ inner
  have start : m.Records s (m.log (.callStarted callee args)) [.callStarted callee args] :=
    .log m (fun _ _ _ => rfl) rfl
  have finish : m₁.Records s (m₁.log .callEnded) [.callEnded] :=
    .log m₁ (fun _ _ _ => rfl) rfl
  exact ⟨_, (start.trans during rfl).trans finish changes.depth_eq⟩

theorem withScope {bindings : Bindings} {body : ScopeId → Run α}
    (h : ∀ t, Recorded Set.univ t (body t)) : Recorded T s (withScope s bindings body) := by
  refine ⟨confined_withScope fun t => (h t).confined, fun m live r m' run => ?_⟩
  rw [run_withScope_of_confined live bindings (h _).confined, Option.map_eq_some_iff] at run
  obtain ⟨⟨r, m₁⟩, inner, outcome⟩ := run
  cases outcome
  obtain ⟨new, during⟩ := (h _).records _ (m.isLive_enter s bindings) r m₁ inner
  exact ⟨_, during.within⟩

end Recorded

/-- **That the record tells what was done is inherited by evaluation.** -/
theorem recorded_compositional : Compositional fun _ T s x => Recorded T s x where
  noOutcome := .of_eq confined_compositional.noOutcome (by rintro m r m' ⟨⟩)
  pure a := .pure a
  bind hx hf := hx.bind hf
  ofExcept _ := .ofExcept _
  lookup x := .lookup x
  assign v allowed := .assign v allowed
  emit n := .emit n
  read allowed := .evalRead allowed
  evaluating _ := .record (fun _ _ _ => rfl) rfl
  arityDiffers _ _ := .record (fun _ _ _ => rfl) rfl
  noted callee args hx := hx.noted callee args
  withScope h := .withScope h

end Run

/-! ## The record of an evaluation -/

theorem eval_recorded (depth : Nat) (n : Node) (s : ScopeId) :
    Run.Recorded Set.univ s (eval depth n s) :=
  Run.recorded_compositional.eval depth n s Set.univ fun _ _ => Set.mem_univ _

/-- **The record of an evaluation tells what happened.**  However an evaluation in a
scope that is there ends, it has added some events to the record.  Followed from the
first to the last, they open and close scopes like brackets: each scope that is
discarded is the one that was opened last of those still open, and each new one
stands right after the scopes that are there and is nested in the innermost open
one, or in the scope of the evaluation.  The numbers in the events are those that
were printed, in order, whatever the output does with them; and the lines in the
events are those that were taken from the front of a queue. -/
theorem evaluates_recorded {n : Node} {s : ScopeId} {m m' : Machine} {r : Except Stop Value}
    (live : m.env.IsLive s) (h : Evaluates n s m (r, m')) :
    ∃ new : List Event, m'.events.toList = m.events.toList ++ new ∧
      new.foldlM (Event.track m.env.depth s) [] = some [] ∧
      m'.output = (new.filterMap Event.number?).foldl Output.emit m.output ∧
      (∀ out, Evaluates n s { m with output := out }
        (r, { m' with output := (new.filterMap Event.number?).foldl Output.emit out })) ∧
      ∀ lines, m.input = .queue lines →
        ∃ left, lines = new.filterMap Event.line? ++ left ∧ m'.input = .queue left := by
  obtain ⟨new, records⟩ : ∃ new, m.Records s m' new := by
    obtain ⟨depth, run⟩ := h
    exact (eval_recorded depth n s).records m live r m' run
  -- An output has received what the record tells, since the events are the same in any case.
  have received (k k' : Machine) (events : k.events = m.events) (events' : k'.events = m'.events)
      (h : Evaluates n s k (r, k')) :
      k'.output = (new.filterMap Event.number?).foldl Output.emit k.output := by
    obtain ⟨new', told, output⟩ := h.printsOnRecord
    rw [events, events', records.events] at told
    obtain rfl : new = new' := List.append_cancel_left told
    rw [output, Output.foldl_emit]
  refine ⟨new, records.events, records.nested _ s [] rfl rfl, received m m' rfl rfl h,
    fun out => ?_, records.input⟩
  obtain ⟨_, h', values, -, rfl⟩ := (matched_of_outputs n s m m.output out).1 (r, m') h
  have told := received { m with output := out }
    { m' with output := out.append (Output.linesOf values) } rfl rfl h'
  rw [← told]
  exact h'

/-- A call whose argument is a call itself.  The inner one reads a line and prints it,
with the output thrown away; then the outer body makes a call of its own, which
fails. -/
theorem evaluates_recorded_nested_calls :
    let inner : Node := .call (.define ⟨1⟩ [] [.print (.read ⟨2⟩)]) []
    let failing : Node := .call (.define ⟨5⟩ [] [.reference ⟨6⟩]) []
    let outer : Node := .call (.define ⟨3⟩ [⟨4⟩] [failing]) [inner]
    let m : Machine := ⟨.initial, .initial, .queue ["42", "x"], .silent, #[]⟩
    let stop : Except Stop Value := .error (.error (.undefinedVariable "<unknown>"))
    m.env.IsLive .root ∧ ∃ m', Evaluates outer .root m (stop, m') ∧
      m'.events.toList.foldlM (Event.track 1 .root) [] = some [] ∧
      m'.events.toList.filterMap Event.number? = [42] ∧
      m'.events.toList.filterMap Event.line? = ["42"] ∧
      ∃ k, Evaluates outer .root { m with output := .captured "" } (stop, k) ∧
        k.output = .captured "42\n" := by
  intro inner failing outer m stop
  have live : m.env.IsLive .root := by decide
  have run : ((eval 6 outer .root).run m).map (fun o =>
      (o.1, o.2.events.toList.filterMap Event.number?, o.2.events.toList.filterMap Event.line?)) =
        some (stop, [42], ["42"]) := by decide +kernel
  obtain ⟨⟨_, m'⟩, run, told⟩ := Option.map_eq_some_iff.mp run
  rw [Prod.mk.injEq, Prod.mk.injEq] at told
  obtain ⟨rfl, numbers, lines⟩ := told
  obtain ⟨new, events, nested, -, printed, -⟩ := evaluates_recorded live ⟨6, run⟩
  obtain rfl : m'.events.toList = new := events
  refine ⟨live, m', ⟨6, run⟩, nested, numbers, lines, _, printed (.captured ""), ?_⟩
  rw [numbers]
  rfl

end TreeWalk

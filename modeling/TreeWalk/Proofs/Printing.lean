import TreeWalk.Proofs.Invariant
import TreeWalk.Proofs.Simulation

/-!
# Output does not matter

A program cannot see what becomes of the numbers it prints.  **Under every output
it does the same**, to the last binding and the last line read, and it prints the
same numbers; the output decides only whether they are kept, shown or thrown
away.  Each number that the record says was printed has its line, also where the
evaluation failed later on, and nothing else is written.

## Main definitions

* `Output.linesOf`: the text that printed numbers make
* `Output.append`: an output with more text at its end
* `Machine.PrintsOnRecord`: what was written is what the record says was printed
* `Machine.PrintsAlike`: two machines that differ at most in what their outputs
  held at the start

## Main statements

* `Evaluates.printsOnRecord`: every evaluation writes the numbers on its record
* `evaluates_under_every_output`: one outcome and one list of printed numbers for
  all outputs, which is that of the record, and what a single print adds to it

## Design notes

A silent output forgets the numbers, but the record does not: a print leaves an
event whatever the output is.  **The list is the one on the record.**  That an
evaluation writes just these numbers is shown for the single changes of the machine;
that it is the same evaluation under every output is shown by comparing it with one
that captures everything from the empty text on.
-/

namespace TreeWalk

namespace Output

/-- The text that numbers make: each in decimal, on a line of its own, in order. -/
def linesOf : List Number → String
  | [] => ""
  | n :: rest => line n.text ++ linesOf rest

/-- An output with more text at its end, where it is kept or shown at all. -/
def append (out : Output) (new : String) : Output :=
  match out with
  | .captured old => .captured (old ++ new)
  | .silent => .silent
  | .console old => .console (old ++ new)

theorem linesOf_append (values more : List Number) :
    linesOf (values ++ more) = linesOf values ++ linesOf more := by
  induction values with
  | nil => exact String.empty_append.symm
  | cons v rest ih => rw [List.cons_append, linesOf, linesOf, ih, String.append_assoc]

theorem linesOf_singleton (n : Number) : linesOf [n] = line n.text := String.append_empty

@[simp] theorem append_empty (out : Output) : out.append "" = out := by
  cases out with
  | captured old => rw [append, String.append_empty]
  | silent => rfl
  | console old => rw [append, String.append_empty]

theorem append_append (out : Output) (new newer : String) :
    (out.append new).append newer = out.append (new ++ newer) := by
  cases out with
  | captured old => simp only [append, String.append_assoc]
  | silent => rfl
  | console old => simp only [append, String.append_assoc]

theorem emit_eq_append (out : Output) (n : Number) : out.emit n = out.append (line n.text) := by
  cases out <;> rfl

/-- Numbers that are written one after another are so many lines. -/
theorem foldl_emit (out : Output) (values : List Number) :
    values.foldl emit out = out.append (linesOf values) := by
  induction values generalizing out with
  | nil => exact out.append_empty.symm
  | cons v rest ih => rw [List.foldl_cons, ih, emit_eq_append, append_append, linesOf]

/-- One more number is one more line. -/
theorem emit_append_linesOf (out : Output) (values : List Number) (n : Number) :
    (out.append (linesOf values)).emit n = out.append (linesOf (values ++ [n])) := by
  rw [emit_eq_append, append_append, linesOf_append, linesOf_singleton]

end Output

/-! ## The record -/

/-- From `m` to `m'` some events were recorded, and the numbers among them are those
that were written. -/
def Machine.PrintsOnRecord (m m' : Machine) : Prop :=
  ∃ new : List Event, m'.events.toList = m.events.toList ++ new ∧
    m'.output = m.output.append (Output.linesOf (new.filterMap Event.number?))

namespace Machine.PrintsOnRecord

variable {m m₁ m' : Machine}

/-- A step that changes neither the record nor the output. -/
theorem of_eq (events : m'.events = m.events) (output : m'.output = m.output) :
    m.PrintsOnRecord m' := by
  refine ⟨[], ?_, ?_⟩
  · rw [events, List.append_nil]
  · rw [output]
    exact m.output.append_empty.symm

theorem trans (h : m.PrintsOnRecord m₁) (h' : m₁.PrintsOnRecord m') : m.PrintsOnRecord m' := by
  obtain ⟨new, events, output⟩ := h
  obtain ⟨newer, events', output'⟩ := h'
  refine ⟨new ++ newer, ?_, ?_⟩
  · rw [events', events, List.append_assoc]
  · rw [output', output, Output.append_append, List.filterMap_append, Output.linesOf_append]

/-- An event of another kind comes with nothing written. -/
theorem log (m : Machine) {e : Event} (other : e.number? = none) : m.PrintsOnRecord (m.log e) := by
  refine ⟨[e], Array.toList_push, ?_⟩
  rw [List.filterMap_cons_none other]
  exact m.output.append_empty.symm

/-- A number comes with its line. -/
theorem emit (m : Machine) (n : Number) :
    m.PrintsOnRecord ({ m with output := m.output.emit n }.log (.printed n)) := by
  refine ⟨[.printed n], Array.toList_push, ?_⟩
  show m.output.emit n = m.output.append (Output.linesOf [n])
  rw [Output.linesOf_singleton, Output.emit_eq_append]

end Machine.PrintsOnRecord

theorem Machine.stable_printsOnRecord : Machine.Stable PrintsOnRecord where
  refl _ := .of_eq rfl rfl
  trans _ _ _ := .trans
  log m _ other := .log m other
  set _ := .of_eq rfl rfl
  push _ := .of_eq rfl rfl
  pop _ := .of_eq rfl rfl
  emit := .emit
  read _ := .of_eq rfl rfl

/-- **Every evaluation writes the numbers on its record**, however it ends. -/
theorem Evaluates.printsOnRecord {n : Node} {s : ScopeId} {m m' : Machine}
    {r : Except Stop Value} (h : Evaluates n s m (r, m')) : m.PrintsOnRecord m' := by
  obtain ⟨depth, run⟩ := h
  exact Machine.stable_printsOnRecord.eval depth n s m r m' run

/-! ## Two outputs -/

/-- Since their outputs were `a` and `b`, the two machines have printed the same
numbers, read the same lines and recorded the same events. -/
structure Machine.PrintsAlike (a b : Output) (m k : Machine) : Prop where
  input_eq : k.input = m.input
  events_eq : k.events = m.events
  printed : ∃ values, m.output = a.append (Output.linesOf values) ∧
    k.output = b.append (Output.linesOf values)

theorem Machine.PrintsAlike.refl (m : Machine) (a b : Output) :
    PrintsAlike a b { m with output := a } { m with output := b } :=
  ⟨rfl, rfl, [], a.append_empty.symm, b.append_empty.symm⟩

/-- No step of an evaluation can tell two outputs apart. -/
theorem Machine.channelSimulation_printsAlike (a b : Output) :
    ChannelSimulation (PrintsAlike a b) where
  env _ _ alike := ⟨alike.input_eq, alike.events_eq, alike.printed⟩
  log e alike := ⟨alike.input_eq, congrArg (·.push e) alike.events_eq, alike.printed⟩
  emit := by
    rintro m k n ⟨input_eq, events_eq, values, before, before'⟩
    refine ⟨input_eq, events_eq, values ++ [n], ?_, ?_⟩
    · rw [before, Output.emit_append_linesOf]
    · rw [before', Output.emit_append_linesOf]
  readLine := by
    refine Run.readLine_lockstep (fun alike => alike.input_eq) ?_ ?_
    · exact fun _ alike => ⟨rfl, alike.events_eq, alike.printed⟩
    · exact fun e alike => ⟨alike.input_eq, congrArg (·.push e) alike.events_eq, alike.printed⟩

/-- Evaluations under two outputs come to the same outcome, and leave machines that
differ in what was there at the start. -/
theorem matched_of_outputs (n : Node) (s : ScopeId) (m : Machine) (a b : Output) :
    Matched
      (fun o o' => ∃ values, o.2.output = a.append (Output.linesOf values) ∧
        o' = (o.1, { o.2 with output := b.append (Output.linesOf values) }))
      (Evaluates n s { m with output := a }) (Evaluates n s { m with output := b }) := by
  have sim := Machine.channelSimulation_printsAlike a b
  have start := Machine.PrintsAlike.refl m a b
  refine (sim.matched_of_env_eq start rfl rfl).imp ?_
  rintro ⟨r, m'⟩ ⟨r', ⟨names, env, input, output, events⟩⟩
    ⟨same, env_eq, names_eq, input_eq, events_eq, values, printed, printed'⟩
  dsimp only at same env_eq names_eq input_eq events_eq printed'
  subst same env_eq names_eq input_eq events_eq printed'
  exact ⟨values, printed, rfl⟩

/-! ## A single print -/

/-- A print that finds a number adds one line, and its value is that number. -/
theorem evaluates_print_number {operand : Node} {s : ScopeId} {m m' : Machine} {k : Number}
    (h : Evaluates operand s (m.log (.evaluating .print)) (.ok (.number k), m')) :
    Evaluates (.print operand) s m
      (.ok (.number k),
        { m' with output := m'.output.append (Output.line k.text) }.log (.printed k)) := by
  obtain ⟨depth, run⟩ := h
  refine ⟨depth + 1, (Proc.run_bind_of_ok run _).trans ?_⟩
  rw [← Output.emit_eq_append]
  rfl

/-- A print that finds something else adds nothing. -/
theorem evaluates_print_other {operand : Node} {s : ScopeId} {m m' : Machine} {v : Value}
    (h : Evaluates operand s (m.log (.evaluating .print)) (.ok v, m'))
    (other : ∀ k, v ≠ .number k) :
    Evaluates (.print operand) s m
      (.error (.error (.typeMismatch "number" v.typeName)), m') := by
  obtain ⟨depth, run⟩ := h
  have mismatch : v.toNumber = .error (.typeMismatch "number" v.typeName) :=
    Value.toNumber_eq_error_iff.mpr ⟨other, rfl⟩
  refine ⟨depth + 1, (Proc.run_bind_of_ok run _).trans ?_⟩
  rw [mismatch]
  rfl

/-- A print whose operand fails fails like it, and adds nothing. -/
theorem evaluates_print_error {operand : Node} {s : ScopeId} {m m' : Machine} {e : Stop}
    (h : Evaluates operand s (m.log (.evaluating .print)) (.error e, m')) :
    Evaluates (.print operand) s m (.error e, m') := by
  obtain ⟨depth, run⟩ := h
  exact ⟨depth + 1, Proc.run_bind_of_error run _⟩

/-! ## All outputs -/

/-- **Output is added to, line by line, and never looked at.**  Either an evaluation
comes to no outcome, whatever the output; or it comes to one outcome under every
output, with the same environment, the same input left and the same record, and
what was captured or shown before is followed by one line for each number that the
record says was printed, in order.  This is so whether it succeeds or fails: nothing
that was printed before a failure is lost.

A print adds to that list the number that its operand comes to.  If the operand
fails, or comes to no number, the print fails and leaves the machine as the
operand left it. -/
theorem evaluates_under_every_output (n : Node) (s : ScopeId) (m : Machine) :
    ((∀ out o, ¬ Evaluates n s { m with output := out } o) ∨
      ∃ (r : Except Stop Value) (m' : Machine) (new : List Event),
        m'.events.toList = m.events.toList ++ new ∧
        ∀ out, Evaluates n s { m with output := out }
          (r, { m' with
            output := out.append (Output.linesOf (new.filterMap Event.number?)) })) ∧
    ∀ operand, n = .print operand →
      ∀ (r : Except Stop Value) (m' : Machine),
        Evaluates operand s (m.log (.evaluating .print)) (r, m') →
        (∀ k, r = .ok (.number k) →
          Evaluates n s m (.ok (.number k),
            { m' with output := m'.output.append (Output.line k.text) }.log (.printed k))) ∧
        (∀ v, r = .ok v → (∀ k, v ≠ .number k) →
          Evaluates n s m (.error (.error (.typeMismatch "number" v.typeName)), m')) ∧
        ∀ e, r = .error e → Evaluates n s m (.error e, m') := by
  constructor
  · by_cases settled : ∃ o, Evaluates n s { m with output := .captured "" } o
    · obtain ⟨⟨r, m'⟩, h⟩ := settled
      have under (out : Output) := (matched_of_outputs n s m (.captured "") out).1 _ h
      obtain ⟨new, events, recorded⟩ := h.printsOnRecord
      refine .inr ⟨r, m', new, events, fun out => ?_⟩
      obtain ⟨_, h', values, printed, rfl⟩ := under out
      -- The list may be another one, but the text is what was captured from the
      -- empty text on.
      have captured : Output.captured ("" ++ Output.linesOf values) =
          .captured ("" ++ Output.linesOf (new.filterMap Event.number?)) :=
        printed.symm.trans recorded
      have same : Output.linesOf values = Output.linesOf (new.filterMap Event.number?) := by
        rw [Output.captured.injEq, String.empty_append, String.empty_append] at captured
        exact captured
      rw [same] at h'
      exact h'
    · refine .inl fun out o h => settled ?_
      obtain ⟨o', h', -⟩ := (matched_of_outputs n s m (.captured "") out).2 o h
      exact ⟨o', h'⟩
  · rintro operand rfl r m' h
    refine ⟨?_, ?_, ?_⟩
    · rintro k rfl
      exact evaluates_print_number h
    · rintro v rfl other
      exact evaluates_print_other h other
    · rintro e rfl
      exact evaluates_print_error h

/-- A number is printed, and then a call prints another one and fails, since it also
prints a function.  Under every output both lines stay, and the record has the two
numbers; and the print that failed leaves what its operand left. -/
theorem evaluates_under_every_output_failing_call :
    let m : Machine := ⟨.initial, .initial, .queue [], .silent, #[]⟩
    let f : Node := .define ⟨1⟩ [] []
    let n : Node := .literal []
      [.print (.number 5), .call (.define ⟨2⟩ [] [.print (.number 7), .print f]) []]
    let stop : Except Stop Value := .error (.error (.typeMismatch "number" "function"))
    (∃ m' : Machine, m'.events.toList.filterMap Event.number? = [5, 7] ∧
      ∀ out, Evaluates n .root { m with output := out }
        (stop, { m' with output := out.append "5\n7\n" })) ∧
    ∃ m', Evaluates f .root (m.log (.evaluating .print)) (.ok (.function ⟨[], []⟩), m') ∧
      Evaluates (.print f) .root m (stop, m') := by
  intro m f n stop
  constructor
  · have run : ((eval 5 n .root).run { m with output := .captured "" }).map
        (fun o => (o.1, o.2.events.toList.filterMap Event.number?)) = some (stop, [5, 7]) := by
      decide +kernel
    obtain ⟨⟨_, m₁⟩, run, told⟩ := Option.map_eq_some_iff.mp run
    rw [Prod.mk.injEq] at told
    obtain ⟨rfl, numbers⟩ := told
    obtain ⟨never | ⟨r, m', new, events, under⟩, -⟩ := evaluates_under_every_output n .root m
    · exact absurd ⟨5, run⟩ (never _ _)
    · have same := (under (.captured "")).unique ⟨5, run⟩
      rw [Prod.mk.injEq] at same
      obtain ⟨rfl, rfl⟩ := same
      obtain rfl : m'.events.toList = new := events
      rw [numbers] at under
      exact ⟨m', numbers, under⟩
  · obtain ⟨m', run⟩ : ∃ m', (eval 1 f .root).run (m.log (.evaluating .print)) =
        some (.ok (.function ⟨[], []⟩), m') := ⟨_, rfl⟩
    have print := (evaluates_under_every_output (.print f) .root m).2 f rfl _ m' ⟨1, run⟩
    exact ⟨m', ⟨1, run⟩, print.2.1 _ rfl nofun⟩

end TreeWalk

import TreeWalk.Proofs.Confinement
import TreeWalk.Proofs.Invariant

/-!
# Evaluation does not look ahead

Lines that wait behind those an evaluation reads make no difference to it.  **If
more lines are put at the end of the input, an evaluation that did not run out of
lines does the same again and leaves these as well**; and one that did run out
goes, with more lines, through everything it did before.

## Main definitions

* `Output.ContinuedBy`: one output is the other with something written after it
* `Machine.Advances`: lines are taken from the front, and text is added at the end
* `Machine.feed`: the machine with more lines at the end of its input
* `Run.Local`: a run does not look ahead

## Main statements

* `Run.local_compositional`: this is inherited by evaluation
* `evaluates_feed`: evaluation depends only on the lines that it reads

## Design notes

The two runs part where the first one runs out, in the midst of whatever was
going on there, and no relation between them can be kept from there on.  What is
kept is one-sided: the output of the exhausted run can no longer change, and the
output of the other can only grow.

A scope that is discarded must not turn an exhausted run into a fault, since the
other run would know nothing of it.  This is why confinement comes in.
-/

namespace TreeWalk

/-! ## Lines taken and text added -/

/-- `out'` is `out` with something written after it. -/
inductive Output.ContinuedBy : Output → Output → Prop where
  | captured (old new : String) : ContinuedBy (.captured old) (.captured (old ++ new))
  | silent : ContinuedBy .silent .silent
  | console (old new : String) : ContinuedBy (.console old) (.console (old ++ new))

namespace Output.ContinuedBy

@[refl] theorem refl (out : Output) : out.ContinuedBy out := by
  cases out with
  | captured text => simpa using captured text ""
  | silent => exact silent
  | console shown => simpa using console shown ""

theorem trans {a b c : Output} (h : a.ContinuedBy b) (h' : b.ContinuedBy c) :
    a.ContinuedBy c := by
  cases h with
  | captured old new =>
    cases h' with
    | captured _ newer =>
      rw [String.append_assoc]
      exact captured old (new ++ newer)
  | silent => exact h'
  | console old new =>
    cases h' with
    | console _ newer =>
      rw [String.append_assoc]
      exact console old (new ++ newer)

theorem emit (out : Output) (n : Number) : out.ContinuedBy (out.emit n) := by
  cases out with
  | captured text => exact captured text _
  | silent => exact silent
  | console shown => exact console shown _

end Output.ContinuedBy

/-- From `m` to `m'`, lines were taken from the front of a queue, and text was
added at the end of the output. -/
structure Machine.Advances (m m' : Machine) : Prop where
  input : ∀ lines, m.input = .queue lines →
    ∃ used left, lines = used ++ left ∧ m'.input = .queue left
  output : m.output.ContinuedBy m'.output

namespace Machine.Advances

variable {m₁ m₂ m₃ : Machine}

theorem of_eq (input : m₂.input = m₁.input) (output : m₂.output = m₁.output) :
    m₁.Advances m₂ where
  input lines waiting := ⟨[], lines, rfl, input.trans waiting⟩
  output := output ▸ .refl m₁.output

theorem trans (h : m₁.Advances m₂) (h' : m₂.Advances m₃) : m₁.Advances m₃ where
  input lines waiting := by
    obtain ⟨used, rest, rfl, waiting'⟩ := h.input lines waiting
    obtain ⟨used', left, rfl, waiting''⟩ := h'.input rest waiting'
    exact ⟨used ++ used', left, (List.append_assoc used used' left).symm, waiting''⟩
  output := h.output.trans h'.output

/-- A number is written. -/
theorem emit (n : Number) (input : m₂.input = m₁.input) (output : m₂.output = m₁.output.emit n) :
    m₁.Advances m₂ where
  input lines waiting := ⟨[], lines, rfl, input.trans waiting⟩
  output := output ▸ .emit m₁.output n

theorem read (m : Machine) : m.Advances { m with input := m.input.read.2 } where
  input lines waiting := by
    show ∃ used left, lines = used ++ left ∧ m.input.read.2 = .queue left
    rw [waiting]
    cases lines with
    | nil => exact ⟨[], [], rfl, rfl⟩
    | cons line rest => exact ⟨[line], rest, rfl, rfl⟩
  output := .refl m.output

end Machine.Advances

theorem Machine.stable_advances : Machine.Stable Advances where
  refl _ := .of_eq rfl rfl
  trans _ _ _ := .trans
  log _ _ _ := .of_eq rfl rfl
  set _ := .of_eq rfl rfl
  push _ := .of_eq rfl rfl
  pop _ := .of_eq rfl rfl
  emit _ n := .emit n rfl rfl
  read := .read

/-! ## More lines -/

/-- Put lines at the end of a queue, one after another.  A stream takes none. -/
def Input.feed (input : Input) (lines : List String) : Input :=
  lines.foldl (fun input line => input.pushLine line) input

/-- The machine with more lines at the end of its input. -/
def Machine.feed (m : Machine) (lines : List String) : Machine :=
  { m with input := m.input.feed lines }

namespace Input

theorem feed_queue (waiting lines : List String) :
    (queue waiting).feed lines = queue (waiting ++ lines) := by
  induction lines generalizing waiting with
  | nil => rw [List.append_nil]; rfl
  | cons line rest ih =>
    rw [List.append_cons]
    exact ih (waiting ++ [line])

theorem feed_stream (bytes : List UInt8) (lines : List String) :
    (stream bytes).feed lines = stream bytes := by
  induction lines with
  | nil => rfl
  | cons line rest ih => exact ih

/-- An attempt to read that does not find the input exhausted does not see what
stands behind. -/
theorem read_feed {input rest : Input} {reading : Reading} (h : input.read = (reading, rest))
    (found : reading ≠ .exhausted) (lines : List String) :
    (input.feed lines).read = (reading, rest.feed lines) := by
  cases input with
  | queue waiting =>
    cases waiting with
    | nil =>
      cases h
      exact absurd rfl found
    | cons line left =>
      cases h
      rw [feed_queue, feed_queue]
      rfl
  | stream bytes =>
    obtain ⟨bytes', rfl⟩ : ∃ bytes', rest = stream bytes' := by
      cases bytes <;> cases h <;> exact ⟨_, rfl⟩
    rw [feed_stream, feed_stream, h]

/-- What is found exhausted stays as it is. -/
theorem eq_of_read_exhausted {input rest : Input} (h : input.read = (.exhausted, rest)) :
    rest = input := by
  cases input with
  | queue waiting =>
    cases waiting with
    | nil => cases h; rfl
    | cons line left => cases h
  | stream bytes =>
    cases bytes with
    | nil => cases h; rfl
    | cons b bs =>
      have reading : Reading.ofBytes _ = .exhausted := congrArg Prod.fst h
      unfold Reading.ofBytes at reading
      split at reading <;> cases reading

end Input

/-! ## Runs that do not look ahead -/

namespace Run

variable {α β : Type}

/-- Started on `m`, the run `x` does not look ahead. -/
structure LocalAt (x : Run α) (m : Machine) : Prop where
  /-- If it does not run out of lines, it does the same with more of them. -/
  settled : ∀ r m', x.run m = some (r, m') → r ≠ .error (.error .inputExhausted) →
    ∀ lines, x.run (m.feed lines) = some (r, m'.feed lines)
  /-- It runs out of lines only when all are taken. -/
  drained : ∀ m', x.run m = some (.error (.error .inputExhausted), m') →
    m'.input.read.1 = .exhausted
  /-- What it printed before it ran out it prints with more lines too. -/
  printed : ∀ m', x.run m = some (.error (.error .inputExhausted), m') →
    ∀ lines r m₂, x.run (m.feed lines) = some (r, m₂) → m'.output.ContinuedBy m₂.output

namespace LocalAt

theorem noOutcome (m : Machine) : LocalAt (Proc.noOutcome : Run α) m where
  settled r m' run := by cases run
  drained m' run := by cases run
  printed m' run := by cases run

/-- A step that does not see the input at all. -/
theorem of_run {x : Run α} {m : Machine} (r : Except Stop α) (m' : Machine)
    (h : ∀ lines, x.run (m.feed lines) = some (r, m'.feed lines))
    (found : r ≠ .error (.error .inputExhausted)) : LocalAt x m := by
  have alone : x.run m = some (r, m') := h []
  have never : ∀ k, x.run m ≠ some (.error (.error .inputExhausted), k) := by
    intro k run
    rw [alone] at run
    cases run
    exact found rfl
  refine ⟨?_, fun k run => absurd run (never k), fun k run => absurd run (never k)⟩
  intro r₁ m₁ run _ lines
  rw [alone] at run
  cases run
  exact h lines

/-- The two halves of a sequence may part in either of them. -/
theorem bind {x : Run α} {f : α → Run β} {m : Machine} (hx : LocalAt x m)
    (hf : ∀ a m', x.run m = some (.ok a, m') → LocalAt (f a) m')
    (advances : ∀ a, Proc.Keeps Machine.Advances (f a)) : LocalAt (x >>= f) m where
  settled := by
    intro r m' run found lines
    rcases Proc.run_bind_eq_some_iff.mp run with ⟨a, m₁, first, second⟩ | ⟨e, m₁, first, outcome⟩
    · have first' := hx.settled _ _ first (by simp) lines
      rw [Proc.run_bind_of_ok first']
      exact (hf a m₁ first).settled r m' second found lines
    · cases outcome
      have stops : Except.error e ≠ (.error (.error .inputExhausted) : Except Stop α) := by
        rintro ⟨⟩
        exact found rfl
      exact Proc.run_bind_of_error (hx.settled _ _ first stops lines) f
  drained := by
    intro m' run
    rcases Proc.run_bind_eq_some_iff.mp run with ⟨a, m₁, first, second⟩ | ⟨e, m₁, first, outcome⟩
    · exact (hf a m₁ first).drained m' second
    · cases outcome
      exact hx.drained _ first
  printed := by
    intro m' run lines r m₂ run₂
    rcases Proc.run_bind_eq_some_iff.mp run with ⟨a, m₁, first, second⟩ | ⟨e, m₁, first, outcome⟩
    · -- They part in the second half; the first half is the same in both.
      rw [Proc.run_bind_of_ok (hx.settled _ _ first (by simp) lines)] at run₂
      exact (hf a m₁ first).printed m' second lines r m₂ run₂
    · -- They part in the first half, and from there on the other one only adds.
      cases outcome
      rcases Proc.run_bind_eq_some_iff.mp run₂ with ⟨a, k, first₂, second₂⟩ | ⟨e, k, first₂, same⟩
      · have before := hx.printed _ first lines _ k first₂
        have after := (advances a k r m₂ second₂).output
        exact before.trans after
      · cases same
        exact hx.printed _ first lines _ _ first₂

/-- A run that is another one, started elsewhere. -/
theorem of_run_eq {x y : Run α} {m k : Machine} (hx : LocalAt x k)
    (h : ∀ lines, y.run (m.feed lines) = x.run (k.feed lines)) : LocalAt y m := by
  have alone : y.run m = x.run k := h []
  refine ⟨fun r m' run found lines => ?_, fun m' run => ?_, fun m' run lines r m₂ run₂ => ?_⟩
  · rw [alone] at run
    rw [h lines]
    exact hx.settled r m' run found lines
  · rw [alone] at run
    exact hx.drained m' run
  · rw [alone] at run
    rw [h lines] at run₂
    exact hx.printed m' run lines r m₂ run₂

/-- A run that is another one, started elsewhere and followed by a change that the
channels do not see. -/
theorem of_map {x y : Run α} {m k : Machine} {g : Machine → Machine} (hx : LocalAt x k)
    (h : ∀ lines, y.run (m.feed lines) = (x.run (k.feed lines)).map fun o => (o.1, g o.2))
    (feed : ∀ k lines, g (k.feed lines) = (g k).feed lines)
    (input : ∀ k, (g k).input = k.input) (output : ∀ k, (g k).output = k.output) :
    LocalAt y m := by
  have inner : ∀ lines r m', y.run (m.feed lines) = some (r, m') →
      ∃ k', x.run (k.feed lines) = some (r, k') ∧ g k' = m' := by
    intro lines r m' run
    rw [h lines, Option.map_eq_some_iff] at run
    obtain ⟨⟨r, k'⟩, run, outcome⟩ := run
    cases outcome
    exact ⟨k', run, rfl⟩
  refine ⟨fun r m' run found lines => ?_, fun m' run => ?_, fun m' run lines r m₂ run₂ => ?_⟩
  · obtain ⟨k', started, rfl⟩ := inner [] r m' run
    rw [h lines, hx.settled r k' started found lines, Option.map_some, feed]
  · obtain ⟨k', started, rfl⟩ := inner [] _ m' run
    rw [input]
    exact hx.drained k' started
  · obtain ⟨k', started, rfl⟩ := inner [] _ m' run
    obtain ⟨k₂, started₂, rfl⟩ := inner lines r m₂ run₂
    rw [output, output]
    exact hx.printed k' started lines r k₂ started₂

end LocalAt

theorem localAt_assign (s : ScopeId) (x : Name) (v : Value) (m : Machine) :
    LocalAt (assign s x v) m := by
  cases bound : m.env.set s x v with
  | ok env =>
    refine .of_run (.ok ()) { m with env := env } (fun lines => ?_) (by simp)
    have same : (m.feed lines).env.set s x v = .ok env := bound
    simp only [assign, same]
    rfl
  | error f =>
    refine .of_run (.error (.fault f)) m (fun lines => ?_) (by simp)
    have same : (m.feed lines).env.set s x v = .error f := bound
    simp only [assign, same]

theorem run_readLine_line {m : Machine} {text : String} {rest : Input}
    (read : m.input.read = (.line text, rest)) :
    readLine.run m =
      some (.ok (some text), { m with input := rest }.log (.lineRead (some text))) := by
  simp only [readLine, read]

theorem run_readLine_exhausted {m : Machine} {rest : Input}
    (read : m.input.read = (.exhausted, rest)) :
    readLine.run m = some (.ok none, { m with input := rest }.log (.lineRead none)) := by
  simp only [readLine, read]

theorem run_evalRead_exhausted {x : Name} {s : ScopeId} {m : Machine} {rest : Input}
    (read : m.input.read = (.exhausted, rest)) :
    (evalRead x s).run m =
      some (.error (.error .inputExhausted), { m with input := rest }.log (.lineRead none)) :=
  Proc.run_bind_of_ok (run_readLine_exhausted read) _

theorem run_readLine_undecodable {m : Machine} {rest : Input}
    (read : m.input.read = (.undecodable, rest)) :
    readLine.run m = some (.error (.error (.inputFailed Reading.undecodableMessage)),
      { m with input := rest }) := by
  simp only [readLine, read]

/-- A line that is there is taken, and what becomes of it is settled by it alone. -/
theorem localAt_evalRead_line (x : Name) (s : ScopeId) {m : Machine} {text : String} {rest : Input}
    (read : m.input.read = (.line text, rest)) : LocalAt (evalRead x s) m := by
  have taken (lines : List String) : readLine.run (m.feed lines) =
      some (.ok (some text), ({ m with input := rest }.log (.lineRead (some text))).feed lines) :=
    run_readLine_line (Input.read_feed read (by simp) lines)
  refine .of_run_eq ?_ fun lines => Proc.run_bind_of_ok (taken lines) _
  dsimp only
  split
  · exact .of_run _ _ (fun _ => rfl) (by simp)
  · refine .bind (localAt_assign s x _ _) (fun _ m' _ => ?_) fun _ => ?_
    · exact .of_run _ m' (fun _ => rfl) (by simp)
    · exact .pure Machine.stable_advances.refl _

/-- Where there is no line, nothing was printed that could be missing elsewhere. -/
theorem localAt_evalRead_exhausted (x : Name) (s : ScopeId) {m : Machine} {rest : Input}
    (read : m.input.read = (.exhausted, rest)) : LocalAt (evalRead x s) m := by
  have stopped := run_evalRead_exhausted (x := x) (s := s) read
  refine ⟨fun r m' run found => ?_, fun m' run => ?_, fun m' run lines r m₂ run₂ => ?_⟩
  · rw [stopped] at run
    cases run
    exact absurd rfl found
  · rw [stopped] at run
    cases run
    obtain rfl := Input.eq_of_read_exhausted read
    exact congrArg Prod.fst read
  · rw [stopped] at run
    cases run
    exact (Machine.stable_advances.keeps_evalRead x s _ r m₂ run₂).output

/-- **A read takes the first line and looks at no other.** -/
theorem localAt_evalRead (x : Name) (s : ScopeId) (m : Machine) : LocalAt (evalRead x s) m := by
  rcases read : m.input.read with ⟨reading, rest⟩
  cases reading with
  | line text => exact localAt_evalRead_line x s read
  | exhausted => exact localAt_evalRead_exhausted x s read
  | undecodable =>
    refine .of_run (.error (.error (.inputFailed Reading.undecodableMessage)))
      { m with input := rest } (fun lines => ?_) (by simp)
    exact Proc.run_bind_of_error
      (run_readLine_undecodable (Input.read_feed read (by simp) lines)) _

/-- A body in a new scope does not look ahead.  Where the scope is there, the run
is the body's own, between two changes that the channels do not see. -/
theorem localAt_withScope {T : Set Name} {parent : ScopeId} {bindings : Bindings}
    {body : ScopeId → Run α} (confined : ∀ t, Confined T t (body t))
    (h : ∀ t m, LocalAt (body t) m) (m : Machine) : LocalAt (withScope parent bindings body) m := by
  by_cases live : m.env.IsLive parent
  · refine .of_map (g := m.resume) (h ⟨m.env.depth⟩ (m.enter parent bindings)) (fun lines => ?_)
      (fun _ _ => rfl) (fun _ => rfl) fun _ => rfl
    have live' : (m.feed lines).env.IsLive parent := live
    exact run_withScope_of_confined live' bindings (confined _)
  · refine .of_run (.error (.fault (.deadParent parent))) m (fun lines => ?_) (by simp)
    have dead : ¬ (m.feed lines).env.IsLive parent := live
    exact run_withScope_of_not_isLive dead bindings body

theorem localAt_ofExcept {r : Except EvalError α} (h : EvalError.OnlyOfValues r) (m : Machine) :
    LocalAt (ofExcept r) m := by
  refine .of_run (r.mapError .error) m (fun _ => rfl) ?_
  cases r with
  | ok a => simp [Except.mapError]
  | error e =>
    rintro ⟨⟩
    cases h _ rfl

theorem localAt_lookup (s : ScopeId) (x : Name) (m : Machine) : LocalAt (lookup s x) m := by
  cases found : m.env.get? s x with
  | some v =>
    refine .of_run (.ok v) m (fun lines => ?_) (by simp)
    have same : (m.feed lines).env.get? s x = some v := found
    simp only [lookup, same]
  | none =>
    refine .of_run (.error (.error (.undefinedVariable (m.names.lookup x)))) m (fun lines => ?_)
      (by simp)
    have same : (m.feed lines).env.get? s x = none := found
    simp only [lookup, same]
    rfl

theorem localAt_modify {f : Machine → Machine}
    (feed : ∀ m lines, f (m.feed lines) = (f m).feed lines) (m : Machine) :
    LocalAt (Proc.modify f : Run Unit) m := by
  refine .of_run (.ok ()) (f m) (fun lines => ?_) (by simp)
  rw [Proc.run_modify, feed]

theorem LocalAt.noted {x : Run α} {m : Machine} {before : Event} (hx : LocalAt x (m.log before))
    (after : Event) : LocalAt (do record before; x.ensuring (record after)) m := by
  refine hx.of_map (g := (·.log after)) (fun lines => ?_) (fun _ _ => rfl) (fun _ => rfl)
    fun _ => rfl
  rw [Proc.run_bind_of_ok rfl, record, Proc.run_ensuring_modify]
  rfl

/-! ## Evaluation -/

/-- A run works in the scope `s`, within its allowance, and wherever it is started
it does not look ahead. -/
structure Local (T : Set Name) (s : ScopeId) (x : Run α) : Prop where
  confined : Confined T s x
  advances : Proc.Keeps Machine.Advances x
  localAt : ∀ m, LocalAt x m

/-- **Not to look ahead is inherited by evaluation.** -/
theorem local_compositional : Compositional fun _ T s x => Local T s x := by
  have confined := confined_compositional
  have stable := Machine.stable_advances
  exact {
    noOutcome := ⟨confined.noOutcome, .noOutcome, .noOutcome⟩
    pure := fun a => ⟨confined.pure a, .pure stable.refl a, localAt_ofExcept (.ok a)⟩
    bind := fun hx hf =>
      ⟨confined.bind hx.confined fun a => (hf a).confined,
        .bind stable.trans hx.advances fun a => (hf a).advances,
        fun m => .bind (hx.localAt m) (fun a m' _ => (hf a).localAt m') fun a => (hf a).advances⟩
    ofExcept := fun h => ⟨confined.ofExcept h, .ofExcept stable.refl _, localAt_ofExcept h⟩
    lookup := fun x => ⟨confined.lookup x, stable.keeps_lookup _ x, localAt_lookup _ x⟩
    assign := fun v allowed =>
      ⟨confined.assign v allowed, stable.keeps_assign _ _ v, localAt_assign _ _ v⟩
    emit := fun n => ⟨confined.emit n, stable.keeps_emit n, localAt_modify fun _ _ => rfl⟩
    read := fun allowed =>
      ⟨confined.read allowed, stable.keeps_evalRead _ _, localAt_evalRead _ _⟩
    evaluating := fun kind =>
      ⟨confined.evaluating kind, stable.keeps_record rfl, localAt_modify fun _ _ => rfl⟩
    arityDiffers := fun params args =>
      ⟨confined.arityDiffers params args, stable.keeps_record rfl, localAt_modify fun _ _ => rfl⟩
    noted := fun callee args hx =>
      ⟨confined.noted callee args hx.confined, stable.keeps_noted hx.advances rfl rfl,
        fun m => .noted (hx.localAt _) _⟩
    withScope := fun h =>
      ⟨confined.withScope fun t => (h t).confined, stable.keeps_withScope fun t => (h t).advances,
        localAt_withScope (fun t => (h t).confined) fun t => (h t).localAt⟩ }

end Run

/-- An evaluation does not look ahead. -/
theorem eval_local (depth : Nat) (n : Node) (s : ScopeId) :
    Run.Local Set.univ s (eval depth n s) :=
  Run.local_compositional.eval depth n s Set.univ fun _ _ => Set.mem_univ _

theorem Machine.feed_eq {m : Machine} {waiting : List String} (h : m.input = .queue waiting)
    (lines : List String) : m.feed lines = { m with input := .queue (waiting ++ lines) } := by
  rw [feed, h, Input.feed_queue]

/-- **Evaluation depends only on the lines that it reads.**  An evaluation that
comes to any outcome but exhausted input has taken lines from the front of the
queue.  With more lines at the end it comes to the same outcome and leaves the
same machine, but that these lines wait as well.  An evaluation that found the
input exhausted has taken every line; and if with more lines it comes to an
outcome, its output then begins with what it was before. -/
theorem evaluates_feed {n : Node} {s : ScopeId} {m m' : Machine} {r : Except Stop Value}
    {lines : List String} (waiting : m.input = .queue lines) (h : Evaluates n s m (r, m'))
    (more : List String) :
    (r ≠ .error (.error .inputExhausted) →
      ∃ used left, lines = used ++ left ∧ m'.input = .queue left ∧
        Evaluates n s { m with input := .queue (lines ++ more) }
          (r, { m' with input := .queue (left ++ more) })) ∧
    (r = .error (.error .inputExhausted) →
      m'.input = .queue [] ∧
        ∀ r₂ m₂, Evaluates n s { m with input := .queue (lines ++ more) } (r₂, m₂) →
          m'.output.ContinuedBy m₂.output) := by
  obtain ⟨depth, run⟩ := h
  have evaluation := eval_local depth n s
  obtain ⟨used, left, split, waiting'⟩ := (evaluation.advances m r m' run).input lines waiting
  refine ⟨fun found => ⟨used, left, split, waiting', depth, ?_⟩, ?_⟩
  · rw [← Machine.feed_eq waiting, ← Machine.feed_eq waiting']
    exact (evaluation.localAt m).settled r m' run found more
  · rintro rfl
    refine ⟨?_, fun r₂ m₂ h₂ => ?_⟩
    · have drained := (evaluation.localAt m).drained m' run
      rw [waiting'] at drained ⊢
      cases left with
      | nil => rfl
      | cons line rest => cases drained
    · -- Both evaluations come to their outcomes under the larger of their bounds.
      obtain ⟨depth₂, run₂⟩ := h₂
      have larger := eval_below_of_le (Nat.le_max_left depth depth₂) n s m _ run
      have larger₂ := eval_below_of_le (Nat.le_max_right depth depth₂) n s _ _ run₂
      rw [← Machine.feed_eq waiting] at larger₂
      exact ((eval_local (max depth depth₂) n s).localAt m).printed m' larger more r₂ m₂ larger₂

/-- A call whose body prints and then reads.  Of two waiting lines it takes one, and
a third makes no difference; with no line it stops after it has printed, and with
one it prints the same again. -/
theorem evaluates_feed_nested_read :
    let n : Node := .call (.define ⟨1⟩ [] [.print (.number 5), .read ⟨2⟩]) []
    let m : List String → Machine := fun lines =>
      ⟨.initial, .initial, .queue lines, .captured "", #[]⟩
    (∃ m', Evaluates n .root (m ["42", "x"]) (.ok (.number 42), m') ∧
      Evaluates n .root (m ["42", "x", "y"])
        (.ok (.number 42), { m' with input := .queue ["x", "y"] })) ∧
    ∃ m', Evaluates n .root (m []) (.error (.error .inputExhausted), m') ∧
      m'.output = (Output.captured "").emit 5 ∧
      ∀ r₂ m₂, Evaluates n .root (m ["42"]) (r₂, m₂) →
        ((Output.captured "").emit 5).ContinuedBy m₂.output := by
  intro n m
  constructor
  · obtain ⟨m', run, rest⟩ : ∃ m', (eval 4 n .root).run (m ["42", "x"]) =
        some (.ok (.number 42), m') ∧ m'.input = .queue ["x"] := ⟨_, rfl, rfl⟩
    obtain ⟨used, left, -, waiting, again⟩ := (evaluates_feed rfl ⟨4, run⟩ ["y"]).1 (by simp)
    obtain rfl : left = ["x"] := Input.queue.inj (waiting.symm.trans rest)
    exact ⟨m', ⟨4, run⟩, again⟩
  · obtain ⟨m', run, output⟩ : ∃ m', (eval 4 n .root).run (m []) =
        some (.error (.error .inputExhausted), m') ∧ m'.output = (Output.captured "").emit 5 :=
      ⟨_, rfl, rfl⟩
    obtain ⟨-, continued⟩ := (evaluates_feed rfl ⟨4, run⟩ ["42"]).2 rfl
    exact ⟨m', ⟨4, run⟩, output, output ▸ continued⟩

end TreeWalk

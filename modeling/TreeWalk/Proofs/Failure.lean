import TreeWalk.Proofs.Repertoire

/-!
# What an error tells

An error comes up deep inside of calls, travels outward unchanged, and is all that
its reader gets to see.  **It can be trusted**: whatever its text names was there.  A
name that it calls undefined is referred to in the tree or in a function that was
bound at the start.  A line that it calls invalid is the last one that was taken.

## Main definitions

* `EvalError.ArisesFrom`: which errors there are, in which words, and what must have
  happened for each of them
* `Machine.references`: the names that can come up in an evaluation
* `Machine.Accounts`: a stop is accounted for by the two machines around it

## Main statements

* `Repertoire.accounts_law`: every step accounts for its stop
* `evaluates_error_arisesFrom`: every error of an evaluation arises in one of the ways
  there are

## Design notes

**Of a queue it is known what was taken from it, of a stream it is not.**  So the
conditions on the input are about queues.  In particular only a stream can fail as
such, namely at bytes that are no text.

Symbols of operators are looked up when a tree is built.  No evaluation meets one that
is unknown, so there is no rule for that error.
-/

namespace TreeWalk

/-! ## How errors arise -/

/-- The errors that an evaluation can give rise to, each with its wording.  `S` are the
names that it can come across, `names` says how they are written, and its input is
`before` at the start and `after` at the end. -/
inductive EvalError.ArisesFrom (S : Set Name) (names : NameTable) (before after : Input) :
    EvalError → String → Prop where
  | undefinedVariable {x : Name} : x ∈ S →
    ArisesFrom S names before after (.undefinedVariable (names.lookup x))
      ("undefined variable: " ++ names.lookup x)
  | divisionByZero : ArisesFrom S names before after .divisionByZero "division by zero"
  | moduloByZero : ArisesFrom S names before after .moduloByZero "modulo by zero"
  /-- A remainder always fits into a number. -/
  | integerOverflow {operation : String} :
    operation ∈ ["negation", "addition", "subtraction", "multiplication", "division"] →
      ArisesFrom S names before after (.integerOverflow operation)
        ("integer overflow in " ++ operation)
  /-- A number is the only thing that is ever needed, apart from a function to call. -/
  | typeMismatch {got : String} : got ∈ ["function", "void"] →
    ArisesFrom S names before after (.typeMismatch "number" got)
      ("type mismatch: expected number, got " ++ got)
  | notCallable {typeName : String} : typeName ∈ ["number", "void"] →
    ArisesFrom S names before after (.notCallable typeName) (typeName ++ " is not callable")
  /-- The last line that was taken from a queue holds no number, and its text is shown
  without the blanks around it. -/
  | invalidInput {text : List Char} :
    (∀ lines, before = .queue lines →
      ∃ used line left, lines = used ++ line :: left ∧ after = .queue left ∧
        text = Text.trim line.toList ∧ Number.ofGrouped? text = none) →
      ArisesFrom S names before after (.invalidInput (String.ofList text))
        ("invalid input: expected an integer, got " ++ String.ofList (Text.quote text))
  /-- No line is left in a queue. -/
  | inputExhausted : (∀ lines, before = .queue lines → after = .queue []) →
    ArisesFrom S names before after .inputExhausted "input exhausted"
  /-- A queue never fails. -/
  | inputFailed {complaint : String} : (∀ lines, before ≠ .queue lines) →
    ArisesFrom S names before after (.inputFailed complaint)
      ("failed to read input: " ++ complaint)

/-- A line that is no number is shown in quotes. -/
theorem EvalError.message_invalidInput (text : List Char) :
    message (.invalidInput (String.ofList text)) =
      "invalid input: expected an integer, got " ++ String.ofList (Text.quote text) := by
  show "invalid input: expected an integer, got " ++
    String.ofList (Text.quote (String.ofList text).toList) = _
  rw [String.toList_ofList]

namespace EvalError.ArisesFrom

variable {S : Set Name} {names : NameTable} {first before after : Input} {e : EvalError}
  {text : String}

/-- What happened before does not matter, as long as lines were taken from the front. -/
theorem earlier (h : e.ArisesFrom S names before after text)
    (front : ∀ lines, first = .queue lines → ∃ used left, lines = used ++ left ∧
      before = .queue left) :
    e.ArisesFrom S names first after text := by
  cases h with
  | undefinedVariable known => exact .undefinedVariable known
  | divisionByZero => exact .divisionByZero
  | moduloByZero => exact .moduloByZero
  | integerOverflow known => exact .integerOverflow known
  | typeMismatch known => exact .typeMismatch known
  | notCallable known => exact .notCallable known
  | invalidInput last =>
    refine .invalidInput fun lines waiting => ?_
    obtain ⟨used, rest, rfl, waiting'⟩ := front lines waiting
    obtain ⟨used', line, left, rfl, after_eq, trimmed⟩ := last rest waiting'
    exact ⟨used ++ used', line, left, (List.append_assoc used used' _).symm, after_eq, trimmed⟩
  | inputExhausted empty =>
    refine .inputExhausted fun lines waiting => ?_
    obtain ⟨-, rest, -, waiting'⟩ := front lines waiting
    exact empty rest waiting'
  | inputFailed stream =>
    refine .inputFailed fun lines waiting => ?_
    obtain ⟨-, rest, -, waiting'⟩ := front lines waiting
    exact stream rest waiting'

/-- Errors of values have nothing to do with names and input. -/
theorem ofValues (h : e.OfValues) : e.ArisesFrom S names before after e.message := by
  cases h with
  | divisionByZero => exact .divisionByZero
  | moduloByZero => exact .moduloByZero
  | integerOverflow known => exact .integerOverflow known
  | @typeMismatch v other =>
    refine .typeMismatch ?_
    cases v with
    | number k => exact absurd rfl (other k)
    | function f => exact .head _
    | void => exact .tail _ (.head _)
  | @notCallable v other =>
    refine .notCallable ?_
    cases v with
    | number k => exact .head _
    | function f => exact absurd rfl (other f)
    | void => exact .tail _ (.head _)

/-- An attempt to read accounts for its own failure. -/
theorem read {reading : Reading} (attempt : before.read = (reading, after))
    (h : reading.stop? = some (.error e)) :
    e.ArisesFrom S names before after e.message := by
  -- Of a queue, the attempt took the first line, or there was none.
  cases reading with
  | line text =>
    rw [Reading.stop?] at h
    split at h
    · next invalid =>
      cases h
      rw [message_invalidInput]
      refine .invalidInput fun lines waiting => ?_
      subst waiting
      cases lines with
      | nil => cases attempt
      | cons line left =>
        cases attempt
        exact ⟨[], text, left, rfl, rfl, rfl, invalid⟩
    · cases h
  | exhausted =>
    cases h
    refine .inputExhausted fun lines waiting => ?_
    subst waiting
    cases lines with
    | nil =>
      cases attempt
      rfl
    | cons line left => cases attempt
  | undecodable =>
    cases h
    refine .inputFailed fun lines waiting => ?_
    subst waiting
    cases lines <;> cases attempt

end EvalError.ArisesFrom

/-! ## Stops that are accounted for -/

/-- If `m` came to `m'` and stopped there with an error, then the error arises from what
was done to the input, and from a name in `S`. -/
structure Machine.Accounts (S : Set Name) (m : Machine) (stop : Option Stop) (m' : Machine) :
    Prop where
  names_eq : m'.names = m.names
  advances : m.Advances m'
  arises : ∀ e, stop = some (.error e) → e.ArisesFrom S m.names m.input m'.input e.message

/-- The trees and functions that refer to no names but those from `S`. -/
def Repertoire.referringTo (S : Set Name) : Repertoire :=
  ofSubtrees fun t => ∀ x, t = .reference x → x ∈ S

/-- **Every step accounts for its stop.** -/
theorem Repertoire.accounts_law (S : Set Name) : (referringTo S).Law (Machine.Accounts S) where
  refl m := ⟨rfl, .of_eq rfl rfl, nofun⟩
  trans before after := {
    names_eq := after.names_eq.trans before.names_eq
    advances := before.advances.trans after.advances
    arises := fun e stopped => by
      have arises := after.arises e stopped
      rw [before.names_eq] at arises
      exact arises.earlier before.advances.input }
  env _ accounts := ⟨accounts.names_eq, ⟨accounts.advances.input, accounts.advances.output⟩,
    accounts.arises⟩
  log _ accounts := ⟨accounts.names_eq, ⟨accounts.advances.input, accounts.advances.output⟩,
    accounts.arises⟩
  fault _ accounts := ⟨accounts.names_eq, accounts.advances, nofun⟩
  ofValues m known := by
    refine ⟨rfl, .of_eq rfl rfl, ?_⟩
    rintro e ⟨⟩
    exact .ofValues known
  lookup m referred := by
    refine ⟨rfl, .of_eq rfl rfl, ?_⟩
    rintro e ⟨⟩
    exact .undefinedVariable (referred _ (Node.mem_subtrees_self _) _ rfl)
  emit _ k _ := ⟨rfl, .emit k rfl rfl, nofun⟩
  read m _ := ⟨rfl, .read m, fun _ failed => .read rfl failed⟩

/-! ## Evaluations -/

/-- The names that the tree refers to, or a function that is bound somewhere in the
machine. -/
def Machine.references (m : Machine) (n : Node) : Set Name :=
  {x | .reference x ∈ n.subtrees ∨
    ∃ s y f, m.env.own? s y = some (.function f) ∧ .reference x ∈ f.subtrees}

/-- **Every error of an evaluation arises in one of the ways there are**, and has the
wording that goes with it.  This holds in every scope, also in one that is gone. -/
theorem evaluates_error_arisesFrom {n : Node} {s : ScopeId} {m m' : Machine} {e : EvalError}
    (h : Evaluates n s m (.error (.error e), m')) :
    e.ArisesFrom (m.references n) m.names m.input m'.input e.message := by
  obtain ⟨depth, run⟩ := h
  have tree : n ∈ (Repertoire.referringTo (m.references n)).trees := by
    rintro t mem x rfl
    exact .inl mem
  have functions : m.env.FunctionsIn (Repertoire.referringTo (m.references n)).functions := by
    rintro s y f bound t mem x rfl
    exact .inr ⟨s, y, f, bound, mem⟩
  obtain ⟨-, accounts, -⟩ :=
    (Repertoire.accounts_law _).eval depth n s tree m functions _ m' run
  exact accounts.arises e rfl

/-- A function that was bound beforehand reads twice.  The second line holds no number;
the error shows it without its blanks, and the third line is left. -/
theorem evaluates_error_arisesFrom_second_line :
    let f : Function := ⟨[], [.read ⟨1⟩, .print (.read ⟨1⟩)]⟩
    let lines := ["4", " x1 ", "7"]
    let m : Machine := ⟨.initial, .ofBindings [(⟨1⟩, .function f)], .queue lines, .silent, #[]⟩
    let n : Node := .binary .add (.call (.reference ⟨1⟩) []) (.reference ⟨2⟩)
    ∃ m', Evaluates n .root m (.error (.error (.invalidInput "x1")), m') ∧
      m'.input = .queue ["7"] ∧
      EvalError.ArisesFrom (m.references n) .initial (.queue lines) (.queue ["7"])
        (.invalidInput "x1") "invalid input: expected an integer, got \"x1\"" := by
  intro f lines m n
  obtain ⟨m', run, input⟩ : ∃ m', (eval 4 n .root).run m =
      some (.error (.error (.invalidInput "x1")), m') ∧ m'.input = .queue ["7"] := ⟨_, rfl, rfl⟩
  have wording : EvalError.message (.invalidInput "x1") =
      "invalid input: expected an integer, got \"x1\"" := by
    refine (EvalError.message_invalidInput ['x', '1']).trans ?_
    rw [show Text.quote ['x', '1'] = ['"', 'x', '1', '"'] from rfl]
    rfl
  have arises := evaluates_error_arisesFrom ⟨4, run⟩
  rw [input, wording] at arises
  exact ⟨m', ⟨4, run⟩, input, arises⟩

end TreeWalk

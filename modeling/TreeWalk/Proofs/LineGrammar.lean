import Mathlib.Data.List.DropRight
import TreeWalk.Proofs.Lookahead
import TreeWalk.Proofs.Numeral

/-!
# The lines that are numbers

A read takes the next line of the input, drops the blanks at its ends, and binds the number
that is left.  **A line is accepted exactly if it is a numeral with blanks around it and its
value is in range.**  An accepted line is bound in the scope of the read and nowhere else; any
other line is used up and named in the error, without its blanks.

## Main definitions

* `Text.Blank`: a text of nothing but blanks
* `Text.Spells`: a text is a numeral for an integer, with blanks around it
* `Text.Trims`: one text is the other without the blanks at its ends

## Main statements

* `Text.trims_iff`: what it is to drop the blanks at the ends of a text
* `Text.spells_iff`: reading what is left finds the numeral
* `read_accepts_numerals`: what a read comes to, on every line and where there is none

## Design notes

Blanks are dropped before anything is read, and a numeral holds none, so a text has at most
one way to be a numeral with blanks around it.
-/

namespace TreeWalk.Text

/-! ## Blanks at the ends -/

/-- There is nothing but blanks. -/
def Blank (cs : List Char) : Prop := ∀ c ∈ cs, isBlank c

/-- `core` is the text `cs` without the blanks at its ends. -/
structure Trims (cs core : List Char) : Prop where
  around : ∃ front back, Blank front ∧ Blank back ∧ cs = front ++ core ++ back
  head : ∀ c ∈ core.head?, ¬ isBlank c
  last : ∀ c ∈ core.getLast?, ¬ isBlank c

theorem trim_append_left {front : List Char} (h : Blank front) (cs : List Char) :
    trim (front ++ cs) = trim cs := by
  rw [trim, trimStart, List.dropWhile_append_of_pos h]
  rfl

theorem trim_append_right {back : List Char} (h : Blank back) (cs : List Char) :
    trim (cs ++ back) = trim cs := by
  induction back generalizing cs with
  | nil => rw [List.append_nil]
  | cons c back ih =>
    obtain ⟨first, others⟩ := List.forall_mem_cons.mp h
    rw [List.append_cons, ih others, trim_append_singleton first]

theorem trim_eq_self {cs : List Char} (head : ∀ c ∈ cs.head?, ¬ isBlank c)
    (last : ∀ c ∈ cs.getLast?, ¬ isBlank c) : trim cs = cs := by
  have start : trimStart cs = cs := by
    cases cs with
    | nil => rfl
    | cons c cs => exact List.dropWhile_cons_of_neg (head c rfl)
  rw [trim, start]
  exact List.rdropWhile_eq_self_iff.mpr fun nonempty =>
    last _ (List.getLast?_eq_some_getLast nonempty)

theorem trims_trim (cs : List Char) : Trims cs (trim cs) where
  around := by
    refine ⟨cs.takeWhile isBlank, (trimStart cs).rtakeWhile isBlank, ?_, ?_, ?_⟩
    · exact fun c => List.mem_takeWhile_imp
    · exact fun c => List.mem_rtakeWhile_imp
    · calc cs = cs.takeWhile isBlank ++ trimStart cs := List.takeWhile_append_dropWhile.symm
        _ = cs.takeWhile isBlank ++ (trim cs ++ (trimStart cs).rtakeWhile isBlank) :=
          congrArg _ List.rdropWhile_append_rtakeWhile.symm
        _ = cs.takeWhile isBlank ++ trim cs ++ (trimStart cs).rtakeWhile isBlank :=
          (List.append_assoc _ _ _).symm
  head c first := by
    -- What was dropped at the end left the start alone.
    obtain ⟨back, whole⟩ := List.rdropWhile_prefix isBlank (trimStart cs)
    have start : (trimStart cs).head? = some c := by
      rw [← whole, List.head?_append]
      exact Option.or_eq_some_iff.mpr (.inl first)
    have stopped := List.head?_dropWhile_not isBlank cs
    rw [← trimStart, start] at stopped
    exact ne_true_of_eq_false stopped
  last c last := by
    obtain ⟨nonempty, rfl⟩ := List.mem_getLast?_eq_getLast last
    exact List.rdropWhile_last_not isBlank (trimStart cs) nonempty

/-- **Dropping the blanks at the ends** leaves what stands between them. -/
theorem trims_iff {cs core : List Char} : Trims cs core ↔ trim cs = core := by
  constructor
  · rintro ⟨⟨front, back, blank, blank', rfl⟩, head, last⟩
    rw [trim_append_right blank', trim_append_left blank, trim_eq_self head last]
  · rintro rfl
    exact trims_trim cs

/-! ## Numerals with blanks around them -/

/-- The text is a numeral for the integer `i`, with blanks around it. -/
def Spells (cs : List Char) (i : Int) : Prop :=
  ∃ (front : List Char) (n : Numeral) (back : List Char), Blank front ∧ Blank back ∧
    cs = front ++ n.text ++ back ∧ n.value = i

theorem not_isBlank_of_isDigit {c : Char} (h : c.isDigit) : ¬ isBlank c := by
  have apart : ∀ r ∈ blankRanges.intervals, r.2 < '0'.toNat ∨ '9'.toNat < r.1 := by decide
  obtain ⟨low, high⟩ := Char.isDigit_iff_toNat.mp h
  rw [isBlank_iff]
  rintro ⟨r, mem, above, below⟩
  rcases apart r mem with before | after
  · omega
  · omega

/-- A numeral holds no blank. -/
theorem Numeral.not_isBlank (n : Numeral) {c : Char} (h : c ∈ n.text) : ¬ isBlank c := by
  rcases List.mem_append.mp h with signed | grouped
  · obtain ⟨sign, -, rfl⟩ := List.mem_map.mp signed
    cases sign <;> decide
  · by_cases divider : c = '_'
    · subst divider
      decide
    · exact not_isBlank_of_isDigit (n.grouped.isDigit_of_mem grouped divider)

/-- Reading a text without the blanks at its ends finds the numeral between them. -/
theorem spells_iff {cs : List Char} {i : Int} :
    Spells cs i ↔ Decimal.grouped? (trim cs) = some i := by
  rw [Decimal.grouped?_eq_some_iff]
  constructor
  · rintro ⟨front, n, back, blank, blank', rfl, rfl⟩
    refine ⟨n, ?_, rfl⟩
    rw [trim_append_right blank', trim_append_left blank, trim_eq_self]
    · exact fun c first => n.not_isBlank (List.mem_of_head? first)
    · exact fun c last => n.not_isBlank (List.mem_of_getLast? last)
  · rintro ⟨n, written, rfl⟩
    obtain ⟨front, back, blank, blank', whole⟩ := (trims_trim cs).around
    exact ⟨front, n, back, blank, blank', written ▸ whole, rfl⟩

end TreeWalk.Text

namespace TreeWalk

open Text (Spells Trims)

/-- The integers in range are those that have a number. -/
theorem Number.exists_toInt_eq_iff {i : Int} :
    (∃ k : Number, k.toInt = i) ↔ -2 ^ 63 ≤ i ∧ i < 2 ^ 63 := by
  constructor
  · rintro ⟨k, rfl⟩
    exact ⟨k.le_toInt, k.toInt_lt⟩
  · rintro ⟨low, high⟩
    exact ⟨Int64.ofInt i, Int64.toInt_ofInt_of_le low high⟩

theorem Number.ofGrouped?_trim_eq_some_iff {cs : List Char} {k : Number} :
    ofGrouped? (Text.trim cs) = some k ↔ Spells cs k.toInt := by
  rw [Text.spells_iff, ofGrouped?, Option.bind_eq_some_iff]
  constructor
  · rintro ⟨i, found, fits⟩
    rw [found, ofInt?_eq_some_iff.mp fits]
  · intro found
    exact ⟨_, found, ofInt?_toInt k⟩

/-! ## What a read comes to -/

section

variable {m : Machine} {s : ScopeId} {line : String} {rest : Input}

namespace Run

variable {x : Name}

theorem run_assign {v : Value} {env : Environment} (h : m.env.set s x v = .ok env) :
    (assign s x v).run m = some (.ok (), { m with env := env }) := by
  simp only [assign, h]

/-- A line with a number on it is used up, and the number is bound. -/
theorem run_evalRead_number {k : Number} {env : Environment}
    (front : m.input.read = (.line line, rest))
    (valid : Number.ofGrouped? (Text.trim line.toList) = some k)
    (bound : m.env.set s x (.number k) = .ok env) :
    (evalRead x s).run m = some (.ok (.number k),
      { { m with input := rest }.log (.lineRead (some line)) with env := env }) := by
  rw [evalRead, Proc.run_bind_of_ok (run_readLine_line front)]
  dsimp only
  rw [valid]
  have bound' : ({ m with input := rest }.log (.lineRead (some line))).env.set s x (.number k) =
    .ok env := bound
  exact Proc.run_bind_of_ok (run_assign bound') _

/-- A line without a number is used up as well. -/
theorem run_evalRead_invalid (front : m.input.read = (.line line, rest))
    (invalid : Number.ofGrouped? (Text.trim line.toList) = none) :
    (evalRead x s).run m =
      some (.error (.error (.invalidInput (String.ofList (Text.trim line.toList)))),
        { m with input := rest }.log (.lineRead (some line))) := by
  rw [evalRead, Proc.run_bind_of_ok (run_readLine_line front)]
  dsimp only
  rw [invalid]
  rfl

end Run

/-- A line that is a number is used up, and the number is bound. -/
theorem evaluates_read_of_spells (live : m.env.IsLive s)
    (front : m.input.read = (.line line, rest)) {k : Number} (h : Spells line.toList k.toInt)
    (x : Name) :
    ∃ m', Evaluates (.read x) s m (.ok (.number k), m') ∧
      m'.env.own? s x = some (.number k) ∧ m.env.ChangesOnly {x} s m'.env ∧
      m'.input = rest ∧ m'.output = m.output := by
  obtain ⟨env, bound⟩ : ∃ env, m.env.set s x (.number k) = .ok env :=
    ⟨_, Environment.set_eq_ok_iff.mpr ⟨live, rfl⟩⟩
  have valid := Number.ofGrouped?_trim_eq_some_iff.mpr h
  refine ⟨_, ⟨1, Run.run_evalRead_number (m := m.log (.evaluating .read)) front valid bound⟩, ?_,
    .set (Set.mem_singleton x) bound, rfl, rfl⟩
  exact (Environment.own?_set_self bound x).trans (if_pos rfl)

/-- Any other line is used up, and nothing is bound. -/
theorem evaluates_read_of_not_spells (front : m.input.read = (.line line, rest))
    (h : ¬ ∃ k : Number, Spells line.toList k.toInt) (x : Name) (s : ScopeId) :
    ∃ core m', Trims line.toList core ∧
      Evaluates (.read x) s m (.error (.error (.invalidInput (String.ofList core))), m') ∧
      m'.env = m.env ∧ m'.input = rest ∧ m'.output = m.output := by
  have invalid : Number.ofGrouped? (Text.trim line.toList) = none := by
    rw [Option.eq_none_iff_forall_ne_some]
    exact fun k found => h ⟨k, Number.ofGrouped?_trim_eq_some_iff.mp found⟩
  exact ⟨_, _, Text.trims_trim _,
    ⟨1, Run.run_evalRead_invalid (m := m.log (.evaluating .read)) front invalid⟩, rfl, rfl, rfl⟩

/-- What a read gives is the number on the line, which it has bound. -/
theorem Evaluates.spells {x : Name} {v : Value} {m' : Machine}
    (h : Evaluates (.read x) s m (.ok v, m')) (live : m.env.IsLive s)
    (front : m.input.read = (.line line, rest)) :
    ∃ k : Number, v = .number k ∧ Spells line.toList k.toInt ∧
      m'.env.own? s x = some v ∧ m.env.ChangesOnly {x} s m'.env ∧
      m'.input = rest ∧ m'.output = m.output := by
  by_cases spelled : ∃ k : Number, Spells line.toList k.toInt
  · obtain ⟨k, spells⟩ := spelled
    obtain ⟨m'', h', effect⟩ := evaluates_read_of_spells live front spells x
    cases h.unique h'
    exact ⟨k, rfl, spells, effect⟩
  · obtain ⟨core, m'', -, h', -⟩ := evaluates_read_of_not_spells front spelled x s
    cases h.unique h'

/-- Where there is no line, nothing is used up. -/
theorem evaluates_read_of_exhausted (empty : m.input.read.1 = .exhausted) (x : Name)
    (s : ScopeId) :
    ∃ m', Evaluates (.read x) s m (.error (.error .inputExhausted), m') ∧
      m'.env = m.env ∧ m'.input = m.input ∧ m'.output = m.output := by
  obtain ⟨rest, attempt⟩ : ∃ rest, m.input.read = (.exhausted, rest) := ⟨_, Prod.ext empty rfl⟩
  exact ⟨_, ⟨1, Run.run_evalRead_exhausted (m := m.log (.evaluating .read)) attempt⟩, rfl,
    Input.eq_of_read_exhausted attempt, rfl⟩

end

/-- **A read accepts exactly the numerals in range.**  A read finds a line at the front of
the input.  It gives a number exactly if the line is a numeral for it with blanks around; then
the number is bound in the scope, and there is no other change to any scope.  On any other
line it fails, with the line between its blanks as the text that is wrong, and no scope
changes.  In both cases that line is gone from the input, and no other.  A read that finds no
line fails and changes nothing. -/
theorem read_accepts_numerals {m : Machine} {s : ScopeId} (live : m.env.IsLive s) (x : Name) :
    (∀ line rest, m.input.read = (.line line, rest) →
      (∀ i : Int, (∃ k m', k.toInt = i ∧ Evaluates (.read x) s m (.ok (.number k), m')) ↔
        Spells line.toList i ∧ -2 ^ 63 ≤ i ∧ i < 2 ^ 63) ∧
      (∀ v m', Evaluates (.read x) s m (.ok v, m') →
        (∃ k, v = .number k) ∧ m'.env.own? s x = some v ∧ m.env.ChangesOnly {x} s m'.env ∧
          m'.input = rest ∧ m'.output = m.output) ∧
      ((¬ ∃ i : Int, Spells line.toList i ∧ -2 ^ 63 ≤ i ∧ i < 2 ^ 63) →
        ∃ core m', Trims line.toList core ∧
          Evaluates (.read x) s m (.error (.error (.invalidInput (String.ofList core))), m') ∧
          m'.env = m.env ∧ m'.input = rest ∧ m'.output = m.output)) ∧
    (m.input.read.1 = .exhausted →
      ∃ m', Evaluates (.read x) s m (.error (.error .inputExhausted), m') ∧
        m'.env = m.env ∧ m'.input = m.input ∧ m'.output = m.output) := by
  refine ⟨fun line rest front => ⟨fun i => ⟨?_, ?_⟩, fun v m' h => ?_, fun none => ?_⟩,
    fun empty => evaluates_read_of_exhausted empty x s⟩
  · rintro ⟨k, m', rfl, h⟩
    obtain ⟨k', same, spells, -⟩ := h.spells live front
    cases same
    exact ⟨spells, Number.exists_toInt_eq_iff.mp ⟨k, rfl⟩⟩
  · rintro ⟨spells, inRange⟩
    obtain ⟨k, rfl⟩ := Number.exists_toInt_eq_iff.mpr inRange
    obtain ⟨m', h, -⟩ := evaluates_read_of_spells live front spells x
    exact ⟨k, m', rfl, h⟩
  · obtain ⟨k, rfl, -, effect⟩ := h.spells live front
    exact ⟨⟨k, rfl⟩, effect⟩
  · refine evaluates_read_of_not_spells front (fun ⟨k, spells⟩ => none ?_) x s
    exact ⟨k.toInt, spells, Number.exists_toInt_eq_iff.mp ⟨k, rfl⟩⟩

/-- The least number, in groups and between blanks, is read and bound.  With an underscore
behind the sign the same digits are refused, and the text that is named has no blanks. -/
theorem read_accepts_numerals_least :
    let m : String → Machine := fun line =>
      ⟨.initial, .initial, .queue [line, "1"], .captured "", #[]⟩
    (∃ k m', k.toInt = -2 ^ 63 ∧
      Evaluates (.read ⟨1⟩) .root (m " -9_223_372_036_854_775_808\t") (.ok (.number k), m') ∧
      m'.env.own? .root ⟨1⟩ = some (.number k) ∧ m'.input = .queue ["1"]) ∧
    ∃ m', Evaluates (.read ⟨1⟩) .root (m " -_9\t")
        (.error (.error (.invalidInput "-_9")), m') ∧
      m'.env = .initial ∧ m'.input = .queue ["1"] := by
  intro m
  have live (line : String) : (m line).env.IsLive .root := Nat.one_pos
  constructor
  · obtain ⟨accepted, effect, -⟩ :=
      (read_accepts_numerals (live " -9_223_372_036_854_775_808\t") ⟨1⟩).1 _ _ rfl
    have spells : Spells " -9_223_372_036_854_775_808\t".toList (-2 ^ 63) :=
      Text.spells_iff.mpr (by decide +kernel)
    obtain ⟨k, m', least, h⟩ := (accepted (-2 ^ 63)).mpr ⟨spells, le_rfl, by decide +kernel⟩
    obtain ⟨-, own, -, input, -⟩ := effect _ _ h
    exact ⟨k, m', least, h, own, input⟩
  · obtain ⟨-, -, refused⟩ := (read_accepts_numerals (live " -_9\t") ⟨1⟩).1 _ _ rfl
    have unread : Text.Decimal.grouped? (Text.trim " -_9\t".toList) = none := by decide +kernel
    have text : String.ofList (Text.trim " -_9\t".toList) = "-_9" := by decide +kernel
    obtain ⟨core, m', trims, h, env, input, -⟩ := refused fun ⟨i, spells, _⟩ =>
      Option.some_ne_none i ((Text.spells_iff.mp spells).symm.trans unread)
    obtain rfl := Text.trims_iff.mp trims
    rw [text] at h
    exact ⟨m', h, env, input⟩

end TreeWalk

import Mathlib.Data.Nat.Digits.Lemmas
import TreeWalk.Number

/-!
# Numerals

A line of input is a number if its text is a numeral: an optional sign, and groups of
digits with single underscores between them.  The reader does not follow that grammar.
It looks for misplaced underscores behind the sign, drops all underscores, and reads what is
left as if it had been written plain.  **It accepts exactly the numerals nevertheless**:
dropping underscores never makes a numeral of a text that is none.

## Main definitions

* `Numeral`: a sign and groups of digits, with its text and its value
* `Grouped`: the same groups, one character at a time

## Main statements

* `grouped_iff`: underscores that are nowhere misplaced divide digits into groups
* `grouped?_eq_some_iff`: the reader accepts exactly the numerals
* `signed?_plain?_eq_some_iff`: the reader of plain digits accepts exactly the numerals
  without underscores

## Design notes

`Numeral` is the grammar as data: no numeral is empty, has an empty group, or holds anything
but digits.  `Grouped` is the form in which the text is gone through, and the proofs below
go from the one over the other to the reader.
-/

namespace TreeWalk.Text

/-! ## The grammar -/

/-- A sign in front of digits. -/
inductive Sign where
  | plus
  | minus
  deriving DecidableEq

/-- How a sign is written. -/
def Sign.char : Sign → Char
  | .plus => '+'
  | .minus => '-'

/-- A sign that may be missing, written out. -/
def Sign.text (sign : Option Sign) : List Char := sign.toList.map Sign.char

/-- The integer with a sign that may be missing and a magnitude. -/
def Sign.apply (sign : Option Sign) (magnitude : Nat) : Int :=
  match sign with
  | some .minus => -magnitude
  | some .plus | none => magnitude

/-- A sign, if there is one, and groups of digits, the most significant first. -/
structure Numeral where
  sign : Option Sign
  groups : List (List Char)
  groups_ne_nil : groups ≠ []
  group_ne_nil : ∀ g ∈ groups, g ≠ []
  isDigit : ∀ g ∈ groups, ∀ c ∈ g, c.isDigit

namespace Numeral

/-- The written form: an underscore stands between each two groups. -/
def text (n : Numeral) : List Char := Sign.text n.sign ++ ['_'].intercalate n.groups

/-- The digits of all groups as numbers, the most significant first. -/
def digits (n : Numeral) : List Nat := n.groups.flatten.map fun c => c.toNat - '0'.toNat

/-- The integer that is written. -/
def value (n : Numeral) : Int := Sign.apply n.sign (Nat.ofDigits 10 n.digits.reverse)

end Numeral

namespace Decimal

/-! ## Groups, one character at a time -/

/-- One or more digits, with an underscore between two of them here and there. -/
inductive Grouped : List Char → Prop where
  | last {c : Char} : c.isDigit → Grouped [c]
  | digit {c : Char} {cs : List Char} : c.isDigit → Grouped cs → Grouped (c :: cs)
  | divided {c : Char} {cs : List Char} : c.isDigit → Grouped cs → Grouped (c :: '_' :: cs)

theorem ne_underscore {c : Char} (h : c.isDigit) : c ≠ '_' := by
  rintro rfl
  cases h

namespace Grouped

variable {cs g : List Char}

theorem exists_cons (h : Grouped cs) : ∃ c rest, cs = c :: rest ∧ c.isDigit := by
  cases h with
  | last digit => exact ⟨_, _, rfl, digit⟩
  | digit digit _ => exact ⟨_, _, rfl, digit⟩
  | divided digit _ => exact ⟨_, _, rfl, digit⟩

theorem head?_ne (h : Grouped cs) : cs.head? ≠ some '_' := by
  obtain ⟨c, rest, rfl, digit⟩ := h.exists_cons
  intro same
  exact ne_underscore digit (Option.some.inj same)

theorem getLast?_ne (h : Grouped cs) : cs.getLast? ≠ some '_' := by
  induction h with
  | last digit => exact fun same => ne_underscore digit (Option.some.inj same)
  | digit _ rest ih =>
    obtain ⟨c, cs, rfl, -⟩ := rest.exists_cons
    rwa [List.getLast?_cons_cons]
  | divided _ rest ih =>
    obtain ⟨c, cs, rfl, -⟩ := rest.exists_cons
    rwa [List.getLast?_cons_cons, List.getLast?_cons_cons]

theorem not_infix (h : Grouped cs) : ¬ ['_', '_'] <:+: cs := by
  induction h with
  | last digit =>
    intro twice
    have short := twice.length_le
    simp at short
  | digit digit rest ih =>
    intro twice
    rcases List.infix_cons_iff.mp twice with first | later
    · exact ne_underscore digit (List.cons_prefix_cons.mp first).1.symm
    · exact ih later
  | divided digit rest ih =>
    intro twice
    rcases List.infix_cons_iff.mp twice with first | twice
    · exact ne_underscore digit (List.cons_prefix_cons.mp first).1.symm
    rcases List.infix_cons_iff.mp twice with second | later
    · -- A digit follows the underscore.
      obtain ⟨c, cs, rfl, digit⟩ := rest.exists_cons
      have next := (List.cons_prefix_cons.mp second).2
      exact ne_underscore digit (List.cons_prefix_cons.mp next).1.symm
    · exact ih later

/-- Apart from the underscores there are digits only. -/
theorem isDigit_of_mem (h : Grouped cs) {c : Char} (mem : c ∈ cs) (other : c ≠ '_') :
    c.isDigit := by
  induction h with
  | last digit =>
    rw [List.mem_singleton.mp mem]
    exact digit
  | digit digit _ ih =>
    rcases List.mem_cons.mp mem with rfl | later
    · exact digit
    · exact ih later
  | divided digit _ ih =>
    rcases List.mem_cons.mp mem with rfl | later
    · exact digit
    · exact ih (List.mem_of_ne_of_mem other later)

theorem append_digits (h : Grouped cs) (digits : ∀ c ∈ g, c.isDigit) : Grouped (g ++ cs) := by
  induction g with
  | nil => exact h
  | cons c g ih =>
    rw [List.forall_mem_cons] at digits
    exact .digit digits.1 (ih digits.2)

/-- A group of digits. -/
theorem of_digits (nonempty : g ≠ []) (digits : ∀ c ∈ g, c.isDigit) : Grouped g := by
  rw [← List.dropLast_append_getLast nonempty] at digits ⊢
  rw [List.forall_mem_append] at digits
  exact (last (digits.2 _ (List.mem_singleton_self _))).append_digits digits.1

/-- A group of digits in front of others. -/
theorem cons_group (h : Grouped cs) (nonempty : g ≠ []) (digits : ∀ c ∈ g, c.isDigit) :
    Grouped (g ++ '_' :: cs) := by
  rw [← List.dropLast_append_getLast nonempty] at digits ⊢
  rw [List.forall_mem_append] at digits
  rw [List.append_assoc]
  exact (divided (digits.2 _ (List.mem_singleton_self _)) h).append_digits digits.1

end Grouped

/-! ## Looking for misplaced underscores -/

/-- What is misplaced stays so behind other characters, unless it was only that it stood in
front. -/
theorem Misgrouped.append_left {cs : List Char} (h : Misgrouped cs) (other : cs.head? ≠ some '_')
    (front : List Char) : Misgrouped (front ++ cs) := by
  rcases h with first | last | twice
  · exact absurd first other
  · refine .inr (.inl ?_)
    rw [List.getLast?_append, last, Option.some_or]
  · exact .inr (.inr (twice.trans (List.suffix_append front cs).isInfix))

/-- Digits and underscores that are nowhere misplaced are groups. -/
theorem Grouped.of_not_misgrouped : ∀ {cs : List Char}, cs ≠ [] → ¬ Misgrouped cs →
    (∀ c ∈ cs, c ≠ '_' → c.isDigit) → Grouped cs
  | [], nonempty, _, _ => absurd rfl nonempty
  | [c], _, placed, digits => by
    have first : c ≠ '_' := fun same => placed (.inl (congrArg some same))
    exact .last (digits c (.head _) first)
  | c :: d :: cs, _, placed, digits => by
    have first : c ≠ '_' := fun same => placed (.inl (congrArg some same))
    rw [List.forall_mem_cons] at digits
    by_cases divided : d = '_'
    · subst divided
      -- The underscore is neither at the end nor next to another one.
      have nonempty : cs ≠ [] := by
        rintro rfl
        exact placed (.inr (.inl rfl))
      obtain ⟨e, rest, rfl⟩ := List.exists_cons_of_ne_nil nonempty
      have second : (e :: rest).head? ≠ some '_' := by
        rintro ⟨⟩
        exact placed (.inr (.inr ⟨[c], rest, rfl⟩))
      refine .divided (digits.1 first) (of_not_misgrouped nonempty (fun later => placed ?_) ?_)
      · exact later.append_left second [c, '_']
      · exact (List.forall_mem_cons.mp digits.2).2
    · refine .digit (digits.1 first) (of_not_misgrouped (List.cons_ne_nil _ _) ?_ digits.2)
      have second : (d :: cs).head? ≠ some '_' := fun same => divided (Option.some.inj same)
      exact fun later => placed (later.append_left second [c])

/-- **Underscores that are nowhere misplaced divide digits into groups**, and the other way
round. -/
theorem grouped_iff {cs : List Char} :
    Grouped cs ↔ ¬ Misgrouped cs ∧ cs.filter (· ≠ '_') ≠ [] ∧
      ∀ c ∈ cs.filter (· ≠ '_'), c.isDigit := by
  simp only [List.mem_filter, decide_eq_true_eq, and_imp]
  constructor
  · intro grouped
    refine ⟨?_, ?_, fun c => grouped.isDigit_of_mem⟩
    · rintro (first | last | twice)
      · exact grouped.head?_ne first
      · exact grouped.getLast?_ne last
      · exact grouped.not_infix twice
    · obtain ⟨c, rest, rfl, digit⟩ := grouped.exists_cons
      simp [ne_underscore digit]
  · rintro ⟨placed, nonempty, digits⟩
    refine .of_not_misgrouped ?_ placed digits
    rintro rfl
    exact nonempty rfl

/-! ## Groups as lists -/

/-- Groups of digits can be told apart. -/
theorem Grouped.exists_groups {cs : List Char} (h : Grouped cs) :
    ∃ groups : List (List Char), groups ≠ [] ∧ (∀ g ∈ groups, g ≠ []) ∧
      (∀ g ∈ groups, ∀ c ∈ g, c.isDigit) ∧ ['_'].intercalate groups = cs := by
  induction h with
  | @last c digit => exact ⟨[[c]], by simp, by simp, by simpa using digit, rfl⟩
  | @digit c cs digit _ ih =>
    obtain ⟨groups, nonempty, full, digits, rfl⟩ := ih
    obtain ⟨g, others, rfl⟩ := List.exists_cons_of_ne_nil nonempty
    rw [List.forall_mem_cons] at full digits
    refine ⟨(c :: g) :: others, List.cons_ne_nil _ _, ?_, ?_, ?_⟩
    · exact List.forall_mem_cons.mpr ⟨List.cons_ne_nil _ _, full.2⟩
    · exact List.forall_mem_cons.mpr ⟨List.forall_mem_cons.mpr ⟨digit, digits.1⟩, digits.2⟩
    · cases others <;> rfl
  | @divided c cs digit _ ih =>
    obtain ⟨groups, nonempty, full, digits, rfl⟩ := ih
    obtain ⟨g, others, rfl⟩ := List.exists_cons_of_ne_nil nonempty
    refine ⟨[c] :: g :: others, List.cons_ne_nil _ _, ?_, ?_, rfl⟩
    · exact List.forall_mem_cons.mpr ⟨List.cons_ne_nil _ _, full⟩
    · exact List.forall_mem_cons.mpr ⟨by simpa using digit, digits⟩

/-- Groups of digits, with underscores between them. -/
theorem grouped_intercalate : ∀ {groups : List (List Char)}, groups ≠ [] →
    (∀ g ∈ groups, g ≠ []) → (∀ g ∈ groups, ∀ c ∈ g, c.isDigit) →
      Grouped (['_'].intercalate groups)
  | [], nonempty, _, _ => absurd rfl nonempty
  | [g], _, full, digits => by
    have only := Grouped.of_digits (full g (.head _)) (digits g (.head _))
    simpa using only
  | g :: g' :: groups, _, full, digits => by
    rw [List.forall_mem_cons] at full digits
    have others := grouped_intercalate (List.cons_ne_nil g' groups) full.2 digits.2
    have whole := others.cons_group full.1 digits.1
    rwa [List.intercalate_cons_cons, List.append_assoc]

/-- Without the underscores the digits are left. -/
theorem filter_intercalate : ∀ {groups : List (List Char)},
    (∀ g ∈ groups, ∀ c ∈ g, c.isDigit) →
      (['_'].intercalate groups).filter (· ≠ '_') = groups.flatten
  | [], _ => rfl
  | [g], digits => by
    have kept := List.filter_eq_self.mpr fun c mem =>
      decide_eq_true (ne_underscore (digits g (.head _) c mem))
    simpa using kept
  | g :: g' :: groups, digits => by
    rw [List.forall_mem_cons] at digits
    have kept : g.filter (· ≠ '_') = g := List.filter_eq_self.mpr fun c mem =>
      decide_eq_true (ne_underscore (digits.1 c mem))
    have dropped : ['_'].filter (· ≠ '_') = [] := rfl
    rw [List.intercalate_cons_cons, List.filter_append, List.filter_append, kept, dropped,
      List.append_nil, filter_intercalate digits.2, List.flatten_cons (l := g)]

/-! ## Values -/

/-- Reading digits from the left gives the value of their places. -/
theorem ofDigitChars_eq (cs : List Char) (start : Nat) :
    Nat.ofDigitChars 10 cs start =
      Nat.ofDigits 10 (cs.map fun c => c.toNat - '0'.toNat).reverse + 10 ^ cs.length * start := by
  induction cs generalizing start with
  | nil => simp [Nat.ofDigitChars]
  | cons c cs ih =>
    rw [Nat.ofDigitChars_cons, ih, List.map_cons, List.reverse_cons, Nat.ofDigits_append,
      Nat.ofDigits_singleton, List.length_reverse, List.length_map, List.length_cons, pow_succ]
    ring

theorem value_eq (cs : List Char) :
    value cs = Nat.ofDigits 10 (cs.map fun c => c.toNat - '0'.toNat).reverse := by
  rw [value, ofDigitChars_eq, Nat.mul_zero, Nat.add_zero]

theorem plain?_eq_some_iff {cs : List Char} {k : Nat} :
    plain? cs = some k ↔ cs ≠ [] ∧ (∀ c ∈ cs, c.isDigit) ∧ value cs = k := by
  rw [plain?, Option.ite_none_right_eq_some, List.all_eq_true, Option.some.injEq, and_assoc]

/-! ## Signs -/

/-- The sign in front of a text, if there is one. -/
def signOf : List Char → Option Sign
  | '+' :: _ => some .plus
  | '-' :: _ => some .minus
  | _ => none

theorem signOf_cons_of_ne {c : Char} (plus : c ≠ '+') (minus : c ≠ '-') (cs : List Char) :
    signOf (c :: cs) = none := by
  simp [signOf, plus, minus]

theorem dropSign_cons_of_ne {c : Char} (plus : c ≠ '+') (minus : c ≠ '-') (cs : List Char) :
    dropSign (c :: cs) = c :: cs := by
  simp [dropSign, plus, minus]

/-- A text is its sign and what stands behind it. -/
theorem text_signOf_append (cs : List Char) : Sign.text (signOf cs) ++ dropSign cs = cs := by
  cases cs with
  | nil => rfl
  | cons c cs =>
    by_cases plus : c = '+'
    · subst plus
      rfl
    by_cases minus : c = '-'
    · subst minus
      rfl
    rw [signOf_cons_of_ne plus minus, dropSign_cons_of_ne plus minus]
    rfl

/-- A sign in front of a digit is the sign of the whole. -/
theorem signOf_text_append {cs : List Char} (h : Grouped cs) (sign : Option Sign) :
    signOf (Sign.text sign ++ cs) = sign ∧ dropSign (Sign.text sign ++ cs) = cs := by
  obtain ⟨c, rest, rfl, digit⟩ := h.exists_cons
  rcases sign with _ | (_ | _)
  · have plus : c ≠ '+' := by rintro rfl; cases digit
    have minus : c ≠ '-' := by rintro rfl; cases digit
    exact ⟨signOf_cons_of_ne plus minus rest, dropSign_cons_of_ne plus minus rest⟩
  · exact ⟨rfl, rfl⟩
  · exact ⟨rfl, rfl⟩

/-- Unless an underscore comes right after it, the sign is still in front when the
underscores have been dropped. -/
theorem signed?_filter {cs : List Char} (h : (dropSign cs).head? ≠ some '_') :
    signed? plain? (cs.filter (· ≠ '_')) =
      (plain? ((dropSign cs).filter (· ≠ '_'))).map (Sign.apply (signOf cs)) := by
  cases cs with
  | nil => rfl
  | cons c cs =>
    by_cases plus : c = '+'
    · subst plus
      rfl
    by_cases minus : c = '-'
    · subst minus
      rfl
    rw [dropSign_cons_of_ne plus minus] at h ⊢
    have first : c ≠ '_' := fun same => h (congrArg some same)
    have kept : (c :: cs).filter (· ≠ '_') = c :: cs.filter (· ≠ '_') :=
      List.filter_cons_of_pos (decide_eq_true first)
    rw [signOf_cons_of_ne plus minus, kept, signed?]
    · rfl
    · exact fun _ same => plus (List.cons.inj same).1
    · exact fun _ same => minus (List.cons.inj same).1

/-! ## The reader -/

/-- The reader goes by the sign and by the groups behind it. -/
theorem grouped?_eq_some_iff_signOf {cs : List Char} {i : Int} :
    grouped? cs = some i ↔ Grouped (dropSign cs) ∧
      Sign.apply (signOf cs) (value ((dropSign cs).filter (· ≠ '_'))) = i := by
  rw [grouped_iff, grouped?]
  split
  · next misgrouped =>
    constructor
    · rintro ⟨⟩
    · rintro ⟨⟨placed, -⟩, -⟩
      exact absurd misgrouped placed
  · next placed =>
    have first : (dropSign cs).head? ≠ some '_' := fun first => placed (.inl first)
    simp only [signed?_filter first, Option.map_eq_some_iff, plain?_eq_some_iff]
    constructor
    · rintro ⟨k, ⟨nonempty, digits, rfl⟩, rfl⟩
      exact ⟨⟨placed, nonempty, digits⟩, rfl⟩
    · rintro ⟨⟨-, nonempty, digits⟩, rfl⟩
      exact ⟨_, ⟨nonempty, digits, rfl⟩, rfl⟩

end Decimal

namespace Numeral

theorem grouped (n : Numeral) : Decimal.Grouped (['_'].intercalate n.groups) :=
  Decimal.grouped_intercalate n.groups_ne_nil n.group_ne_nil n.isDigit

end Numeral

/-- **The reader accepts exactly the numerals**, each with its value. -/
theorem Decimal.grouped?_eq_some_iff {cs : List Char} {i : Int} :
    grouped? cs = some i ↔ ∃ n : Numeral, n.text = cs ∧ n.value = i := by
  rw [grouped?_eq_some_iff_signOf]
  constructor
  · rintro ⟨grouped, rfl⟩
    obtain ⟨groups, nonempty, full, digits, written⟩ := grouped.exists_groups
    refine ⟨⟨signOf cs, groups, nonempty, full, digits⟩, ?_, ?_⟩
    · rw [Numeral.text, written, text_signOf_append]
    · rw [← written, filter_intercalate digits, value_eq]
      rfl
  · rintro ⟨n, rfl, rfl⟩
    obtain ⟨sign, rest⟩ := signOf_text_append n.grouped n.sign
    rw [Numeral.text, sign, rest, filter_intercalate n.isDigit, value_eq]
    exact ⟨n.grouped, rfl⟩

namespace Decimal

/-! ## Plain digits -/

/-- Where there is no underscore, the two readers do the same. -/
theorem signed?_plain?_eq_grouped? {cs : List Char} (plain : '_' ∉ cs) :
    signed? plain? cs = grouped? cs := by
  have kept : cs.filter (· ≠ '_') = cs := by
    refine List.filter_eq_self.mpr fun c mem => decide_eq_true ?_
    rintro rfl
    exact plain mem
  have behind : '_' ∉ dropSign cs := by
    intro mem
    rw [← text_signOf_append cs] at plain
    exact plain (List.mem_append_right _ mem)
  have placed : ¬ Misgrouped (dropSign cs) := by
    rintro (first | last | twice)
    · exact behind (List.mem_of_head? first)
    · exact behind (List.mem_of_getLast? last)
    · exact behind (twice.subset (.head _))
  rw [grouped?, if_neg placed, kept]

/-- Neither a sign nor a digit is an underscore. -/
theorem notMem_of_signed?_plain? {cs : List Char} {i : Int} (h : signed? plain? cs = some i) :
    '_' ∉ cs := by
  have digits {ds : List Char} {f : Nat → Int} (read : (plain? ds).map f = some i) :
      '_' ∉ ds := by
    intro mem
    obtain ⟨k, read, -⟩ := Option.map_eq_some_iff.mp read
    exact ne_underscore ((plain?_eq_some_iff.mp read).2.1 _ mem) rfl
  unfold signed? at h
  split at h
  · exact List.not_mem_cons_of_ne_of_not_mem (by decide) (digits h)
  · exact List.not_mem_cons_of_ne_of_not_mem (by decide) (digits h)
  · exact digits h

/-- **The reader of plain digits accepts exactly the numerals without underscores.** -/
theorem signed?_plain?_eq_some_iff {cs : List Char} {i : Int} :
    signed? plain? cs = some i ↔ '_' ∉ cs ∧ ∃ n : Numeral, n.text = cs ∧ n.value = i := by
  constructor
  · intro h
    have plain := notMem_of_signed?_plain? h
    rw [signed?_plain?_eq_grouped? plain] at h
    exact ⟨plain, grouped?_eq_some_iff.mp h⟩
  · rintro ⟨plain, written⟩
    rw [signed?_plain?_eq_grouped? plain]
    exact grouped?_eq_some_iff.mpr written

end Decimal

end TreeWalk.Text

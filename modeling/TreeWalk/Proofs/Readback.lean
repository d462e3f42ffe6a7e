import Mathlib.Data.List.DropRight
import TreeWalk.Channel.Output
import TreeWalk.Proofs.Numeral

/-!
# Reading back what was written

Everything that is written to an output goes into one text, numbers and other lines alike, and
the numbers are later looked for in that text.  **What one call writes is read back as if it
stood alone**: it adds the numbers among its own lines, whatever was written before and after
it, and an emitted number is read back as itself.

## Main definitions

* `Text.rows`: the lines of a text with a newline put at its end
* `Output.Call`: what a host may do to an output
* `Output.after`: an output that captured nothing yet, after some calls
* `Output.Call.sinceClear`: the calls after the last one that cleared the output
* `Output.Call.numbers`: the numbers that a call adds

## Main statements

* `Text.lines_append_newline`: what follows a newline has no part in the lines before it
* `Output.after_eq`: the captured text is what the calls since the last clear have written
* `Output.emitted_after`: the numbers that are read back are those that the calls have added

## Design notes

A text may have newlines of its own, and a carriage return at its end.  With the newline that
comes after it, the text is then several lines, and the carriage return is part of the last
line end.  But a call always ends with a newline, so that **no line has parts from two calls**.
The lines of a call are therefore defined from its text alone, as the pieces between newlines,
and not by the cut that is made through the whole captured text.
-/

namespace TreeWalk

namespace Text

/-! ## Lines up to a newline -/

/-- A line without the carriage return at its end, if it has one. -/
def dropReturn (row : List Char) : List Char :=
  if row.getLast? = some '\r' then row.dropLast else row

/-- The lines of a text with a newline put at its end: the pieces between the newlines of the
text, each without one carriage return at its end. -/
def rows (cs : List Char) : List (List Char) := (cs.splitOn '\n').map dropReturn

theorem dropLineEnd_append_newline (row : List Char) :
    dropLineEnd (row ++ ['\n']) = dropReturn row := by
  rcases List.eq_nil_or_concat row with rfl | ⟨front, c, rfl⟩
  · rfl
  · rw [List.concat_eq_append, dropLineEnd, dropReturn, List.reverse_append, List.reverse_append,
      List.getLast?_concat, List.dropLast_concat]
    by_cases carriage : c = '\r'
    · subst carriage
      exact List.reverse_reverse front
    · simp [carriage]

/-- A newline is a place where the text is cut, and the pieces before it are those between the
newlines there. -/
theorem splitAfter_append_newline (cs rest : List Char) :
    splitAfter isNewline (cs ++ '\n' :: rest) =
      (cs.splitOn '\n').map (· ++ ['\n']) ++ splitAfter isNewline rest := by
  induction cs with
  | nil => rfl
  | cons c cs ih =>
    rw [List.cons_append, splitAfter_cons, ih, List.splitOn_cons_eq_if_modifyHead]
    unfold splitStep
    by_cases newline : c = '\n'
    · subst newline
      rfl
    · -- Any other character joins the first piece, and there is one even in an empty text.
      obtain ⟨row, others, pieces⟩ :=
        List.exists_cons_of_ne_nil (List.splitOn_ne_nil '\n' cs)
      have inside : ¬ isNewline c := fun same => newline (of_decide_eq_true same)
      rw [if_neg inside, if_neg (beq_iff_eq.not.mpr newline), pieces]
      rfl

/-- **What follows a newline has no part in the lines before it.** -/
theorem lines_append_newline (cs rest : List Char) :
    lines (cs ++ '\n' :: rest) = rows cs ++ lines rest := by
  have ended : dropLineEnd ∘ (· ++ ['\n']) = dropReturn := funext dropLineEnd_append_newline
  rw [lines, splitAfter_append_newline, List.map_append, List.map_map, ended]
  rfl

/-- A text without line ends is one line. -/
theorem rows_eq_singleton {cs : List Char} (newline : '\n' ∉ cs) (carriage : '\r' ∉ cs) :
    rows cs = [cs] := by
  have last : cs.getLast? ≠ some '\r' := fun last => carriage (List.mem_of_getLast? last)
  rw [rows, List.splitOn_eq_singleton newline, List.map_singleton, dropReturn, if_neg last]

/-- An integer is written with digits and a sign, and nothing else. -/
theorem Decimal.notMem_write {c : Char} (sign : c ≠ '-') (digit : ¬ c.isDigit) (i : Int) :
    c ∉ write i := by
  have digits : c ∉ Nat.toDigits 10 i.natAbs := fun mem =>
    digit (List.all_eq_true.mp (all_isDigit_toDigits i.natAbs) c mem)
  unfold write
  split
  · exact List.not_mem_cons_of_ne_of_not_mem sign digits
  · exact digits

end Text

namespace Number

/-- The text of a number is one line. -/
theorem rows_text (n : Number) : Text.rows n.text.toList = [n.text.toList] := by
  have newline := Text.Decimal.notMem_write (c := '\n') (by decide) (by decide) n.toInt
  have carriage := Text.Decimal.notMem_write (c := '\r') (by decide) (by decide) n.toInt
  rw [text, String.toList_ofList]
  exact Text.rows_eq_singleton newline carriage

/-- A line is read as a number exactly if it is a numeral without underscores and its value is
that number. -/
theorem ofPlain?_eq_some_iff {row : List Char} {n : Number} :
    ofPlain? row = some n ↔
      '_' ∉ row ∧ ∃ written : Text.Numeral, written.text = row ∧ written.value = n.toInt := by
  rw [ofPlain?, ← Text.Decimal.signed?_plain?_eq_some_iff, Option.bind_eq_some_iff]
  constructor
  · rintro ⟨i, read, fits⟩
    rw [ofInt?_eq_some_iff.mp fits]
    exact read
  · intro read
    exact ⟨n.toInt, read, ofInt?_toInt n⟩

end Number

namespace Output

/-! ## Calls -/

/-- What a host may do to an output. -/
inductive Call where
  /-- Write a number on a line of its own. -/
  | emit (n : Number)
  /-- Write a text, and a newline after it. -/
  | writeLine (text : String)
  /-- Forget what was captured. -/
  | clear
  deriving DecidableEq

namespace Call

/-- The output that a call leaves. -/
def apply (out : Output) : Call → Output
  | .emit n => out.emit n
  | .writeLine text => out.writeLine text
  | .clear => out.clear

/-- The calls after the last one that cleared the output, or all of them. -/
def sinceClear (calls : List Call) : List Call := calls.rtakeWhile (· ≠ .clear)

/-- The numbers that a call adds: an emitted number itself, and of another text those of its
lines that are numbers. -/
def numbers : Call → List Number
  | .emit n => [n]
  | .writeLine text => (Text.rows text.toList).filterMap Number.ofPlain?
  | .clear => []

/-- What a call adds to captured text. -/
def written : Call → String
  | .emit n => line n.text
  | .writeLine text => line text
  | .clear => ""

@[simp] theorem sinceClear_concat_clear (calls : List Call) : sinceClear (calls ++ [clear]) = [] :=
  List.rtakeWhile_concat_neg _ _ _ (by decide)

theorem sinceClear_concat {c : Call} (h : c ≠ .clear) (calls : List Call) :
    sinceClear (calls ++ [c]) = sinceClear calls ++ [c] :=
  List.rtakeWhile_concat_pos _ _ _ (decide_eq_true h)

theorem apply_captured {c : Call} (h : c ≠ .clear) (old : String) :
    c.apply (.captured old) = .captured (old ++ c.written) := by
  cases c with
  | emit n => rfl
  | writeLine text => rfl
  | clear => exact absurd rfl h

end Call

/-- An output that captures, and had captured nothing, after calls from first to last. -/
def after (calls : List Call) : Output := calls.foldl Call.apply (.captured "")

theorem after_concat (calls : List Call) (c : Call) :
    after (calls ++ [c]) = c.apply (after calls) := List.foldl_concat ..

/-- **The captured text is what the calls since the last clear have written.** -/
theorem after_eq (calls : List Call) :
    after calls = .captured (String.join ((Call.sinceClear calls).map Call.written)) := by
  -- The last call decides: it adds to the text, or nothing before it counts any more.
  induction calls using List.reverseRecOn with
  | nil => rfl
  | append_singleton calls c ih =>
    rw [after_concat, ih]
    by_cases cleared : c = .clear
    · subst cleared
      rw [Call.sinceClear_concat_clear]
      rfl
    · rw [Call.apply_captured cleared, Call.sinceClear_concat cleared, List.map_append,
        String.join_append, List.map_singleton, String.join_cons, String.join_nil,
        String.append_empty]

/-! ## Numbers -/

theorem emitted_line_append (text rest : String) :
    (captured (line text ++ rest)).emitted =
      (Text.rows text.toList).filterMap Number.ofPlain? ++ (captured rest).emitted := by
  have cut : (line text ++ rest).toList = text.toList ++ '\n' :: rest.toList := by
    simp [line]
  show (Text.lines (line text ++ rest).toList).filterMap Number.ofPlain? = _
  rw [cut, Text.lines_append_newline, List.filterMap_append]
  rfl

/-- What a call has written is read back as if it stood alone. -/
theorem emitted_written_append (c : Call) (rest : String) :
    (captured (c.written ++ rest)).emitted = c.numbers ++ (captured rest).emitted := by
  cases c with
  | emit n =>
    have read : [n.text.toList].filterMap Number.ofPlain? = [n] := by
      rw [List.filterMap_cons_some (Number.ofPlain?_text n), List.filterMap_nil]
    rw [Call.written, emitted_line_append, Number.rows_text, read]
    rfl
  | writeLine text => exact emitted_line_append text rest
  | clear => rw [Call.written, String.empty_append, Call.numbers, List.nil_append]

theorem emitted_join_written (calls : List Call) :
    (captured (String.join (calls.map Call.written))).emitted = calls.flatMap Call.numbers := by
  induction calls with
  | nil => rfl
  | cons c calls ih =>
    rw [List.map_cons, String.join_cons, emitted_written_append, ih, List.flatMap_cons]

/-- Emitting clears nothing, so all the numbers are still there. -/
theorem flatMap_numbers_sinceClear_emit (values : List Number) :
    (Call.sinceClear (values.map .emit)).flatMap Call.numbers = values := by
  have all : Call.sinceClear (values.map .emit) = values.map .emit := by
    refine List.rtakeWhile_eq_self_iff.mpr fun c mem => ?_
    obtain ⟨n, -, rfl⟩ := List.mem_map.mp mem
    rfl
  rw [all, List.flatMap_map]
  exact List.flatMap_singleton' values

/-- **The numbers that are read back are those that the calls have added**, in order, since the
output was last cleared.  After emitted numbers only, these are exactly the numbers that were
emitted.  A line of another text is read as a number exactly if it is an optional sign and
digits, without underscores, for a value in range. -/
theorem emitted_after (calls : List Call) :
    (after calls).emitted = (Call.sinceClear calls).flatMap Call.numbers ∧
    (∀ values : List Number, (after (values.map .emit)).emitted = values) ∧
    ∀ (row : List Char) (n : Number), Number.ofPlain? row = some n ↔
      '_' ∉ row ∧ ∃ written : Text.Numeral, written.text = row ∧ written.value = n.toInt := by
  have readBack (calls : List Call) :
      (after calls).emitted = (Call.sinceClear calls).flatMap Call.numbers := by
    rw [after_eq, emitted_join_written]
  refine ⟨readBack calls, fun values => ?_, fun row n => Number.ofPlain?_eq_some_iff⟩
  rw [readBack, flatMap_numbers_sinceClear_emit]

/-- A text of four lines between two numbers: a number before a carriage return, an empty line,
a number with a blank after it, and the least number. -/
example : (after [.emit 1, .clear, .emit 2, .writeLine "+3\r\n\n4 \n-9223372036854775808",
    .emit (-5)]).emitted = [2, 3, -9223372036854775808, -5] := by
  rfl

end Output

end TreeWalk

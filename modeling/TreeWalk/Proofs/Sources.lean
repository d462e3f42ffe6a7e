import Mathlib.Data.List.Forall2
import TreeWalk.Proofs.Simulation

/-!
# Where lines come from does not matter

A stream of bytes and a queue of lines are two ways to hand over one text.  **A
program cannot tell them apart**, as long as the queue holds the pieces into which
the newlines cut the text.  It does not matter either which of the pieces keep
their newlines.

## Main definitions

* `Text.utf8`: the bytes of a text
* `Input.CutInto`: lines that are the pieces of a text, with or without their
  newlines
* `Machine.FedAlike`: a machine that reads a stream, beside one that reads a queue
  with the same text in it

## Main statements

* `Input.read_stream_utf8`: from the bytes of a text, the next line is its first
  piece
* `evaluatesAll_from_stream_and_queue`: programs do the same with the stream and
  with the queue

## Design notes

**No byte of another character is a newline.**  A stream is cut where the byte 10
stands, a text where the newline character does, and in UTF-8 these are the same
places.  So a stream that starts as a valid text stays one line after line, and an
attempt to read from it never fails.

The lines that the two sources serve need not be equal, and the record of events
shows the difference.  What a program sees is a line without the blanks around
it.
-/

namespace TreeWalk

namespace Text

/-! ## The bytes of a text -/

/-- The bytes of a text. -/
def utf8 (cs : List Char) : List UInt8 := cs.flatMap String.utf8EncodeChar

theorem utf8_cons (c : Char) (cs : List Char) :
    utf8 (c :: cs) = String.utf8EncodeChar c ++ utf8 cs := List.flatMap_cons

theorem toList_toUTF8 (text : String) : text.toUTF8.data.toList = utf8 text.toList := by
  rw [String.toUTF8_eq_toByteArray, ← String.utf8Encode_toList]
  exact List.toList_data_toByteArray

/-- Only an empty text has no bytes. -/
theorem utf8_ne_nil {cs : List Char} (h : cs ≠ []) : utf8 cs ≠ [] := by
  obtain ⟨c, rest, rfl⟩ := List.exists_cons_of_ne_nil h
  rw [utf8_cons]
  exact List.append_ne_nil_of_left_ne_nil String.utf8EncodeChar_ne_nil _

/-- No byte of another character is a newline. -/
theorem ne_newlineByte {c : Char} (h : ¬ isNewline c) :
    ∀ b ∈ String.utf8EncodeChar c, b ≠ newlineByte := by
  have other : c.val.toNat ≠ 10 := fun same =>
    h (decide_eq_true (Char.ext (UInt32.toNat_inj.mp same)))
  have ten : newlineByte.toNat = 10 := rfl
  -- One byte holds the character itself; of several bytes each is at least 128.
  fun_cases String.utf8EncodeChar
  all_goals
    simp only [List.forall_mem_cons, List.not_mem_nil, false_implies, implies_true, and_true,
      ne_eq, ← UInt8.toNat_inj, UInt8.toNat_ofNat', ten]
    omega

/-- Bytes are cut where the text is cut. -/
theorem cutAfter_utf8 (cs : List Char) :
    cutAfter (· = newlineByte) (utf8 cs) =
      (utf8 (cutAfter isNewline cs).1, utf8 (cutAfter isNewline cs).2) := by
  induction cs with
  | nil => rfl
  | cons c cs ih =>
    rw [utf8_cons]
    by_cases hc : isNewline c
    · obtain rfl : c = '\n' := of_decide_eq_true hc
      rw [cutAfter_cons_of_isEnd hc]
      exact cutAfter_cons_of_isEnd rfl (utf8 cs)
    · have inner : ∀ b ∈ String.utf8EncodeChar c, ¬ decide (b = newlineByte) := fun b hb =>
        (decide_eq_true_iff.not).mpr (ne_newlineByte hc b hb)
      rw [cutAfter_append_of_not_isEnd inner, ih, cutAfter_cons_of_not_isEnd hc, utf8_cons]

end Text

/-- The bytes of a text are read as that text. -/
theorem Reading.ofBytes_utf8 (cs : List Char) :
    ofBytes (Text.utf8 cs) = .line (String.ofList cs) := by
  have valid : (Text.utf8 cs).toByteArray.IsValidUTF8 := ⟨cs, rfl⟩
  have decoded : String.fromUTF8? (Text.utf8 cs).toByteArray = some (String.ofList cs) := by
    rw [String.fromUTF8?, dif_pos valid]
    exact congrArg some (String.toByteArray_inj.mp rfl)
  rw [ofBytes, decoded]

/-! ## Taking a line -/

namespace Input

/-- The lines are the pieces of a text cut after each newline, and each piece may
have lost its newline. -/
def CutInto (cs : List Char) (lines : List String) : Prop :=
  List.Forall₂ (fun piece line => line.toList = piece ∨ line.toList ++ ['\n'] = piece)
    (Text.splitAfter Text.isNewline cs) lines

/-- The bytes of a text give its first piece, and the bytes of the rest stay. -/
theorem read_stream_utf8 {cs : List Char} (h : cs ≠ []) :
    read (.stream (Text.utf8 cs)) =
      (.line (String.ofList (Text.cutAfter Text.isNewline cs).1),
        .stream (Text.utf8 (Text.cutAfter Text.isNewline cs).2)) := by
  obtain ⟨b, bs, bytes⟩ := List.exists_cons_of_ne_nil (Text.utf8_ne_nil h)
  have cut := Text.cutAfter_utf8 cs
  rw [bytes] at cut ⊢
  show (Reading.ofBytes (Text.cutAfter (· = Text.newlineByte) (b :: bs)).1,
    Input.stream (Text.cutAfter (· = Text.newlineByte) (b :: bs)).2) = _
  rw [cut, Reading.ofBytes_utf8]

namespace CutInto

variable {cs : List Char} {lines : List String}

/-- The lines of an empty text are none. -/
theorem eq_nil (h : CutInto [] lines) : lines = [] := List.forall₂_nil_left_iff.mp h

/-- The first line is the first piece up to blanks, and the others are the lines of
the rest. -/
theorem eq_cons (h : CutInto cs lines) (nonempty : cs ≠ []) :
    ∃ line rest, lines = line :: rest ∧
      Text.trim line.toList = Text.trim (Text.cutAfter Text.isNewline cs).1 ∧
      CutInto (Text.cutAfter Text.isNewline cs).2 rest := by
  rw [CutInto, Text.splitAfter_of_ne_nil _ nonempty] at h
  obtain ⟨line, rest, first, others, rfl⟩ := List.forall₂_cons_left_iff.mp h
  refine ⟨line, rest, rfl, ?_, others⟩
  rcases first with whole | cut
  · rw [whole]
  · rw [← cut, Text.trim_append_singleton Text.isBlank_newline]

end CutInto

end Input

/-! ## Programs -/

/-- The first machine reads the bytes of a text, the second one its pieces; they
have printed the same. -/
structure Machine.FedAlike (m k : Machine) : Prop where
  sources : ∃ cs lines, m.input = .stream (Text.utf8 cs) ∧ k.input = .queue lines ∧
    Input.CutInto cs lines
  output_eq : k.output = m.output

/-- The two sources run out together, and until then their lines differ at most in
the newlines. -/
theorem Machine.FedAlike.readLine :
    Proc.Lockstep FedAlike Eq
      (Option.Rel fun line line' => Text.trim line'.toList = Text.trim line.toList)
      Run.readLine Run.readLine := by
  rintro m k ⟨⟨cs, lines, bytes, queue, cut⟩, output_eq⟩
  simp only [Run.readLine, bytes, queue]
  by_cases nonempty : cs = []
  · subst nonempty
    obtain rfl := cut.eq_nil
    exact .some ⟨.ok .none, ⟨[], [], rfl, rfl, cut⟩, output_eq⟩
  · obtain ⟨line, rest, rfl, same, cut'⟩ := cut.eq_cons nonempty
    rw [Input.read_stream_utf8 nonempty, Input.read_queue_cons]
    refine .some ⟨.ok (.some ?_), ⟨_, rest, rfl, rfl, cut'⟩, output_eq⟩
    rw [same, String.toList_ofList]

/-- No step of an evaluation can tell the two sources apart. -/
theorem Machine.channelSimulation_fedAlike : ChannelSimulation FedAlike where
  env _ _ alike := ⟨alike.sources, alike.output_eq⟩
  log _ alike := ⟨alike.sources, alike.output_eq⟩
  emit n alike := ⟨alike.sources, congrArg (·.emit n) alike.output_eq⟩
  readLine := FedAlike.readLine

/-- **A stream and a queue with the same text in them are interchangeable.**  With
the bytes of a text, and with its pieces, a program comes to the same outcome, the
same environment and the same output, or on neither side to any.  Every piece may
come with its newline or without. -/
theorem evaluatesAll_from_stream_and_queue {text : String} {lines : List String}
    (cut : Input.CutInto text.toList lines) (program : List Node) (s : ScopeId) (m : Machine) :
    Matched
      (fun o o' => o'.1 = o.1 ∧ o'.2.env = o.2.env ∧ o'.2.output = o.2.output)
      (EvaluatesAll program s { m with input := .stream text.toUTF8.data.toList })
      (EvaluatesAll program s { m with input := .queue lines }) := by
  have start : Machine.FedAlike { m with input := .stream text.toUTF8.data.toList }
      { m with input := .queue lines } :=
    ⟨⟨text.toList, lines, congrArg Input.stream (Text.toList_toUTF8 text), rfl, cut⟩, rfl⟩
  refine (Machine.channelSimulation_fedAlike.matchedAll_of_env_eq start rfl rfl).imp ?_
  rintro o o' ⟨outcome_eq, env_eq, -, alike⟩
  exact ⟨outcome_eq, env_eq, alike.output_eq⟩

/-- A number before a carriage return, an empty line that keeps its newline, and a
last line without one.  The second line that is read holds no number, and the
third is left. -/
theorem evaluatesAll_from_stream_and_queue_empty_line :
    let program : List Node := [.print (.read ⟨1⟩), .read ⟨2⟩]
    let m : Machine := ⟨.initial, .initial, .queue [], .captured "", #[]⟩
    Input.CutInto "12\r\n\n7".toList ["12\r", "\n", "7"] ∧
      ∃ m', EvaluatesAll program .root { m with input := .stream "12\r\n\n7".toUTF8.data.toList }
        (.error (.error (.invalidInput "")), m') ∧
        m'.output = .captured "12\n" ∧ m'.env.get? .root ⟨1⟩ = some (.number 12) := by
  intro program m
  have cut : Input.CutInto "12\r\n\n7".toList ["12\r", "\n", "7"] :=
    List.Forall₂.cons (.inr rfl) (.cons (.inl rfl) (.cons (.inl rfl) .nil))
  obtain ⟨m', run, output, bound⟩ : ∃ m', (evalBlock (eval 3) program .root).run
      { m with input := .queue ["12\r", "\n", "7"] } =
        some (.error (.error (.invalidInput "")), m') ∧
      m'.output = .captured "12\n" ∧ m'.env.get? .root ⟨1⟩ = some (.number 12) :=
    ⟨_, rfl, rfl, rfl⟩
  obtain ⟨⟨r, k⟩, h, same, env_eq, output_eq⟩ :=
    (evaluatesAll_from_stream_and_queue cut program .root m).2 _ ⟨3, run⟩
  obtain rfl : r = .error (.error (.invalidInput "")) := same.symm
  exact ⟨cut, k, h, output_eq.symm.trans output, by rw [← env_eq]; exact bound⟩

end TreeWalk

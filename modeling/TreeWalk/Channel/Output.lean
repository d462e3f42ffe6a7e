import TreeWalk.Number
import TreeWalk.Text.Line

/-!
# Output

A program prints numbers, each on a line of its own.  Its host may write other
lines between them.

## Main definitions

* `Output`: where lines go
* `Output.writeLine`, `Output.emit`: write a text, write a number
* `Output.emitted`: the numbers among the captured lines

## Design notes

Output is captured, thrown away, or shown on the console.  The text that went to
the console is part of the state as well, since it can be seen, but only
captured text can be asked for and cleared.
-/

namespace TreeWalk

/-- Where lines go. -/
inductive Output where
  /-- They are kept. -/
  | captured (text : String)
  /-- They are thrown away. -/
  | silent
  /-- They are shown on the console. -/
  | console (shown : String)
  deriving DecidableEq, Repr

namespace Output

/-- A text with the newline after it. -/
def line (text : String) : String := text ++ "\n"

/-- Write a line. -/
def writeLine (out : Output) (text : String) : Output :=
  match out with
  | .captured old => .captured (old ++ line text)
  | .silent => .silent
  | .console old => .console (old ++ line text)

/-- Write a number on a line of its own. -/
def emit (out : Output) (n : Number) : Output := out.writeLine n.text

/-- The captured text. -/
def text : Output → String
  | .captured text => text
  | .silent | .console _ => ""

/-- What the console shows. -/
def shown : Output → String
  | .console shown => shown
  | .captured _ | .silent => ""

/-- Forget captured text. -/
def clear : Output → Output
  | .captured _ => .captured ""
  | .silent => .silent
  | .console shown => .console shown

/-- The numbers among the captured lines; the other lines are passed over. -/
def emitted (out : Output) : List Number :=
  (Text.lines out.text.toList).filterMap Number.ofPlain?

@[simp] theorem text_writeLine_captured (old text : String) :
    ((Output.captured old).writeLine text).text = old ++ line text := rfl

@[simp] theorem text_clear (out : Output) : out.clear.text = "" := by cases out <;> rfl

end Output

end TreeWalk

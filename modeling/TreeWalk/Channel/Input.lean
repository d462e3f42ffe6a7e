import TreeWalk.Text.Line

/-!
# Input

A program reads its input a line at a time.  The lines either wait in a queue,
or are cut from a stream of bytes.

## Main definitions

* `Input`: the two sources
* `Reading`: what an attempt to read comes to
* `Input.read`: the next line, and what is left

## Design notes

A line from a stream keeps its newline; one from a queue is served as it was put
in.  **A line of bytes that is no text is used up all the same**, so the next
attempt starts after it.
-/

namespace TreeWalk

/-- Where lines come from. -/
inductive Input where
  /-- Lines that wait to be read. -/
  | queue (lines : List String)
  /-- Bytes that have not been read yet. -/
  | stream (bytes : List UInt8)
  deriving DecidableEq

/-- The outcome of an attempt to read a line. -/
inductive Reading where
  | line (text : String)
  /-- There is nothing left. -/
  | exhausted
  /-- The bytes of the line are not valid UTF-8. -/
  | undecodable
  deriving DecidableEq, Repr

namespace Reading

/-- The text that a line of bytes encodes. -/
def ofBytes (bytes : List UInt8) : Reading :=
  match String.fromUTF8? bytes.toByteArray with
  | some text => .line text
  | none => .undecodable

/-- The complaint about bytes that are no text. -/
def undecodableMessage : String := "stream did not contain valid UTF-8"

end Reading

namespace Input

/-- Take the next line. -/
def read : Input → Reading × Input
  | .queue [] => (.exhausted, .queue [])
  | .queue (line :: rest) => (.line line, .queue rest)
  | .stream [] => (.exhausted, .stream [])
  | .stream (b :: bs) =>
    let (line, rest) := Text.cutAfter (· = Text.newlineByte) (b :: bs)
    (.ofBytes line, .stream rest)

/-- Put a line at the end of a queue.  A stream takes none. -/
def pushLine (line : String) : Input → Input
  | .queue lines => .queue (lines ++ [line])
  | .stream bytes => .stream bytes

/-- The number of lines that wait in a queue; nothing is known of a stream. -/
def remaining : Input → Nat
  | .queue lines => lines.length
  | .stream _ => 0

@[simp] theorem read_queue_nil : read (.queue []) = (.exhausted, .queue []) := rfl

@[simp] theorem read_queue_cons (line : String) (rest : List String) :
    read (.queue (line :: rest)) = (.line line, .queue rest) := rfl

end Input

end TreeWalk

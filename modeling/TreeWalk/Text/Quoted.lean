import TreeWalk.Text.Extender
import TreeWalk.Text.Unprintable

/-!
# Quoted text

A text that is shown to a reader stands between double quotes, with everything
spelled out that could not be seen or would end the quotes.

## Main definitions

* `quoteChar`: the written form of one character
* `quote`: the written form of a text

## Design notes

The double quote and the backslash are escaped by a backslash; the null
character, tab, carriage return and newline have letters of their own.  A
character that is unprintable, or extends the one before, is written by its code
point in hexadecimal.  Everything else stands for itself, the single quote
included.
-/

namespace TreeWalk.Text

/-- A character by its code point, as in `\u{301}`. -/
def codePointEscape (c : Char) : List Char :=
  ['\\', 'u', '\x7b'] ++ Nat.toDigits 16 c.toNat ++ ['\x7d']

/-- The written form of one character inside quotes. -/
def quoteChar (c : Char) : List Char :=
  match c with
  | '\x00' => ['\\', '0']
  | '\t' => ['\\', 't']
  | '\r' => ['\\', 'r']
  | '\n' => ['\\', 'n']
  | '"' => ['\\', '"']
  | '\\' => ['\\', '\\']
  | c => if isExtender c || isUnprintable c then codePointEscape c else [c]

/-- The written form of a text, quotes included. -/
def quote (cs : List Char) : List Char := '"' :: (cs.flatMap quoteChar ++ ['"'])

end TreeWalk.Text

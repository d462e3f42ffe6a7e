import TreeWalk.Arithmetic
import TreeWalk.Draft

/-!
# Inquiries

Questions about values and trees that need a name table, but no machine: what an
operator makes of two values, and whether two drafts come to the same thing.

## Main definitions

* `Inquiry.unary`, `Inquiry.binary`: an operator, by its symbol, on drafts
* `Inquiry.value`: a value, and whether another is equal to it
* `Inquiry.node`: a tree, and whether another is equal to it

## Design notes

Operands are built before the symbol is looked up, as in a tree.  An unknown
symbol ends the inquiry; an error of the operator is its result.
-/

namespace TreeWalk.Inquiry

/-- What the operator of a symbol makes of a value. -/
def unary (operand : ValueDraft) (symbol : String) : Builder (Except EvalError Value) := do
  let v ← operand.build
  let op ← UnaryOp.ofSymbol symbol
  return op.evaluate v

/-- What the operator of a symbol makes of two values. -/
def binary (left right : ValueDraft) (symbol : String) : Builder (Except EvalError Value) := do
  let l ← left.build
  let r ← right.build
  let op ← BinaryOp.ofSymbol symbol
  return op.evaluate l r

/-- The outcome of an operator, described with the names that were met. -/
def outcome (b : Builder (Except EvalError Value)) : Except EvalError Value.Description :=
  let (built, names) := b.runWith .initial
  match built with
  | .error e => .error e
  | .ok r => r.map (·.describe names)

/-- What there is to say of a value and another one. -/
structure ValueReport where
  value : Value.Description
  isVoid : Bool
  isFunction : Bool
  number : Except EvalError Number
  same : Bool

/-- Build two values and report on the first. -/
def value (v other : ValueDraft) : Builder ValueReport := do
  let v ← v.build
  let other ← other.build
  return {
    value := v.describe (← get)
    isVoid := v.isVoid
    isFunction := v.isFunction
    number := v.toNumber
    same := decide (v = other) }

/-- What there is to say of two trees. -/
structure NodeReport where
  kind : Kind
  otherKind : Kind
  same : Bool
  /-- The size of the name table that both were built with. -/
  tableSize : Nat

/-- Build two trees and compare them. -/
def node (n other : Draft) : Builder NodeReport := do
  let n ← n.build
  let other ← other.build
  return {
    kind := n.kind
    otherKind := other.kind
    same := decide (n = other)
    tableSize := (← get).size }

/-- The answer to an inquiry that starts with no names. -/
def ask {α : Type} (b : Builder α) : Except EvalError α := (b.runWith .initial).1

end TreeWalk.Inquiry

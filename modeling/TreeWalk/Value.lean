import TreeWalk.EvalError
import TreeWalk.NameTable
import TreeWalk.Node.Equality

/-!
# Values

Evaluation yields a number, a function, or nothing.  Numbers are the only data:
a condition holds if its number is not `0`, and the answer to a comparison is
`0` or `1`.

## Main definitions

* `Value`: the three kinds of value
* `Value.toNumber`: the number in a value, or a type mismatch
* `Value.describe`: what can be said of a value with a name table at hand

## Design notes

`void` is the value of a block that ran no statement.  It is not the number
`0`: using it where a number is needed is a type mismatch.
-/

namespace TreeWalk

/-- A value. -/
inductive Value where
  | number (n : Number)
  | function (f : Function)
  /-- The value of a block without statements. -/
  | void
  deriving DecidableEq

namespace Value

instance : Inhabited Value := ⟨.void⟩

/-- A truth value as a number. -/
def ofBool (b : Bool) : Value := .number (.ofBool b)

/-- The name of the type of a value. -/
def typeName : Value → String
  | .number _ => "number"
  | .function _ => "function"
  | .void => "void"

/-- The written form of a value; a function shows only its arity. -/
def text : Value → String
  | .number n => n.text
  | .function f => "<function/" ++ f.arity.repr ++ ">"
  | .void => "void"

/-- The number in a value.  The other types do not match. -/
def toNumber : Value → Except EvalError Number
  | .number n => .ok n
  | v => .error (.typeMismatch "number" v.typeName)

/-- Whether a value is the value of an empty block. -/
def isVoid : Value → Bool
  | .void => true
  | _ => false

/-- Whether a value is a function. -/
def isFunction : Value → Bool
  | .function _ => true
  | _ => false

@[simp] theorem toNumber_number (n : Number) : toNumber (.number n) = .ok n := rfl

/-- A value without a number names its own type as the one that was got. -/
theorem toNumber_eq_error_iff {v : Value} {e : EvalError} :
    v.toNumber = .error e ↔ (∀ n, v ≠ .number n) ∧ e = .typeMismatch "number" v.typeName := by
  cases v <;> simp [toNumber, eq_comm]

/-- What a description says of a function: its parameters by text, and the kinds
of its statements. -/
structure Outline where
  params : List String
  body : List Kind

/-- A value as it is reported. -/
structure Description where
  typeName : String
  text : String
  outline : Option Outline

/-- Describe a value, with the texts that a table gives to names. -/
def describe (names : NameTable) (v : Value) : Description where
  typeName := v.typeName
  text := v.text
  outline := match v with
    | .function f => some ⟨f.params.map names.lookup, f.body.map Node.kind⟩
    | _ => none

end Value

end TreeWalk

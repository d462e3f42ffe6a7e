import TreeWalk.Operator
import TreeWalk.Text.Quoted

/-!
# Evaluation errors

An evaluation that cannot go on stops with a cause.  The wording of each cause
is fixed here and nowhere else.

## Main definitions

* `EvalError`: the causes
* `EvalError.message`: their wording
* `EvalError.details`: the texts that a cause carries
* `ErrorCategory`, `EvalError.category`: a coarse grouping
-/

namespace TreeWalk

/-- Why an evaluation stopped. -/
inductive EvalError where
  /-- No scope on the way outward binds the name. -/
  | undefinedVariable (name : String)
  /-- A symbol names no operator. -/
  | unknownOperator (symbol : String)
  | divisionByZero
  | moduloByZero
  /-- The result of an operation does not fit into a number. -/
  | integerOverflow (operation : String)
  /-- A value of another type was needed. -/
  | typeMismatch (expected got : String)
  /-- The value in the place of a function is none. -/
  | notCallable (typeName : String)
  /-- A line of input is not a number. -/
  | invalidInput (input : String)
  /-- There is no line of input left. -/
  | inputExhausted
  /-- The input itself failed. -/
  | inputFailed (message : String)
  deriving DecidableEq, Repr

/-- What an error is about. -/
inductive ErrorCategory where
  | nameResolution
  | operator
  | arithmetic
  | type
  | input
  deriving DecidableEq, Repr

namespace EvalError

/-- An unknown symbol, met while a tree is built. -/
def ofUnknownSymbol (e : UnknownSymbol) : EvalError := .unknownOperator e.symbol

/-- What an error is about. -/
def category : EvalError → ErrorCategory
  | .undefinedVariable _ => .nameResolution
  | .unknownOperator _ => .operator
  | .divisionByZero | .moduloByZero | .integerOverflow _ => .arithmetic
  | .typeMismatch _ _ | .notCallable _ => .type
  | .invalidInput _ | .inputExhausted | .inputFailed _ => .input

/-- The texts that an error carries, in order. -/
def details : EvalError → List String
  | .undefinedVariable name => [name]
  | .unknownOperator symbol => [symbol]
  | .divisionByZero | .moduloByZero | .inputExhausted => []
  | .integerOverflow operation => [operation]
  | .typeMismatch expected got => [expected, got]
  | .notCallable typeName => [typeName]
  | .invalidInput input => [input]
  | .inputFailed message => [message]

/-- The wording of an error. -/
def message : EvalError → String
  | .undefinedVariable name => "undefined variable: " ++ name
  | .unknownOperator symbol => UnknownSymbol.message ⟨symbol⟩
  | .divisionByZero => "division by zero"
  | .moduloByZero => "modulo by zero"
  | .integerOverflow operation => "integer overflow in " ++ operation
  | .typeMismatch expected got => "type mismatch: expected " ++ expected ++ ", got " ++ got
  | .notCallable typeName => typeName ++ " is not callable"
  | .invalidInput input =>
    "invalid input: expected an integer, got " ++ String.ofList (Text.quote input.toList)
  | .inputExhausted => "input exhausted"
  | .inputFailed message => "failed to read input: " ++ message

end EvalError

end TreeWalk

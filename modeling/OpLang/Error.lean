import OpLang.Number.Decimal
import OpLang.Text.Position

/-! # Errors and diagnostics

An error says what is wrong and with what; its wording is in `Error.message` alone. A diagnostic is an
error that has been reported, together with the place where it was noticed.
-/

namespace OpLang

inductive Error where
  /-- A run of digits and points that is no number. -/
  | malformedNumber (run : String)
  /-- Another token was needed here. -/
  | expected (wanted : String) (found : String)
  /-- No expression starts with this token. -/
  | unknownToken (found : String)
  /-- A declared precedence lies outside the allowed range. -/
  | invalidPrecedence (value : Binary64)
  /-- An operator is declared with the wrong number of parameters. -/
  | operatorArity (name : String) (wanted found : Nat)
  | duplicateParameter (name : String) (param : String)
  | nestingTooDeep (limit : Nat)
  /-- An invariant of the library itself does not hold. -/
  | internal (fault : String)
  | unknownVariable (name : String)
  | unknownFunction (name : String)
  /-- A function is called or declared again with another number of arguments. -/
  | arityMismatch (callee : String) (wanted found : Nat)
  | unknownUnaryOperator (symbol : Char)
  | unknownBinaryOperator (symbol : Char)
  | redefinition (name : String)
  deriving DecidableEq

namespace Error

/-- Equality of errors with the equality of numbers that arithmetic has. -/
def equals : Error → Error → Bool
  | .invalidPrecedence x, .invalidPrecedence y => x.equals y
  | first, second => first = second

/-- The wording of an error. -/
def message : Error → String
  | .malformedNumber run => "malformed number literal '" ++ run ++ "'"
  | .expected wanted found => "expected " ++ wanted ++ ", found " ++ found
  | .unknownToken found => "unknown token " ++ found ++ " when expecting an expression"
  | .invalidPrecedence value =>
    "invalid precedence " ++ value.text ++ ": must be between 1 and 100"
  | .operatorArity name wanted found =>
    "invalid number of operands for operator '" ++ name ++ "': expected " ++ toString wanted ++
      ", found " ++ toString found
  | .duplicateParameter name param =>
    "duplicate parameter '" ++ param ++ "' in prototype '" ++ name ++ "'"
  | .nestingTooDeep limit => "expression nested deeper than " ++ toString limit ++ " levels"
  | .internal fault => "internal error: " ++ fault
  | .unknownVariable name => "unknown variable name '" ++ name ++ "'"
  | .unknownFunction name => "unknown function referenced: '" ++ name ++ "'"
  | .arityMismatch callee wanted found =>
    "incorrect number of arguments passed to '" ++ callee ++ "': expected " ++ toString wanted ++
      ", found " ++ toString found
  | .unknownUnaryOperator symbol => "unknown unary operator '" ++ symbol.toString ++ "'"
  | .unknownBinaryOperator symbol => "unknown binary operator '" ++ symbol.toString ++ "'"
  | .redefinition name => "function '" ++ name ++ "' cannot be redefined"

end Error

/-- A reported error with the place where it was noticed. -/
structure Diagnostic where
  error : Error
  place : Position
  deriving DecidableEq

namespace Diagnostic

def text (diagnostic : Diagnostic) : String :=
  diagnostic.place.text ++ ": " ++ diagnostic.error.message

end Diagnostic

end OpLang

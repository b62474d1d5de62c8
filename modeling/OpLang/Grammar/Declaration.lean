import OpLang.Grammar.Expression

/-! # Forms from tokens

    definition  ::= 'def' prototype expression
    external    ::= 'extern' prototype
    prototype   ::= heading '(' name* ')'
    heading     ::= name | 'unary' operator | 'binary' operator number?

The parameters of a prototype are distinct, one for a unary operator and two for a binary one. The
operator that a prototype declares is not yet an operator in its own body, since its table is read only.
-/

namespace OpLang.Grammar

/-- The precedence that a number declares: its whole part, unless the number lies outside the allowed
range. What is not a number lies on neither side of the range, and its whole part is zero. -/
def precedenceOfNumber? : Binary64 → Option Int
  | .nan => some 0
  | .finite false rank =>
    let amount := Binary64.units rank
    let one := (Binary64.unitsPerOne : Int)
    if minPrecedence * one ≤ amount ∧ amount ≤ maxPrecedence * one then some (amount / one) else none
  | _ => none

/-- The precedence of a binary operator, if a number declares one. -/
def precedence : Parse Int := do
  match ← peek with
  | .number value =>
    match precedenceOfNumber? value with
    | some declared =>
      Cursor.advance
      return declared
    | none => throw (.invalidPrecedence value)
  | _ => return defaultPrecedence

/-- The name, kind and precedence of a prototype. -/
def heading : Parse (String × OperatorKind × Int) := do
  match ← peek with
  | .ident name =>
    Cursor.advance
    return (name, .none, defaultPrecedence)
  | .keyword .unaryWord =>
    Cursor.advance
    return (unaryName (← operator "unary operator"), .prefixOp, defaultPrecedence)
  | .keyword .binaryWord =>
    Cursor.advance
    let name := binaryName (← operator "binary operator")
    return (name, .infixOp, ← precedence)
  | _ => unexpected "function name in prototype"

/-- Another parameter, if there is one; it must differ from those before it. -/
def parameter? (name : String) (before : List String) : Parse (Option String) := do
  match ← peek with
  | .ident param =>
    if param ∈ before then throw (.duplicateParameter name param)
    else
      Cursor.advance
      return some param
  | _ => return none

/-- A prototype that declares an operator has as many parameters as the operator has operands. -/
def checkArity (proto : Prototype) : Parse Prototype :=
  match proto.arity? with
  | none => return proto
  | some wanted =>
    if proto.params.length = wanted then return proto
    else throw (.operatorArity proto.name wanted proto.params.length)

/-- A prototype is complete, and the closing parenthesis passed, before its parameters are counted. -/
def prototype : Parse Prototype := do
  let (name, kind, precedence) ← heading
  expect (.char '(') "'(' in prototype"
  let params ← many (parameter? name) []
  expect (.char ')') "')' in prototype"
  checkArity ⟨name, params, kind, precedence⟩

def definition (table : OperatorTable) : Parse Function := do
  Cursor.advance
  let proto ← prototype
  return ⟨proto, ← expression table (outerOperand table)⟩

def external : Parse Prototype := do
  Cursor.advance
  prototype

/-- A top-level expression, as the function that it becomes. -/
def topLevel (table : OperatorTable) : Parse Function := do
  return .anonymous (← expression table (outerOperand table))

end OpLang.Grammar

import OpLang.Form
import OpLang.Grammar.Basic
import OpLang.Grammar.Chain

/-! # Expressions from tokens

The productions of expressions are given relative to an *operand*, the computation that reads what
stands on either side of a binary operator. An operand may contain expressions and so operands in turn;
`operandWithin` closes the circle and counts how deep they lie in each other. The operands of one chain
lie side by side, so a chain may be of any length.

    expression  ::= operand (operator operand)*
    operand     ::= operator operand | primary
    primary     ::= number | name | name '(' arguments? ')' | '(' expression ')' | if | for | var
    arguments   ::= expression (',' expression)*
    if          ::= 'if' expression 'then' expression 'else' expression
    for         ::= 'for' name '=' expression ',' expression (',' expression)? 'in' expression
    var         ::= 'var' binding (',' binding)* 'in' expression
    binding     ::= name ('=' expression)?

A production takes the token that announces it for granted and steps past it unseen.
-/

namespace OpLang.Grammar

section Productions

variable (table : OperatorTable) (operand : Parse Expr)

/-- The next link of a chain, if an operator of at least the given precedence stands here. Only a bound
below zero lets a token through that is no character, and that is a fault of the caller. -/
def link? (bound : Int) : Parse (Option Link) := do
  let token ← peek
  let precedence := table.precedence token
  if precedence < bound then return none
  match token with
  | .char symbol =>
    Cursor.advance
    return some ⟨symbol, precedence, ← operand⟩
  | _ =>
    throw (.internal
      (token.describe ++ " has precedence " ++ toString precedence ++ " but is not an operator"))

/-- The rest of a chain with operators of at least the given precedence. -/
def chain (bound : Int) (first : Expr) : Parse Expr := do
  return Link.tree first (← many (fun _ => link? table operand bound) [])

def expression : Parse Expr := do
  chain table operand 0 (← operand)

/-- What follows an argument: the end of the arguments, or a comma and another one. -/
def nextArgument : Parse (Option Expr) := do
  if (← peek) = .char ')' then return none
  if (← peek) = .char ',' then
    Cursor.advance
    return some (← expression table operand)
  unexpected "')' or ',' in argument list"

/-- Arguments up to a closing parenthesis, which may stand here at once. -/
def arguments : Parse (List Expr) := do
  if (← peek) = .char ')' then return []
  let first ← expression table operand
  return first :: (← many (fun _ => nextArgument table operand) [])

/-- A variable, or a call if a parenthesis follows the name. -/
def nameOrCall (name : String) : Parse Expr := do
  Cursor.advance
  if (← peek) = .char '(' then
    Cursor.advance
    let args ← arguments table operand
    Cursor.advance
    return .call name args
  return .var name

def parenthesized : Parse Expr := do
  Cursor.advance
  let inner ← expression table operand
  expect (.char ')') "')'"
  return inner

def ifElse : Parse Expr := do
  Cursor.advance
  let condition ← expression table operand
  expect (.keyword .thenWord) "'then'"
  let thenBranch ← expression table operand
  expect (.keyword .elseWord) "'else'"
  return .ifElse condition thenBranch (← expression table operand)

/-- The step of a loop, if a comma announces one. -/
def step? : Parse (Option Expr) := do
  if (← peek) = .char ',' then
    Cursor.advance
    return some (← expression table operand)
  return none

def forIn : Parse Expr := do
  Cursor.advance
  let name ← identifier "identifier after 'for'"
  expect (.char '=') "'=' after for variable"
  let start ← expression table operand
  expect (.char ',') "',' after for start value"
  let finish ← expression table operand
  let step ← step? table operand
  expect (.keyword .inWord) "'in' after for"
  return .forIn name start finish step (← expression table operand)

/-- A name with an initializer, if an equals sign announces one. -/
def binding : Parse (String × Option Expr) := do
  let name ← identifier "identifier after 'var'"
  if (← peek) = .char '=' then
    Cursor.advance
    return (name, some (← expression table operand))
  return (name, none)

/-- Another binding, if a comma announces one. -/
def nextBinding : Parse (Option (String × Option Expr)) := do
  if (← peek) = .char ',' then
    Cursor.advance
    return some (← binding table operand)
  return none

def varIn : Parse Expr := do
  Cursor.advance
  let first ← binding table operand
  let others ← many (fun _ => nextBinding table operand) []
  expect (.keyword .inWord) "'in' after 'var'"
  return .varIn (first :: others) (← expression table operand)

def primary : Parse Expr := do
  match ← peek with
  | .ident name => nameOrCall table operand name
  | .number value =>
    Cursor.advance
    return .number value
  | .char '(' => parenthesized table operand
  | .keyword .ifWord => ifElse table operand
  | .keyword .forWord => forIn table operand
  | .keyword .varWord => varIn table operand
  | token => throw (.unknownToken token.describe)

/-- An operand with its prefix operators. Every ASCII character but the opening parenthesis and the
comma may be one; whether it has been declared is not asked here. -/
def prefixed : Parse Expr := do
  match (← peek).symbol? with
  | some symbol =>
    if symbol = '(' || symbol = ',' then primary table operand
    else
      Cursor.advance
      return .unary symbol (← operand)
  | none => primary table operand

end Productions

/-- How deep operands may lie in each other. -/
def maxNesting : Nat := 256

/-- An operand with operands in it down to the given number of levels. -/
def operandWithin (table : OperatorTable) : Nat → Parse Expr
  | 0 => throw (.nestingTooDeep maxNesting)
  | levels + 1 => prefixed table (operandWithin table levels)

/-- An operand at the outermost level. -/
def outerOperand (table : OperatorTable) : Parse Expr := operandWithin table maxNesting

end OpLang.Grammar

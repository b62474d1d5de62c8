import OpLang.Form

/-! # Text of trees

Trees are written as symbolic expressions: an operator, the name of a construct or a call comes first in
its parentheses, and its parts follow, one space before each. A prototype shows its precedence only if
it declares a binary operator.
-/

namespace OpLang

/-- Words with one space between each two. -/
def spaced (words : List String) : String := " ".intercalate words

mutual

/-- The written form of an expression. -/
def Expr.text : Expr → String
  | .number value => value.text
  | .var name => name
  | .unary symbol operand => "(" ++ symbol.toString ++ " " ++ operand.text ++ ")"
  | .binary symbol lhs rhs => "(" ++ symbol.toString ++ " " ++ lhs.text ++ " " ++ rhs.text ++ ")"
  | .call callee args => "(call " ++ callee ++ Expr.argsText args ++ ")"
  | .ifElse condition thenBranch elseBranch =>
    "(if " ++ condition.text ++ " " ++ thenBranch.text ++ " " ++ elseBranch.text ++ ")"
  | .forIn name start finish step body =>
    "(for (" ++ name ++ " " ++ start.text ++ " " ++ finish.text ++ Expr.stepText step ++ ") " ++
      body.text ++ ")"
  | .varIn bindings body => "(var (" ++ spaced (Expr.bindingTexts bindings) ++ ") " ++ body.text ++ ")"

/-- Arguments, each after a space. -/
def Expr.argsText : List Expr → String
  | [] => ""
  | arg :: args => " " ++ arg.text ++ Expr.argsText args

/-- A step after a space, or nothing. -/
def Expr.stepText : Option Expr → String
  | none => ""
  | some step => " " ++ step.text

/-- A binding is its name with the initializer, if there is one. -/
def Expr.bindingTexts : List (String × Option Expr) → List String
  | [] => []
  | (name, some init) :: bindings =>
    ("(" ++ name ++ " " ++ init.text ++ ")") :: Expr.bindingTexts bindings
  | (name, none) :: bindings => ("(" ++ name ++ ")") :: Expr.bindingTexts bindings

end

/-- The written form of a prototype. -/
def Prototype.text (proto : Prototype) : String :=
  let precedence := if proto.kind = .infixOp then " " ++ toString proto.precedence else ""
  "(proto " ++ proto.name ++ precedence ++ " (" ++ spaced proto.params ++ "))"

/-- The written form of a function. -/
def Function.text (function : Function) : String :=
  "(def " ++ function.proto.text ++ " " ++ function.body.text ++ ")"

/-- The written form of a form is that of its function or prototype. -/
def Form.text : Form → String
  | .definition function => function.text
  | .external proto => proto.text
  | .expression function => function.text

end OpLang

import OpLang.Number.Binary64

/-! # Expressions

The tree of an expression. Parentheses leave no trace in it, and a call is told from an operator by its
node. Every operation on trees comes in four parts: for a tree, for the arguments of a call, for an
optional step, and for the bindings of a `var`.
-/

namespace OpLang

inductive Expr where
  | number (value : Binary64)
  | var (name : String)
  | unary (symbol : Char) (operand : Expr)
  | binary (symbol : Char) (lhs rhs : Expr)
  | call (callee : String) (args : List Expr)
  | ifElse (condition thenBranch elseBranch : Expr)
  /-- A loop over `name`; without a step the variable goes up by one. -/
  | forIn (name : String) (start finish : Expr) (step : Option Expr) (body : Expr)
  /-- Local variables; one without an initializer starts at zero. -/
  | varIn (bindings : List (String × Option Expr)) (body : Expr)

end OpLang

import OpLang.Expr.Basic

/-! # Operator chains

A chain is an operand followed by any number of links, each a binary operator with its right operand.
Precedences alone decide the tree of a chain: of two neighbouring operators the one of greater
precedence takes the operand between them, and of equal ones the left.
-/

namespace OpLang

/-- A binary operator with its precedence and the operand after it. -/
structure Link where
  symbol : Char
  precedence : Int
  operand : Expr

/-- A binary operator whose right operand may still grow, with its complete left operand. -/
structure Pending where
  lhs : Expr
  symbol : Char
  precedence : Int

namespace Pending

/-- Completes an operator. -/
def complete (pending : Pending) (rhs : Expr) : Expr := .binary pending.symbol pending.lhs rhs

/-- Completes the pending operators, innermost first, that bind at least as tightly as the bound. -/
def completeDownTo (bound : Int) : List Pending → Expr → List Pending × Expr
  | [], rhs => ([], rhs)
  | innermost :: outer, rhs =>
    if bound ≤ innermost.precedence then completeDownTo bound outer (innermost.complete rhs)
    else (innermost :: outer, rhs)

end Pending

namespace Link

/-- The tree of a chain below pending operators, innermost first. -/
def treeBelow : List Pending → Expr → List Link → Expr
  | pending, operand, [] => pending.foldl (fun rhs outer => outer.complete rhs) operand
  | pending, operand, link :: links =>
    let (outer, lhs) := Pending.completeDownTo link.precedence pending operand
    treeBelow (⟨lhs, link.symbol, link.precedence⟩ :: outer) link.operand links

/-- The tree of a chain. -/
def tree (operand : Expr) (links : List Link) : Expr := treeBelow [] operand links

end Link

end OpLang

import OpLang.Expr.Equality
import OpLang.OperatorTable

/-! # Forms

A program is a sequence of forms: definitions, prototypes of functions defined elsewhere, and
expressions. An operator is a function with a name of its own kind, so a definition of one looks like
any other definition; its prototype tells what it declares.
-/

namespace OpLang

/-- Whether a prototype declares an operator, and where the operator stands. -/
inductive OperatorKind where
  | none
  | prefixOp
  | infixOp
  deriving DecidableEq

/-- The name of the function behind a unary operator. -/
def unaryName (symbol : Char) : String := "unary" ++ symbol.toString

/-- The name of the function behind a binary operator. -/
def binaryName (symbol : Char) : String := "binary" ++ symbol.toString

/-- The name of the function that a top-level expression becomes. It is no identifier, so no program
can use it. -/
def anonymousName : String := "__anon_expr"

/-- What a function looks like to its callers. -/
structure Prototype where
  name : String
  params : List String
  kind : OperatorKind := .none
  /-- Means something for a binary operator only. -/
  precedence : Int := defaultPrecedence
  deriving DecidableEq

namespace Prototype

/-- The declared operator: the last character of the name. -/
def operator? (proto : Prototype) : Option Char :=
  match proto.kind with
  | .none => none
  | _ => proto.name.toList.getLast?

/-- How many operands an operator takes. -/
def arity? (proto : Prototype) : Option Nat :=
  match proto.kind with
  | .none => none
  | .prefixOp => some 1
  | .infixOp => some 2

/-- What a prototype adds to an operator table: only binary operators have precedences. -/
def declared? (proto : Prototype) : Option (Char × Int) :=
  if proto.kind = .infixOp then proto.operator?.map fun symbol => (symbol, proto.precedence) else none

end Prototype

/-- The table once a prototype has been read. -/
def OperatorTable.declarePrototype (table : OperatorTable) (proto : Prototype) : OperatorTable :=
  table.declareAll proto.declared?.toList

structure Function where
  proto : Prototype
  body : Expr
  deriving DecidableEq

namespace Function

/-- The function that a top-level expression becomes. -/
def anonymous (body : Expr) : Function := ⟨{ name := anonymousName, params := [] }, body⟩

end Function

inductive FormKind where
  | definition
  | external
  | expression
  deriving DecidableEq

namespace FormKind

/-- How messages name a kind of form. -/
def describe : FormKind → String
  | .definition => "Definition"
  | .external => "Extern"
  | .expression => "TopLevelExpression"

end FormKind

/-- A complete top-level form. -/
inductive Form where
  | definition (function : Function)
  | external (proto : Prototype)
  | expression (function : Function)
  deriving DecidableEq

namespace Form

def kind : Form → FormKind
  | .definition _ => .definition
  | .external _ => .external
  | .expression _ => .expression

end Form

end OpLang

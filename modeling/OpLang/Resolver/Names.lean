import OpLang.FunctionTable
import OpLang.ScopeStack

/-! # Names in a tree

A variable must be bound around its use; a function must be known and called with as many arguments as
it has parameters; an operator must be built in or be declared by a known function. The first name that
is wrong is the error, in the order in which the tree is checked.
-/

namespace OpLang

/-- What binds a variable. -/
inductive Binder where
  | parameter
  | localVariable
  | loopVariable
  deriving DecidableEq

/-- A check that opens and closes scopes and may fail. -/
abbrev Resolve := EStateM Error (ScopeStack Binder)

namespace Resolve

/-- Binds a name in the innermost scope. -/
def introduce (binder : Binder) (name : String) : Resolve Unit :=
  modify fun scopes => (scopes.bind name binder).2

section Trees

variable (functions : FunctionTable)

mutual

/-- Checks the names of an expression from left to right, operands before their operator and a callee
before its arguments. The start of a loop lies outside the scope of its variable, and an initializer
outside that of its own name. -/
def expr : Expr → Resolve Unit
  | .number _ => pure ()
  | .var name => do
    if ((← get).find? name).isNone then throw (.unknownVariable name)
  | .unary symbol operand => do
    expr operand
    if !functions.knows (unaryName symbol) then throw (.unknownUnaryOperator symbol)
  | .binary symbol lhs rhs => do
    expr lhs
    expr rhs
    if !functions.knowsBinary symbol then throw (.unknownBinaryOperator symbol)
  | .call callee args =>
    match functions.find? callee with
    | none => throw (.unknownFunction callee)
    | some proto =>
      if proto.params.length = args.length then arguments args
      else throw (.arityMismatch callee proto.params.length args.length)
  | .ifElse condition thenBranch elseBranch => do
    expr condition
    expr thenBranch
    expr elseBranch
  | .forIn name start finish step? body => do
    expr start
    ScopeStack.within do
      introduce .loopVariable name
      expr finish
      step step?
      expr body
  | .varIn names body =>
    ScopeStack.within do
      bindings names
      expr body

def arguments : List Expr → Resolve Unit
  | [] => pure ()
  | arg :: args => do
    expr arg
    arguments args

def step : Option Expr → Resolve Unit
  | none => pure ()
  | some amount => expr amount

def bindings : List (String × Option Expr) → Resolve Unit
  | [] => pure ()
  | (name, some init) :: later => do
    expr init
    introduce .localVariable name
    bindings later
  | (name, none) :: later => do
    introduce .localVariable name
    bindings later

end

/-- Checks a function: its parameters are bound in its body. -/
def function (function : Function) : Resolve Unit :=
  ScopeStack.within do
    function.proto.params.forM (introduce .parameter)
    expr functions function.body

/-- A prototype holds no names to check. -/
def prototype (_proto : Prototype) : Resolve Unit := pure ()

end Trees

end Resolve

end OpLang

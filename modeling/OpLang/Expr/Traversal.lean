import OpLang.Form

/-! # Traversal

A traversal goes through a tree in pre-order. What happens at a node is up to a *visitor*, which is
given the label of the node, that is the node without its sub-expressions, and the traversal of its
sub-expressions as a function on the state. Descending without any action is the default of every kind
of node; a visitor may act before or after it, or leave sub-expressions out.
-/

namespace OpLang

/-- A node without its sub-expressions. -/
inductive Label where
  | number (value : Binary64)
  | var (name : String)
  | unary (symbol : Char)
  | binary (symbol : Char)
  | call (callee : String) (argCount : Nat)
  | ifElse
  | forIn (name : String) (hasStep : Bool)
  /-- Each name with whether it has an initializer. -/
  | varIn (bindings : List (String × Bool))
  | prototype (proto : Prototype)
  | function
  deriving DecidableEq

inductive NodeKind where
  | number
  | var
  | unary
  | binary
  | call
  | ifElse
  | forIn
  | varIn
  | prototype
  | function
  deriving DecidableEq

namespace Label

def kind : Label → NodeKind
  | .number _ => .number
  | .var _ => .var
  | .unary _ => .unary
  | .binary _ => .binary
  | .call _ _ => .call
  | .ifElse => .ifElse
  | .forIn _ _ => .forIn
  | .varIn _ => .varIn
  | .prototype _ => .prototype
  | .function => .function

/-- A bound name, marked if it has an initializer. -/
def bindingText (binding : String × Bool) : String := if binding.2 then binding.1 ++ "=" else binding.1

/-- One line that shows the whole label. -/
def text : Label → String
  | .number value => "number " ++ value.text
  | .var name => "variable " ++ name
  | .unary symbol => "unary " ++ symbol.toString
  | .binary symbol => "binary " ++ symbol.toString
  | .call callee argCount => "call/" ++ toString argCount ++ " " ++ callee
  | .ifElse => "if"
  | .forIn name true => "for/step " ++ name
  | .forIn name false => "for/nostep " ++ name
  | .varIn bindings =>
    "var/" ++ toString bindings.length ++ " " ++ ",".intercalate (bindings.map bindingText)
  | .prototype proto => "proto/" ++ toString proto.params.length ++ " " ++ proto.name
  | .function => "function"

/-- The number, name or operator that a label carries. -/
def head : Label → String
  | .number value => value.text
  | .var name | .forIn name _ => name
  | .unary symbol | .binary symbol => symbol.toString
  | .call callee _ => callee
  | .ifElse | .varIn _ | .function => ""
  | .prototype proto => proto.name

end Label

/-- What a traversal with state `σ` does at a node, given the traversal of its sub-expressions. -/
abbrev Visitor (σ : Type) := Label → (σ → σ) → σ → σ

namespace Visitor

variable {σ : Type}

/-- Acts on the chosen kinds of nodes and just descends into the others. -/
def overriding (kinds : List NodeKind) (action : Visitor σ) : Visitor σ :=
  fun label descend => if label.kind ∈ kinds then action label descend else descend

/-- Notes a label and descends. -/
def logging : Visitor (List Label) := fun label descend log => descend (log ++ [label])

/-- Notes a label and leaves its sub-expressions out. -/
def stopping : Visitor (List Label) := fun label _ log => log ++ [label]

end Visitor

section Visit

variable {σ : Type} (visitor : Visitor σ)

mutual

/-- Traverses an expression, sub-expressions from left to right. -/
def Expr.visit : Expr → σ → σ
  | .number value => visitor (.number value) id
  | .var name => visitor (.var name) id
  | .unary symbol operand => visitor (.unary symbol) operand.visit
  | .binary symbol lhs rhs => visitor (.binary symbol) fun state => rhs.visit (lhs.visit state)
  | .call callee args => visitor (.call callee args.length) (Expr.visitArgs args)
  | .ifElse condition thenBranch elseBranch =>
    visitor .ifElse fun state => elseBranch.visit (thenBranch.visit (condition.visit state))
  | .forIn name start finish step body =>
    visitor (.forIn name step.isSome) fun state =>
      body.visit (Expr.visitStep step (finish.visit (start.visit state)))
  | .varIn bindings body =>
    visitor (.varIn (bindings.map fun binding => (binding.1, binding.2.isSome))) fun state =>
      body.visit (Expr.visitBindings bindings state)

def Expr.visitArgs : List Expr → σ → σ
  | [], state => state
  | arg :: args, state => Expr.visitArgs args (arg.visit state)

def Expr.visitStep : Option Expr → σ → σ
  | none, state => state
  | some step, state => step.visit state

def Expr.visitBindings : List (String × Option Expr) → σ → σ
  | [], state => state
  | (_, some init) :: bindings, state => Expr.visitBindings bindings (init.visit state)
  | (_, none) :: bindings, state => Expr.visitBindings bindings state

end

def Prototype.visit (proto : Prototype) : σ → σ := visitor (.prototype proto) id

/-- Traverses a function, its prototype before its body. -/
def Function.visit (function : Function) : σ → σ :=
  visitor .function fun state => function.body.visit visitor (function.proto.visit visitor state)

end Visit

/-- The trees that visitors can be sent through. -/
class Visitable (α : Type) where
  visit : {σ : Type} → Visitor σ → α → σ → σ

instance : Visitable Expr := ⟨Expr.visit⟩
instance : Visitable Prototype := ⟨Prototype.visit⟩
instance : Visitable Function := ⟨Function.visit⟩

namespace Visitable

variable {α : Type} [Visitable α]

/-- The labels of all nodes, in pre-order. -/
def trace (tree : α) : List Label := visit Visitor.logging tree []

/-- The labels of the numbers and variables, in pre-order. -/
def leaves (tree : α) : List Label :=
  visit (Visitor.overriding [.number, .var] Visitor.logging) tree []

/-- The labels of the operators and calls that lie in no other operator or call. -/
def heads (tree : α) : List Label :=
  visit (Visitor.overriding [.unary, .binary, .call] Visitor.stopping) tree []

end Visitable

end OpLang

import OpLang.Expr.Traversal

/-! # Traces

The trace of a tree is the label of its root followed by the traces of its parts, in the order in which the parts
are visited. For a traversal only adds to the labels that it has noted, and so does every part of it.
-/

namespace OpLang

open Visitable

/-- The walk notes the given labels, one after the other, and leaves alone what has been noted before. -/
def Notes (walk : List Label → List Label) (labels : List Label) : Prop := ∀ log, walk log = log ++ labels

namespace Notes

variable {first second walk : List Label → List Label} {before after labels : List Label}

theorem id : Notes (fun log => log) [] := fun log => (List.append_nil log).symm

theorem comp (noted : Notes first before) (notedLater : Notes second after) :
    Notes (fun log => second (first log)) (before ++ after) := by
  intro log
  dsimp only
  rw [noted, notedLater, List.append_assoc]

theorem logging (noted : Notes walk labels) (label : Label) :
    Notes (Visitor.logging label walk) (label :: labels) := by
  intro log
  rw [Visitor.logging, noted, List.append_assoc, List.singleton_append]

theorem nil_eq (noted : Notes walk labels) : walk [] = labels := noted []

/-- What a walk notes is what it notes first of all. -/
theorem self (noted : Notes walk labels) : Notes walk (walk []) := noted.nil_eq ▸ noted

end Notes

namespace Expr

/-- The labels of a part that may be missing. -/
def traceOfOption : Option Expr → List Label
  | none => []
  | some expr => trace expr

@[simp] theorem mem_traceOfOption {part : Option Expr} {label : Label} :
    label ∈ traceOfOption part ↔ ∃ expr ∈ part, label ∈ trace expr := by
  cases part <;> simp [traceOfOption]

mutual

theorem visit_notes : (expr : Expr) → Notes (expr.visit Visitor.logging) (trace expr)
  | .number _ => (Notes.id.logging _).self
  | .var _ => (Notes.id.logging _).self
  | .unary _ operand => ((visit_notes operand).logging _).self
  | .binary _ lhs rhs => (((visit_notes lhs).comp (visit_notes rhs)).logging _).self
  | .call _ args => ((visitArgs_notes args).logging _).self
  | .ifElse condition thenBranch elseBranch =>
    ((((visit_notes condition).comp (visit_notes thenBranch)).comp (visit_notes elseBranch)).logging _).self
  | .forIn _ start finish step body =>
    (((((visit_notes start).comp (visit_notes finish)).comp (visitStep_notes step)).comp
      (visit_notes body)).logging _).self
  | .varIn bindings body => (((visitBindings_notes bindings).comp (visit_notes body)).logging _).self

theorem visitArgs_notes : (args : List Expr) → Notes (visitArgs Visitor.logging args) (args.flatMap trace)
  | [] => .id
  | arg :: args => (visit_notes arg).comp (visitArgs_notes args)

theorem visitStep_notes :
    (step : Option Expr) → Notes (visitStep Visitor.logging step) (traceOfOption step)
  | none => .id
  | some amount => visit_notes amount

theorem visitBindings_notes : (bindings : List (String × Option Expr)) →
    Notes (visitBindings Visitor.logging bindings) (bindings.flatMap fun binding => traceOfOption binding.2)
  | [] => .id
  | (_, some init) :: bindings => (visit_notes init).comp (visitBindings_notes bindings)
  | (_, none) :: bindings => visitBindings_notes bindings

end

@[simp] theorem trace_number (value : Binary64) : trace (Expr.number value) = [.number value] := rfl

@[simp] theorem trace_var (name : String) : trace (Expr.var name) = [.var name] := rfl

@[simp] theorem trace_unary (symbol : Char) (operand : Expr) :
    trace (Expr.unary symbol operand) = .unary symbol :: trace operand :=
  ((visit_notes operand).logging _).nil_eq

@[simp] theorem trace_binary (symbol : Char) (lhs rhs : Expr) :
    trace (Expr.binary symbol lhs rhs) = .binary symbol :: (trace lhs ++ trace rhs) :=
  (((visit_notes lhs).comp (visit_notes rhs)).logging _).nil_eq

@[simp] theorem trace_call (callee : String) (args : List Expr) :
    trace (Expr.call callee args) = .call callee args.length :: args.flatMap trace :=
  ((visitArgs_notes args).logging _).nil_eq

@[simp] theorem trace_ifElse (condition thenBranch elseBranch : Expr) :
    trace (Expr.ifElse condition thenBranch elseBranch) =
      .ifElse :: (trace condition ++ trace thenBranch ++ trace elseBranch) :=
  ((((visit_notes condition).comp (visit_notes thenBranch)).comp (visit_notes elseBranch)).logging _).nil_eq

@[simp] theorem trace_forIn (name : String) (start finish body : Expr) (step : Option Expr) :
    trace (Expr.forIn name start finish step body) =
      .forIn name step.isSome :: (trace start ++ trace finish ++ traceOfOption step ++ trace body) :=
  (((((visit_notes start).comp (visit_notes finish)).comp (visitStep_notes step)).comp
    (visit_notes body)).logging _).nil_eq

@[simp] theorem trace_varIn (bindings : List (String × Option Expr)) (body : Expr) :
    trace (Expr.varIn bindings body) =
      .varIn (bindings.map fun binding => (binding.1, binding.2.isSome)) ::
        (bindings.flatMap (fun binding => traceOfOption binding.2) ++ trace body) :=
  (((visitBindings_notes bindings).comp (visit_notes body)).logging _).nil_eq

end Expr

@[simp] theorem Function.trace_eq (function : Function) :
    trace function = .function :: .prototype function.proto :: trace function.body :=
  (((Notes.id.logging (.prototype function.proto)).comp function.body.visit_notes).logging .function).nil_eq

end OpLang

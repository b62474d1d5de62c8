import OpLang.Proofs.Trace
import OpLang.Proofs.Unambiguous

/-! # Traces are complete

A traversal in pre-order leaves nothing out: the trace of a tree can be read back. The reader goes from the last label
to the first and keeps the trees that it has put together, so that a label finds its sub-expressions in front of all
that comes later. What a visitor of some kinds of nodes notes is the trace without the other kinds.
-/

namespace OpLang

open Visitable

namespace Expr

/-- The node at the root. -/
def label : Expr → Label
  | .number value => .number value
  | .var name => .var name
  | .unary symbol _ => .unary symbol
  | .binary symbol _ _ => .binary symbol
  | .call callee args => .call callee args.length
  | .ifElse _ _ _ => .ifElse
  | .forIn name _ _ step _ => .forIn name step.isSome
  | .varIn bindings _ => .varIn (bindings.map fun binding => (binding.1, binding.2.isSome))

/-- The sub-expressions of the root, from left to right. -/
def children : Expr → List Expr
  | .number _ | .var _ => []
  | .unary _ operand => [operand]
  | .binary _ lhs rhs => [lhs, rhs]
  | .call _ args => args
  | .ifElse condition thenBranch elseBranch => [condition, thenBranch, elseBranch]
  | .forIn _ start finish step body => start :: finish :: (step.toList ++ [body])
  | .varIn bindings body => bindings.filterMap Prod.snd ++ [body]

theorem children_induction {motive : Expr → Prop}
    (node : ∀ expr : Expr, (∀ child ∈ expr.children, motive child) → motive expr) (expr : Expr) : motive expr := by
  induction expr using parts_induction with
  | number value => exact node _ (List.forall_mem_nil _)
  | var name => exact node _ (List.forall_mem_nil _)
  | unary symbol operand inner => exact node _ (List.forall_mem_singleton.mpr inner)
  | binary symbol lhs rhs left right => exact node _ (by simp [children, left, right])
  | call callee args each => exact node _ each
  | ifElse condition thenBranch elseBranch test yes no => exact node _ (by simp [children, test, yes, no])
  | forIn name start finish step body first last stride inner =>
    refine node _ ?_
    simp only [children, List.forall_mem_cons, List.forall_mem_append, Option.mem_toList]
    exact ⟨first, last, stride, inner, List.forall_mem_nil _⟩
  | varIn bindings body each inner =>
    refine node _ ?_
    simp only [children, List.forall_mem_append, List.mem_filterMap, forall_exists_index, and_imp]
    exact ⟨fun child binding member here => each binding member child here, List.forall_mem_singleton.mpr inner⟩

/-! ## Visits -/

section Visits

variable {σ : Type} (visitor : Visitor σ)

/-- Visits one expression after the other. -/
def visitAll (exprs : List Expr) (state : σ) : σ := exprs.foldl (fun state expr => expr.visit visitor state) state

theorem visitArgs_eq (args : List Expr) : visitArgs visitor args = visitAll visitor args := by
  induction args with
  | nil => rfl
  | cons arg args ih =>
    funext state
    rw [visitArgs, ih]
    rfl

theorem visitStep_eq (step : Option Expr) : visitStep visitor step = visitAll visitor step.toList := by
  cases step <;> rfl

theorem visitBindings_eq (bindings : List (String × Option Expr)) :
    visitBindings visitor bindings = visitAll visitor (bindings.filterMap Prod.snd) := by
  induction bindings with
  | nil => rfl
  | cons binding bindings ih =>
    obtain ⟨name, init⟩ := binding
    funext state
    cases init <;> rw [visitBindings, ih] <;> rfl

theorem visitAll_append (first later : List Expr) (state : σ) :
    visitAll visitor (first ++ later) state = visitAll visitor later (visitAll visitor first state) :=
  List.foldl_append

/-- A visitor meets a node with the visit of its sub-expressions, each once and from left to right. -/
theorem visit_eq (expr : Expr) : expr.visit visitor = visitor expr.label (visitAll visitor expr.children) := by
  cases expr with
  | call callee args => rw [visit, visitArgs_eq, label, children]
  | forIn name start finish step body =>
    rw [visit, visitStep_eq, label, children]
    congr 1
    funext state
    exact (visitAll_append visitor (start :: finish :: step.toList) [body] state).symm
  | varIn bindings body =>
    rw [visit, visitBindings_eq, label, children]
    congr 1
    funext state
    exact (visitAll_append visitor _ [body] state).symm
  | _ => rfl

end Visits

/-! ## What is noted -/

end Expr

namespace Notes

variable {kinds : List NodeKind} {walk : List Label → List Label} {labels : List Label}

theorem visitAll {visitor : Visitor (List Label)} {exprs : List Expr} {noted : Expr → List Label}
    (each : ∀ expr ∈ exprs, Notes (expr.visit visitor) (noted expr)) :
    Notes (Expr.visitAll visitor exprs) (exprs.flatMap noted) := by
  induction exprs with
  | nil => exact .id
  | cons expr exprs ih =>
    obtain ⟨here, later⟩ := List.forall_mem_cons.mp each
    exact here.comp (ih later)

theorem overriding (noted : Notes walk (labels.filter (·.kind ∈ kinds))) (label : Label) :
    Notes (Visitor.overriding kinds Visitor.logging label walk) ((label :: labels).filter (·.kind ∈ kinds)) := by
  rw [List.filter_cons]
  by_cases chosen : label.kind ∈ kinds
  · rw [if_pos (decide_eq_true chosen)]
    intro log
    rw [Visitor.overriding, if_pos chosen, noted.logging]
  · rw [if_neg (by simpa using chosen)]
    intro log
    rw [Visitor.overriding, if_neg chosen, noted]

end Notes

namespace Expr

theorem trace_eq_cons (expr : Expr) : trace expr = expr.label :: expr.children.flatMap trace := by
  change expr.visit Visitor.logging [] = _
  rw [visit_eq]
  exact ((Notes.visitAll fun child _ => child.visit_notes).logging expr.label).nil_eq

theorem visit_overriding_notes (kinds : List NodeKind) (expr : Expr) :
    Notes (expr.visit (Visitor.overriding kinds Visitor.logging)) ((trace expr).filter (·.kind ∈ kinds)) := by
  induction expr using children_induction with
  | node expr ih =>
    rw [visit_eq, trace_eq_cons]
    refine Notes.overriding ?_ expr.label
    rw [List.filter_flatMap]
    exact Notes.visitAll ih

end Expr

theorem Function.visit_overriding_notes (kinds : List NodeKind) (function : Function) :
    Notes (function.visit (Visitor.overriding kinds Visitor.logging)) ((trace function).filter (·.kind ∈ kinds)) := by
  have proto : Notes (function.proto.visit (Visitor.overriding kinds Visitor.logging))
      ([.prototype function.proto].filter (·.kind ∈ kinds)) := Notes.id.overriding _
  have inner := proto.comp (function.body.visit_overriding_notes kinds)
  rw [← List.filter_append] at inner
  rw [Function.trace_eq]
  exact inner.overriding .function

/-! ## Reading a trace -/

namespace Label

/-- Gives the next trees to the names that have initializers. -/
def initialize? : List (String × Bool) → List Expr → Option (List (String × Option Expr) × List Expr)
  | [], next => some ([], next)
  | (name, false) :: names, next =>
    (initialize? names next).map fun (bindings, rest) => ((name, none) :: bindings, rest)
  | (name, true) :: names, init :: next =>
    (initialize? names next).map fun (bindings, rest) => ((name, some init) :: bindings, rest)
  | (_, true) :: _, [] => none

/-- Puts a node on the next trees, as many as it takes. -/
def assemble? : Label → List Expr → Option (List Expr)
  | .number value, next => some (.number value :: next)
  | .var name, next => some (.var name :: next)
  | .unary symbol, operand :: next => some (.unary symbol operand :: next)
  | .binary symbol, lhs :: rhs :: next => some (.binary symbol lhs rhs :: next)
  | .call callee argCount, next =>
    if argCount ≤ next.length then some (.call callee (next.take argCount) :: next.drop argCount) else none
  | .ifElse, condition :: thenBranch :: elseBranch :: next =>
    some (.ifElse condition thenBranch elseBranch :: next)
  | .forIn name true, start :: finish :: step :: body :: next =>
    some (.forIn name start finish (some step) body :: next)
  | .forIn name false, start :: finish :: body :: next => some (.forIn name start finish none body :: next)
  | .varIn names, next =>
    match initialize? names next with
    | some (bindings, body :: rest) => some (.varIn bindings body :: rest)
    | _ => none
  | _, _ => none

theorem initialize?_initializers (bindings : List (String × Option Expr)) (rest : List Expr) :
    initialize? (bindings.map fun binding => (binding.1, binding.2.isSome)) (bindings.filterMap Prod.snd ++ rest) =
      some (bindings, rest) := by
  induction bindings with
  | nil => rfl
  | cons binding bindings ih =>
    obtain ⟨name, init⟩ := binding
    cases init <;>
    · change Option.map _ (initialize? (bindings.map _) (bindings.filterMap Prod.snd ++ rest)) = _
      rw [ih]
      rfl

theorem eq_of_initialize? {names : List (String × Bool)} {next rest : List Expr}
    {bindings : List (String × Option Expr)} (initialized : initialize? names next = some (bindings, rest)) :
    names = bindings.map (fun binding => (binding.1, binding.2.isSome)) ∧
      next = bindings.filterMap Prod.snd ++ rest := by
  fun_induction initialize? names next generalizing bindings with
  | case1 next =>
    cases initialized
    exact ⟨rfl, rfl⟩
  | case2 next name names ih =>
    obtain ⟨⟨others, last⟩, found, same⟩ := Option.map_eq_some_iff.mp initialized
    cases same
    obtain ⟨rfl, rfl⟩ := ih found
    exact ⟨rfl, rfl⟩
  | case3 name names init next ih =>
    obtain ⟨⟨others, last⟩, found, same⟩ := Option.map_eq_some_iff.mp initialized
    cases same
    obtain ⟨rfl, rfl⟩ := ih found
    exact ⟨rfl, rfl⟩
  | case4 => cases initialized

theorem assemble?_label (expr : Expr) (rest : List Expr) :
    expr.label.assemble? (expr.children ++ rest) = some (expr :: rest) := by
  cases expr with
  | call callee args => simp [Expr.label, Expr.children, assemble?]
  | forIn name start finish step body => cases step <;> rfl
  | varIn bindings body =>
    rw [Expr.label, Expr.children, List.append_assoc, assemble?, initialize?_initializers]
    rfl
  | _ => rfl

theorem assemble?_eq_some_iff {label : Label} {next trees : List Expr} :
    label.assemble? next = some trees ↔
      ∃ expr rest, trees = expr :: rest ∧ label = expr.label ∧ next = expr.children ++ rest := by
  constructor
  · -- arguments are cut off by their number, and initializers are given out by name; all else is matched tree by tree
    fun_cases assemble? label next with
    | case5 callee argCount next enough =>
      rintro ⟨⟩
      refine ⟨_, _, rfl, ?_, (List.take_append_drop _ _).symm⟩
      rw [Expr.label, List.length_take, Nat.min_eq_left enough]
    | case10 names next bindings body rest initialized =>
      rintro ⟨⟩
      obtain ⟨rfl, rfl⟩ := eq_of_initialize? initialized
      refine ⟨_, _, rfl, rfl, ?_⟩
      rw [Expr.children, List.append_assoc]
      rfl
    | case6 | case11 | case12 => exact nofun
    | _ =>
      rintro ⟨⟩
      exact ⟨_, _, rfl, rfl, rfl⟩
  · rintro ⟨expr, rest, rfl, rfl, rfl⟩
    exact assemble?_label expr rest

end Label

/-- The trees that are noted one after the other, if they are complete. -/
def ofLabels? : List Label → Option (List Expr)
  | [] => some []
  | label :: labels => (ofLabels? labels).bind label.assemble?

theorem ofLabels?_eq_some_iff {labels : List Label} {trees : List Expr} :
    ofLabels? labels = some trees ↔ labels = trees.flatMap trace := by
  induction labels generalizing trees with
  | nil =>
    cases trees with
    | nil => exact iff_of_true rfl rfl
    | cons expr rest => simp [ofLabels?, Expr.trace_eq_cons]
  | cons label labels ih =>
    simp only [ofLabels?, Option.bind_eq_some_iff, ih, Label.assemble?_eq_some_iff]
    constructor
    · rintro ⟨_, rfl, expr, rest, rfl, rfl, rfl⟩
      rw [List.flatMap_append, List.flatMap_cons, expr.trace_eq_cons, List.cons_append]
    · intro same
      cases trees with
      | nil => cases same
      | cons expr rest =>
        rw [List.flatMap_cons, expr.trace_eq_cons, List.cons_append, ← List.flatMap_append] at same
        cases same
        exact ⟨_, rfl, expr, rest, rfl, rfl, rfl⟩

/-- The expression with the trace. -/
def Expr.ofTrace? (labels : List Label) : Option Expr :=
  match ofLabels? labels with
  | some [expr] => some expr
  | _ => none

/-- The function with the trace. -/
def Function.ofTrace? : List Label → Option Function
  | .function :: .prototype proto :: labels => (Expr.ofTrace? labels).map fun body => ⟨proto, body⟩
  | _ => none

theorem Expr.ofTrace?_eq_some_iff {labels : List Label} {expr : Expr} :
    Expr.ofTrace? labels = some expr ↔ labels = trace expr := by
  have single := @ofLabels?_eq_some_iff labels [expr]
  rw [List.flatMap_singleton] at single
  rw [← single, Expr.ofTrace?]
  split
  · next read => rw [read, Option.some.injEq, Option.some.injEq, List.cons.injEq, and_iff_left rfl]
  · next other => exact iff_of_false (Option.some_ne_none expr).symm (other expr)

theorem Function.ofTrace?_eq_some_iff {labels : List Label} {function : Function} :
    Function.ofTrace? labels = some function ↔ labels = trace function := by
  rw [Function.trace_eq]
  fun_cases Function.ofTrace? labels with
  | case1 proto labels =>
    simp only [Option.map_eq_some_iff, Expr.ofTrace?_eq_some_iff, List.cons.injEq, Label.prototype.injEq, true_and]
    constructor
    · rintro ⟨body, rfl, rfl⟩
      exact ⟨rfl, rfl⟩
    · rintro ⟨rfl, rfl⟩
      exact ⟨function.body, rfl, rfl⟩
  | case2 _ other => exact iff_of_false (Option.some_ne_none function).symm (other _ _)

/-- The trace of a tree is the label of its root and the traces of what is under it, in order, and it is the trace of no
other tree: what reads traces gives back a tree for its trace, and nothing for other labels. A visitor that notes the
nodes of some kinds, and is left to the defaults at the others, notes the trace without the others. -/
theorem trace_complete :
    (∀ expr : Expr,
      trace expr = expr.label :: expr.children.flatMap trace ∧
        (∀ labels, Expr.ofTrace? labels = some expr ↔ labels = trace expr) ∧
        ∀ kinds, visit (Visitor.overriding kinds Visitor.logging) expr [] = (trace expr).filter (·.kind ∈ kinds)) ∧
      ∀ function : Function,
        trace function = .function :: (trace function.proto ++ trace function.body) ∧
          (∀ labels, Function.ofTrace? labels = some function ↔ labels = trace function) ∧
          ∀ kinds, visit (Visitor.overriding kinds Visitor.logging) function [] =
            (trace function).filter (·.kind ∈ kinds) := by
  constructor
  · intro expr
    exact ⟨expr.trace_eq_cons, fun _ => Expr.ofTrace?_eq_some_iff,
      fun kinds => (expr.visit_overriding_notes kinds).nil_eq⟩
  · intro function
    exact ⟨function.trace_eq, fun _ => Function.ofTrace?_eq_some_iff,
      fun kinds => (function.visit_overriding_notes kinds).nil_eq⟩

end OpLang

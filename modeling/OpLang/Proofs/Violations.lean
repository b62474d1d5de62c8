import Mathlib.Data.Finset.Lattice.Lemmas
import OpLang.Proofs.Reception

/-! # Violations of lexical scoping

What is wrong with the names of a tree can be listed without a stack: the names in scope are a set that is handed
down the tree and never changed, each construct adds to it what is bound in it, and the violations of the parts are
put one behind the other in the order in which the parts are checked. A check finds the first violation of this list,
and none of its scopes is left open.
-/

namespace OpLang

/-- The outcome of a check that stops at the first of the violations. -/
def firstOf : List Error → Except Error Unit
  | [] => .ok ()
  | violation :: _ => .error violation

/-- What stops at the first of two lists of violations does not come to the second, unless there is none. -/
theorem firstOf_append (first second : List Error) :
    firstOf (first ++ second) = (do firstOf first; firstOf second) := by
  cases first <;> rfl

section Trees

variable (functions : FunctionTable)

/-- What is wrong with a function that is called with so many arguments. -/
def callViolations (callee : String) (argCount : Nat) : List Error :=
  match functions.find? callee with
  | none => [.unknownFunction callee]
  | some proto =>
    if proto.params.length = argCount then [] else [.arityMismatch callee proto.params.length argCount]

mutual

/-- All that is wrong with the names of an expression in whose place those of the set are in scope. -/
def Expr.violations (scope : Finset String) : Expr → List Error
  | .number _ => []
  | .var name => if name ∈ scope then [] else [.unknownVariable name]
  | .unary symbol operand =>
    operand.violations scope ++ if functions.knows (unaryName symbol) then [] else [.unknownUnaryOperator symbol]
  | .binary symbol lhs rhs =>
    lhs.violations scope ++ rhs.violations scope ++
      if functions.knowsBinary symbol then [] else [.unknownBinaryOperator symbol]
  | .call callee args => callViolations functions callee args.length ++ Expr.argsViolations scope args
  | .ifElse condition thenBranch elseBranch =>
    condition.violations scope ++ thenBranch.violations scope ++ elseBranch.violations scope
  | .forIn name start finish step body =>
    start.violations scope ++ finish.violations (insert name scope) ++
      Expr.optionViolations (insert name scope) step ++ body.violations (insert name scope)
  | .varIn bindings body =>
    Expr.bindingsViolations scope bindings ++ body.violations ((bindings.map Prod.fst).toFinset ∪ scope)

def Expr.argsViolations (scope : Finset String) : List Expr → List Error
  | [] => []
  | arg :: args => arg.violations scope ++ Expr.argsViolations scope args

def Expr.optionViolations (scope : Finset String) : Option Expr → List Error
  | none => []
  | some expr => expr.violations scope

/-- An initializer is outside the scope of its own name and inside that of the names before it. -/
def Expr.bindingsViolations (scope : Finset String) : List (String × Option Expr) → List Error
  | [] => []
  | (name, init) :: later =>
    Expr.optionViolations scope init ++ Expr.bindingsViolations (insert name scope) later

end

/-- All that is wrong with the names of a function: besides its parameters nothing is in scope. -/
def Function.violations (function : Function) : List Error :=
  function.body.violations functions function.proto.params.toFinset

/-! ## The first violation -/

theorem firstOf_callViolations (callee : String) (argCount : Nat) :
    firstOf (callViolations functions callee argCount) = (Label.call callee argCount).resolve functions := by
  rw [callViolations, Label.resolve]
  cases functions.find? callee with
  | none => rfl
  | some proto => by_cases same : proto.params.length = argCount <;> simp only [same, ↓reduceIte] <;> rfl

mutual

theorem Expr.resolveIn_eq (scope : List String) : (expr : Expr) →
    expr.resolveIn functions scope = firstOf (expr.violations functions scope.toFinset)
  | .number _ => rfl
  | .var name => by
    simp only [resolveIn, violations, List.mem_toFinset]
    split <;> rfl
  | .unary symbol operand => by
    rw [resolveIn, violations, firstOf_append, operand.resolveIn_eq scope, Label.resolve]
    split <;> rfl
  | .binary symbol lhs rhs => by
    rw [resolveIn, violations, List.append_assoc, firstOf_append, firstOf_append, lhs.resolveIn_eq scope,
      rhs.resolveIn_eq scope, Label.resolve]
    split <;> rfl
  | .call callee args => by
    rw [resolveIn, violations, firstOf_append, firstOf_callViolations, resolveArgs_eq scope args]
  | .ifElse condition thenBranch elseBranch => by
    rw [resolveIn, violations, List.append_assoc, firstOf_append, firstOf_append, condition.resolveIn_eq scope,
      thenBranch.resolveIn_eq scope, elseBranch.resolveIn_eq scope]
  | .forIn name start finish step body => by
    rw [resolveIn, violations, List.append_assoc, List.append_assoc, firstOf_append, firstOf_append, firstOf_append,
      start.resolveIn_eq scope, finish.resolveIn_eq (name :: scope), resolveStep_eq (name :: scope) step,
      body.resolveIn_eq (name :: scope), List.toFinset_cons]
  | .varIn bindings body => by
    rw [resolveIn, violations, firstOf_append, resolveBindings_eq scope bindings]
    have inside := body.resolveIn_eq ((bindings.map Prod.fst).reverse ++ scope)
    rw [List.toFinset_append, List.toFinset_reverse] at inside
    cases firstOf (bindingsViolations functions scope.toFinset bindings) with
    | error => rfl
    | ok => exact inside

theorem Expr.resolveArgs_eq (scope : List String) : (args : List Expr) →
    Expr.resolveArgs functions scope args = firstOf (Expr.argsViolations functions scope.toFinset args)
  | [] => rfl
  | arg :: args => by
    rw [resolveArgs, argsViolations, firstOf_append, arg.resolveIn_eq scope, resolveArgs_eq scope args]

theorem Expr.resolveStep_eq (scope : List String) : (step : Option Expr) →
    Expr.resolveStep functions scope step = firstOf (Expr.optionViolations functions scope.toFinset step)
  | none => rfl
  | some amount => amount.resolveIn_eq scope

theorem Expr.resolveBindings_eq (scope : List String) : (bindings : List (String × Option Expr)) →
    Expr.resolveBindings functions scope bindings =
      (firstOf (Expr.bindingsViolations functions scope.toFinset bindings)).map
        fun _ => (bindings.map Prod.fst).reverse ++ scope
  | [] => rfl
  | (name, some init) :: later => by
    rw [resolveBindings, bindingsViolations, optionViolations, firstOf_append, init.resolveIn_eq scope,
      resolveBindings_eq (name :: scope) later, List.toFinset_cons]
    cases firstOf (init.violations functions scope.toFinset) with
    | error => rfl
    | ok => simp [bind, Except.bind]
  | (name, none) :: later => by
    rw [resolveBindings, bindingsViolations, optionViolations, List.nil_append,
      resolveBindings_eq (name :: scope) later, List.toFinset_cons]
    simp

end

theorem Function.resolveIn_eq (function : Function) :
    function.resolveIn functions [] = firstOf (function.violations functions) := by
  rw [resolveIn, Expr.resolveIn_eq, List.append_nil, List.toFinset_reverse, violations]

end Trees

/-! ## Resolvers -/

namespace Resolver

/-- The resolvers that come of a fresh one by what it is told by a parser and asked to check. -/
inductive Reachable : Resolver → Prop
  | fresh : Reachable {}
  | hear {resolver : Resolver} (notification : Notification) (before : Reachable resolver) :
      Reachable (resolver.hear notification)
  | checkExpr {resolver : Resolver} (expr : Expr) (before : Reachable resolver) :
      Reachable (resolver.checkExpr expr).2
  | checkPrototype {resolver : Resolver} (proto : Prototype) (before : Reachable resolver) :
      Reachable (resolver.checkPrototype proto).2
  | checkFunction {resolver : Resolver} (function : Function) (before : Reachable resolver) :
      Reachable (resolver.checkFunction function).2

/-- A check of an expression comes to what the bound names and the known functions decide, and leaves the frames as
they are. -/
theorem checkExpr_eq (resolver : Resolver) (expr : Expr) :
    ∃ nextId, resolver.checkExpr expr =
      (expr.resolveIn resolver.functions resolver.scopes.names,
        { resolver with scopes := { resolver.scopes with nextId := nextId } }) := by
  obtain ⟨nextId, ran⟩ := Resolve.expr_yields resolver.functions expr _ _ resolver.scopes.binds_names
  refine ⟨nextId, ?_⟩
  rw [checkExpr, check, ran]
  cases expr.resolveIn resolver.functions resolver.scopes.names <;> rfl

theorem frames_hear (resolver : Resolver) (notification : Notification) :
    (resolver.hear notification).scopes.frames = resolver.scopes.frames := by
  cases notification with
  | entered => rfl
  | exited form =>
    obtain ⟨_, _, closed, _⟩ := resolver.receives form
    exact closed

/-- Whatever a resolver has been told and asked, it has no scope open. -/
theorem Reachable.frames {resolver : Resolver} (reachable : resolver.Reachable) : resolver.scopes.frames = [] := by
  induction reachable with
  | fresh => rfl
  | @hear resolver notification _ ih => rw [frames_hear, ih]
  | @checkExpr resolver expr _ ih =>
    obtain ⟨_, checked⟩ := resolver.checkExpr_eq expr
    rw [checked, ih]
  | checkPrototype _ _ ih => exact ih
  | @checkFunction resolver function _ ih =>
    obtain ⟨_, checked⟩ := resolver.checkFunction_eq function
    rw [checked, ih]

/-- In whatever state a resolver is, an expression has the first violation that it has with no name in scope, and a
function the first one that it has with its parameters in scope; nothing is changed but the number of the next scope,
so all frames, known functions, defined names and verdicts are those of before. -/
theorem check_eq_first_violation {resolver : Resolver} (reachable : resolver.Reachable) :
    resolver.scopes.frames = [] ∧
      (∀ expr, ∃ nextId, resolver.checkExpr expr = (firstOf (expr.violations resolver.functions ∅),
        { resolver with scopes := { resolver.scopes with nextId := nextId } })) ∧
      ∀ function, ∃ nextId, resolver.checkFunction function = (firstOf (function.violations resolver.functions),
        { resolver with scopes := { resolver.scopes with nextId := nextId } }) := by
  have noNames : resolver.scopes.names = [] := by rw [ScopeStack.names, reachable.frames, List.flatMap_nil]
  refine ⟨reachable.frames, fun expr => ?_, fun function => ?_⟩
  · obtain ⟨nextId, checked⟩ := resolver.checkExpr_eq expr
    rw [noNames, Expr.resolveIn_eq, List.toFinset_nil] at checked
    exact ⟨nextId, checked⟩
  · obtain ⟨nextId, checked⟩ := resolver.checkFunction_eq function
    rw [noNames, Function.resolveIn_eq] at checked
    exact ⟨nextId, checked⟩

/-- The variable of a loop is unbound where the loop starts, and a local one in its own initializer; an unknown number
of arguments comes last. Of the three the first is found, also by a resolver that has found it before. -/
theorem check_eq_first_violation_nested :
    let told : Resolver := hear {} (.exited (.external ⟨"f", ["x"], .none, 30⟩))
    let function : Function := ⟨⟨"g", ["k", "k"], .none, 30⟩, .forIn "i" (.var "i") (.var "i") none
      (.varIn [("i", some (.var "i")), ("j", some (.var "j"))] (.call "f" [.var "i", .var "k"]))⟩
    (told.checkFunction function).2.Reachable ∧
      function.violations told.functions = [.unknownVariable "i", .unknownVariable "j", .arityMismatch "f" 1 2] ∧
      ((told.checkFunction function).2.checkFunction function).1 = .error (.unknownVariable "i") := by
  intro told function
  have reachable : (told.checkFunction function).2.Reachable := .checkFunction function (.hear _ .fresh)
  have violations : function.violations told.functions =
      [.unknownVariable "i", .unknownVariable "j", .arityMismatch "f" 1 2] := by decide +kernel
  obtain ⟨_, once⟩ := (check_eq_first_violation (.hear _ .fresh : told.Reachable)).2.2 function
  obtain ⟨_, again⟩ := (check_eq_first_violation reachable).2.2 function
  refine ⟨reachable, violations, ?_⟩
  rw [again, once, violations]
  rfl

end Resolver

end OpLang

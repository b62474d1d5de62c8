import OpLang.Expr.Traversal
import OpLang.Resolver.Basic

/-! # Lexical scope

The outcome of checking a tree is decided by the names in scope and the known functions. The check opens a scope where
names are bound and closes it again, whatever it finds inside; so it leaves the frames as they were.
-/

namespace OpLang

/-- What a node demands of the known functions. -/
def Label.resolve (functions : FunctionTable) : Label → Except Error Unit
  | .unary symbol =>
    if functions.knows (unaryName symbol) then .ok () else .error (.unknownUnaryOperator symbol)
  | .binary symbol => if functions.knowsBinary symbol then .ok () else .error (.unknownBinaryOperator symbol)
  | .call callee argCount =>
    match functions.find? callee with
    | none => .error (.unknownFunction callee)
    | some proto =>
      if proto.params.length = argCount then .ok ()
      else .error (.arityMismatch callee proto.params.length argCount)
  | _ => .ok ()

section Trees

variable (functions : FunctionTable)

mutual

/-- The first error of an expression in whose place the names of the scope are bound. -/
def Expr.resolveIn (scope : List String) : Expr → Except Error Unit
  | .number _ => .ok ()
  | .var name => if name ∈ scope then .ok () else .error (.unknownVariable name)
  | .unary symbol operand => do
    operand.resolveIn scope
    (Label.unary symbol).resolve functions
  | .binary symbol lhs rhs => do
    lhs.resolveIn scope
    rhs.resolveIn scope
    (Label.binary symbol).resolve functions
  | .call callee args => do
    (Label.call callee args.length).resolve functions
    Expr.resolveArgs scope args
  | .ifElse condition thenBranch elseBranch => do
    condition.resolveIn scope
    thenBranch.resolveIn scope
    elseBranch.resolveIn scope
  | .forIn name start finish step body => do
    start.resolveIn scope
    finish.resolveIn (name :: scope)
    Expr.resolveStep (name :: scope) step
    body.resolveIn (name :: scope)
  | .varIn bindings body => do
    let inner ← Expr.resolveBindings scope bindings
    body.resolveIn inner

def Expr.resolveArgs (scope : List String) : List Expr → Except Error Unit
  | [] => .ok ()
  | arg :: args => do
    arg.resolveIn scope
    Expr.resolveArgs scope args

def Expr.resolveStep (scope : List String) : Option Expr → Except Error Unit
  | none => .ok ()
  | some amount => amount.resolveIn scope

/-- The scope that the bindings open: each initializer sees the names bound before its own. -/
def Expr.resolveBindings (scope : List String) : List (String × Option Expr) → Except Error (List String)
  | [] => .ok scope
  | (name, some init) :: later => do
    init.resolveIn scope
    Expr.resolveBindings (name :: scope) later
  | (name, none) :: later => Expr.resolveBindings (name :: scope) later

end

/-- The first error of a function, of which the parameters are in scope and nothing else. -/
def Function.resolveIn (scope : List String) (function : Function) : Except Error Unit :=
  function.body.resolveIn functions (function.proto.params.reverse ++ scope)

end Trees

/-! ## Scope stacks -/

namespace ScopeStack

variable {β : Type}

theorem find?_bind {stack : ScopeStack β} (isOpen : stack.frames ≠ []) (name other : String) (value : β) :
    (stack.bind name value).2.find? other = if other = name then some value else stack.find? other := by
  obtain ⟨frame, outer, frames⟩ := List.exists_cons_of_ne_nil isOpen
  simp only [bind, find?, frames, List.findSome?_cons, Frame.find?, List.lookup_cons]
  by_cases same : other = name
  · simp only [same, beq_self_eq_true, if_pos]
  · simp only [beq_eq_false_iff_ne.mpr same, if_neg same]

/-- Closing a scope leaves the frames of before it was entered, whatever was bound in it. -/
theorem release_inner (stack : ScopeStack β) (bindings : List (String × β)) (nextId : Nat) :
    (⟨⟨stack.nextId, bindings⟩ :: stack.frames, nextId⟩ : ScopeStack β).release stack.enter.1 =
      { stack with nextId := nextId } := by
  simp only [release, enter, Frame.outside?, if_pos, Option.getD_some]

/-- Exactly the names of the scope are bound. -/
def Binds (stack : ScopeStack β) (scope : List String) : Prop := ∀ name, (stack.find? name).isSome ↔ name ∈ scope

theorem Binds.bind {stack : ScopeStack β} {scope : List String} (binds : stack.Binds scope)
    (isOpen : stack.frames ≠ []) (name : String) (value : β) : (stack.bind name value).2.Binds (name :: scope) := by
  intro other
  rw [find?_bind isOpen, List.mem_cons, ← binds]
  by_cases same : other = name
  · simp [same]
  · simp [same]

/-- All names that are bound, in any frame. -/
def names (stack : ScopeStack β) : List String := stack.frames.flatMap fun frame => frame.bindings.map Prod.fst

theorem binds_names (stack : ScopeStack β) : stack.Binds stack.names := by
  intro name
  rw [find?, names, List.findSome?_isSome_iff, List.mem_flatMap]
  refine exists_congr fun frame => and_congr_right fun _ => ?_
  rw [Frame.find?, List.lookup_isSome_iff, List.mem_map]
  exact exists_congr fun binding => and_congr_right fun _ => beq_iff_eq.trans eq_comm

end ScopeStack

namespace Resolve

/-- How an action ends that comes to the outcome and leaves the stack. -/
def ended {α : Type} (stack : ScopeStack Binder) :
    Except Error α → EStateM.Result Error (ScopeStack Binder) Unit
  | .ok _ => .ok () stack
  | .error error => .error error stack

theorem bind_of_ended {α : Type} {first second : Resolve Unit} {stack last : ScopeStack Binder}
    {outcome : Except Error α} (ran : first stack = ended last outcome) :
    (first >>= fun _ => second) stack = match outcome with
      | .ok _ => second last
      | .error error => .error error last := by
  cases outcome <;> simp only [Bind.bind, EStateM.bind, ran, ended]

/-- A scope is closed whether or not there was an error inside it. -/
theorem within_of_ended {α : Type} {action : Resolve Unit} {stack : ScopeStack Binder}
    {bindings : List (String × Binder)} {nextId : Nat} {outcome : Except Error α}
    (ran : action stack.enter.2 = ended ⟨⟨stack.nextId, bindings⟩ :: stack.frames, nextId⟩ outcome) :
    ScopeStack.within action stack = ended { stack with nextId := nextId } outcome := by
  cases outcome <;> simp only [ScopeStack.within, ran, ended, ← stack.release_inner bindings nextId]

/-- Where the names of the scope are bound, the action comes to the outcome and leaves the frames as they are. -/
def Yields (action : Resolve Unit) (scope : List String) (outcome : Except Error Unit) : Prop :=
  ∀ stack : ScopeStack Binder, stack.Binds scope →
    ∃ nextId, action stack = ended { stack with nextId := nextId } outcome

/-- Where the names of the scope are bound, the action comes to a scope, for which it adds bindings to the innermost
frame and to no other. -/
def Opens (action : Resolve Unit) (scope : List String) (opened : Except Error (List String)) : Prop :=
  ∀ frame outer nextId, ScopeStack.Binds ⟨frame :: outer, nextId⟩ scope →
    ∃ bindings lastId, let last : ScopeStack Binder := ⟨{ frame with bindings := bindings } :: outer, lastId⟩
      action ⟨frame :: outer, nextId⟩ = ended last opened ∧ ∀ inner, opened = .ok inner → last.Binds inner

section Combinators

variable {first second : Resolve Unit} {scope : List String}

theorem Yields.pure : Yields (pure ()) scope (.ok ()) := fun stack _ => ⟨stack.nextId, rfl⟩

theorem Yields.throw (error : Error) : Yields (throw error) scope (.error error) :=
  fun stack _ => ⟨stack.nextId, rfl⟩

theorem Yields.demand (known : Bool) (error : Error) :
    Yields (do if !known then MonadExcept.throw error) scope (if known then .ok () else .error error) := by
  cases known
  · exact .throw error
  · exact .pure

theorem Yields.lookUp (name : String) :
    Yields (do if ((← get).find? name).isNone then MonadExcept.throw (.unknownVariable name)) scope
      (if name ∈ scope then .ok () else .error (.unknownVariable name)) := by
  intro stack binds
  refine ⟨stack.nextId, ?_⟩
  change (if (stack.find? name).isNone then MonadExcept.throw (.unknownVariable name) else Pure.pure () :
    Resolve Unit) stack = _
  have isBound := binds name
  cases found : stack.find? name with
  | none =>
    have unbound : name ∉ scope := fun member => by simpa [found] using isBound.mpr member
    rw [if_neg unbound]
    rfl
  | some binder =>
    have bound : name ∈ scope := isBound.mp (by rw [found, Option.isSome_some])
    rw [if_pos bound]
    rfl

theorem Yields.bind {outcome later : Except Error Unit} (yields : Yields first scope outcome)
    (andThen : Yields second scope later) :
    Yields (first >>= fun _ => second) scope (outcome >>= fun _ => later) := by
  intro stack binds
  obtain ⟨nextId, ran⟩ := yields stack binds
  cases outcome with
  | error error => exact ⟨nextId, bind_of_ended ran⟩
  | ok _ =>
    obtain ⟨lastId, ranLater⟩ := andThen { stack with nextId := nextId } binds
    exact ⟨lastId, (bind_of_ended ran).trans ranLater⟩

theorem Opens.pure : Opens (pure ()) scope (.ok scope) :=
  fun frame _ nextId binds => ⟨frame.bindings, nextId, rfl, fun _ same => Except.ok.inj same ▸ binds⟩

theorem Opens.introduce (binder : Binder) (name : String) :
    Opens (introduce binder name) scope (.ok (name :: scope)) :=
  fun frame _ nextId binds => ⟨(name, binder) :: frame.bindings, nextId, rfl, fun _ same =>
    Except.ok.inj same ▸ binds.bind (List.cons_ne_nil _ _) name binder⟩

theorem Opens.introducing {opened : Except Error (List String)} (binder : Binder) (name : String)
    (andThen : Opens second (name :: scope) opened) :
    Opens (Resolve.introduce binder name >>= fun _ => second) scope opened := by
  intro frame outer nextId binds
  obtain ⟨bindings, innerId, ran, inside⟩ := Opens.introduce binder name frame outer nextId binds
  obtain ⟨last, lastId, ranLater, bindsLater⟩ := andThen _ _ _ (inside _ rfl)
  exact ⟨last, lastId, (bind_of_ended ran).trans ranLater, bindsLater⟩

theorem Opens.after {outcome : Except Error Unit} {opened : Except Error (List String)}
    (yields : Yields first scope outcome) (andThen : Opens second scope opened) :
    Opens (first >>= fun _ => second) scope (outcome >>= fun _ => opened) := by
  intro frame outer nextId binds
  obtain ⟨innerId, ran⟩ := yields _ binds
  cases outcome with
  | error error => exact ⟨frame.bindings, innerId, bind_of_ended ran, nofun⟩
  | ok _ =>
    obtain ⟨last, lastId, ranLater, bindsLater⟩ := andThen frame outer innerId binds
    exact ⟨last, lastId, (bind_of_ended ran).trans ranLater, bindsLater⟩

/-- What is opened inside a scope of its own is gone after it. -/
theorem Yields.within {opened : Except Error (List String)} {body : List String → Except Error Unit}
    (opens : Opens first scope opened) (andThen : ∀ inner, opened = .ok inner → Yields second inner (body inner)) :
    Yields (ScopeStack.within (first >>= fun _ => second)) scope (opened >>= body) := by
  intro stack binds
  obtain ⟨bindings, nextId, ran, inside⟩ := opens ⟨stack.nextId, []⟩ stack.frames (stack.nextId + 1) binds
  cases opened with
  | error error => exact ⟨nextId, within_of_ended (bind_of_ended ran)⟩
  | ok inner =>
    obtain ⟨lastId, ranLater⟩ := andThen inner rfl _ (inside inner rfl)
    exact ⟨lastId, within_of_ended ((bind_of_ended ran).trans ranLater)⟩

theorem Yields.inside {inner : List String} {outcome : Except Error Unit} (opens : Opens first scope (.ok inner))
    (andThen : Yields second inner outcome) :
    Yields (ScopeStack.within (first >>= fun _ => second)) scope outcome := by
  change Yields _ _ (Except.ok inner >>= fun _ => outcome)
  refine .within opens fun opened same => ?_
  cases same
  exact andThen

end Combinators

/-! ## Trees -/

section Trees

variable (functions : FunctionTable)

mutual

theorem expr_yields :
    (tree : Expr) → (scope : List String) → Yields (expr functions tree) scope (tree.resolveIn functions scope)
  | .number _, _ => .pure
  | .var name, scope => by
    rw [Expr.resolveIn, expr]
    exact .lookUp name
  | .unary symbol operand, scope =>
    (expr_yields operand scope).bind (.demand (functions.knows (unaryName symbol)) _)
  | .binary symbol lhs rhs, scope =>
    (expr_yields lhs scope).bind ((expr_yields rhs scope).bind (.demand (functions.knowsBinary symbol) _))
  | .call callee args, scope => by
    rw [Expr.resolveIn, expr, Label.resolve]
    cases functions.find? callee with
    | none => exact .throw _
    | some proto =>
      by_cases same : proto.params.length = args.length
      · simp only [if_pos same]
        exact arguments_yields args scope
      · simp only [if_neg same]
        exact .throw _
  | .ifElse condition thenBranch elseBranch, scope =>
    (expr_yields condition scope).bind ((expr_yields thenBranch scope).bind (expr_yields elseBranch scope))
  | .forIn name start finish amount body, scope =>
    (expr_yields start scope).bind (.inside (.introduce .loopVariable name)
      ((expr_yields finish (name :: scope)).bind ((step_yields amount (name :: scope)).bind
        (expr_yields body (name :: scope)))))
  | .varIn names body, scope => .within (bindings_opens names scope) fun inner _ => expr_yields body inner

theorem arguments_yields : (args : List Expr) → (scope : List String) →
    Yields (arguments functions args) scope (Expr.resolveArgs functions scope args)
  | [], _ => .pure
  | arg :: args, scope => (expr_yields arg scope).bind (arguments_yields args scope)

theorem step_yields : (amount : Option Expr) → (scope : List String) →
    Yields (step functions amount) scope (Expr.resolveStep functions scope amount)
  | none, _ => .pure
  | some amount, scope => expr_yields amount scope

theorem bindings_opens : (names : List (String × Option Expr)) → (scope : List String) →
    Opens (bindings functions names) scope (Expr.resolveBindings functions scope names)
  | [], _ => .pure
  | (name, some init) :: later, scope =>
    .after (expr_yields init scope) (.introducing .localVariable name (bindings_opens later (name :: scope)))
  | (name, none) :: later, scope => .introducing .localVariable name (bindings_opens later (name :: scope))

end

theorem parameters_opens (params scope : List String) :
    Opens (params.forM (introduce .parameter)) scope (.ok (params.reverse ++ scope)) := by
  induction params generalizing scope with
  | nil => exact .pure
  | cons param params ih =>
    rw [List.reverse_cons, List.append_assoc, List.singleton_append]
    exact .introducing .parameter param (ih (param :: scope))

theorem function_yields (function : Function) (scope : List String) :
    Yields (Resolve.function functions function) scope (function.resolveIn functions scope) :=
  .inside (parameters_opens function.proto.params scope) (expr_yields functions function.body _)

end Trees

end Resolve

/-- A check of a function comes to what the bound names and the known functions decide, and leaves the frames as they
are. -/
theorem Resolver.checkFunction_eq (resolver : Resolver) (function : Function) :
    ∃ nextId, resolver.checkFunction function =
      (function.resolveIn resolver.functions resolver.scopes.names,
        { resolver with scopes := { resolver.scopes with nextId := nextId } }) := by
  obtain ⟨nextId, ran⟩ := Resolve.function_yields resolver.functions function _ _ resolver.scopes.binds_names
  refine ⟨nextId, ?_⟩
  rw [checkFunction, check, ran]
  cases function.resolveIn resolver.functions resolver.scopes.names <;> rfl

end OpLang

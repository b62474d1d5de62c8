import OpLang.Proofs.LexicalScope
import OpLang.Proofs.Trace

/-! # Demands on the known functions

What is demanded of the known functions can be told from the labels of a tree, each taken by itself: a tree that
resolves also does so with any other functions that do what its labels demand, and a tree that does not has a label
with the same fault, or a variable that is not bound.
-/

namespace OpLang

open Visitable

/-- What a label may find missing. -/
theorem Label.resolve_eq_error {functions : FunctionTable} {label : Label} {error : Error}
    (faulty : label.resolve functions = .error error) :
    (∃ symbol, label = .unary symbol ∧ error = .unknownUnaryOperator symbol) ∨
      (∃ symbol, label = .binary symbol ∧ error = .unknownBinaryOperator symbol ∧
        functions.knowsBinary symbol = false) ∨
      ∃ callee argCount, label = .call callee argCount ∧
        (error = .unknownFunction callee ∨ ∃ wanted, error = .arityMismatch callee wanted argCount) := by
  cases label with
  | unary symbol =>
    rw [resolve] at faulty
    split at faulty
    · cases faulty
    · exact .inl ⟨symbol, rfl, (Except.error.inj faulty).symm⟩
  | binary symbol =>
    rw [resolve] at faulty
    split at faulty
    · cases faulty
    · next unknown => exact .inr (.inl ⟨symbol, rfl, (Except.error.inj faulty).symm, Bool.eq_false_iff.mpr unknown⟩)
  | call callee argCount =>
    refine .inr (.inr ⟨callee, argCount, rfl, ?_⟩)
    rw [resolve] at faulty
    cases found : functions.find? callee with
    | none =>
      rw [found] at faulty
      exact .inl (Except.error.inj faulty).symm
    | some proto =>
      simp only [found] at faulty
      split at faulty
      · cases faulty
      · exact .inr ⟨_, (Except.error.inj faulty).symm⟩
  | number | var | ifElse | forIn | varIn | prototype | function => cases faulty

/-- Apart from unbound names, what decides the outcome is what each label by itself demands of the functions. -/
structure Demands {α : Type} (outcome : FunctionTable → Except Error α) (labels : List Label) : Prop where
  met {functions : FunctionTable} {value : α} (sound : outcome functions = .ok value) :
    ∀ label ∈ labels, label.resolve functions = .ok ()
  carry {functions others : FunctionTable} {value : α} (sound : outcome functions = .ok value)
    (met : ∀ label ∈ labels, label.resolve others = .ok ()) : outcome others = .ok value
  blame {functions : FunctionTable} {error : Error} (faulty : outcome functions = .error error) :
    (∃ label ∈ labels, label.resolve functions = .error error) ∨ ∃ name, error = .unknownVariable name

namespace Demands

variable {α β : Type} {labels others : List Label}

theorem pure (value : α) : Demands (fun _ => .ok value) [] where
  met _ := List.forall_mem_nil _
  carry sound _ := sound
  blame := nofun

theorem lookUp (name : String) (scope : List String) :
    Demands (fun _ => if name ∈ scope then .ok () else .error (.unknownVariable name)) [.var name] where
  met _ := List.forall_mem_singleton.mpr rfl
  carry sound _ := sound
  blame faulty := by
    split at faulty
    · cases faulty
    · exact .inr ⟨name, (Except.error.inj faulty).symm⟩

theorem label (label : Label) : Demands label.resolve [label] where
  met sound := List.forall_mem_singleton.mpr sound
  carry _ met := met label (List.mem_singleton_self label)
  blame faulty := .inl ⟨label, List.mem_singleton_self label, faulty⟩

theorem bind {first : FunctionTable → Except Error α} {second : α → FunctionTable → Except Error β}
    (demands : Demands first labels) (andThen : ∀ value, Demands (second value) others) :
    Demands (fun functions => first functions >>= fun value => second value functions) (labels ++ others) where
  met {functions _} sound := by
    cases ran : first functions with
    | error error => simp only [ran, Bind.bind, Except.bind, reduceCtorEq] at sound
    | ok value =>
      simp only [ran, Bind.bind, Except.bind] at sound
      exact List.forall_mem_append.mpr ⟨demands.met ran, (andThen value).met sound⟩
  carry {functions others _} sound met := by
    obtain ⟨here, later⟩ := List.forall_mem_append.mp met
    cases ran : first functions with
    | error error => simp only [ran, Bind.bind, Except.bind, reduceCtorEq] at sound
    | ok value =>
      simp only [ran, Bind.bind, Except.bind] at sound
      simpa only [demands.carry ran here, Bind.bind, Except.bind] using (andThen value).carry sound later
  blame {functions _} faulty := by
    cases ran : first functions with
    | error error =>
      simp only [ran, Bind.bind, Except.bind, Except.error.injEq] at faulty
      refine (demands.blame (faulty ▸ ran)).imp_left fun ⟨label, member, fault⟩ => ?_
      exact ⟨label, List.mem_append_left _ member, fault⟩
    | ok value =>
      simp only [ran, Bind.bind, Except.bind] at faulty
      refine ((andThen value).blame faulty).imp_left fun ⟨label, member, fault⟩ => ?_
      exact ⟨label, List.mem_append_right _ member, fault⟩

/-- A label in front that demands nothing. -/
theorem free {outcome : FunctionTable → Except Error α} (demands : Demands outcome labels) (label : Label)
    (free : ∀ functions, label.resolve functions = .ok ()) : Demands outcome (label :: labels) where
  met sound := List.forall_mem_cons.mpr ⟨free _, demands.met sound⟩
  carry sound met := demands.carry sound (List.forall_mem_cons.mp met).2
  blame faulty := (demands.blame faulty).imp_left fun ⟨label, member, fault⟩ =>
    ⟨label, List.mem_cons_of_mem _ member, fault⟩

theorem congr {outcome : FunctionTable → Except Error α} (demands : Demands outcome labels)
    (same : ∀ label, label ∈ labels ↔ label ∈ others) : Demands outcome others where
  met sound label member := demands.met sound label ((same label).mpr member)
  carry sound met := demands.carry sound fun label member => met label ((same label).mp member)
  blame faulty := (demands.blame faulty).imp_left fun ⟨label, member, fault⟩ => ⟨label, (same label).mp member, fault⟩

end Demands

mutual

theorem Expr.demands : (tree : Expr) → (scope : List String) →
    Demands (fun functions => tree.resolveIn functions scope) (trace tree)
  | .number value, _ => (Demands.pure ()).free (.number value) fun _ => rfl
  | .var name, scope => .lookUp name scope
  | .unary symbol operand, scope =>
    ((operand.demands scope).bind fun _ => .label (.unary symbol)).congr (by simp [or_comm])
  | .binary symbol lhs rhs, scope =>
    ((lhs.demands scope).bind fun _ => (rhs.demands scope).bind fun _ => .label (.binary symbol)).congr
      (by simp [or_comm, or_left_comm])
  | .call callee args, scope =>
    ((Demands.label (.call callee args.length)).bind fun _ => Expr.demandsOfArgs args scope).congr (by simp)
  | .ifElse condition thenBranch elseBranch, scope =>
    (((condition.demands scope).bind fun _ => (thenBranch.demands scope).bind fun _ =>
      elseBranch.demands scope).free .ifElse fun _ => rfl).congr (by simp)
  | .forIn name start finish amount body, scope =>
    (((start.demands scope).bind fun _ => (finish.demands (name :: scope)).bind fun _ =>
      (Expr.demandsOfStep amount (name :: scope)).bind fun _ => body.demands (name :: scope)).free
        (.forIn name amount.isSome) fun _ => rfl).congr (by simp)
  | .varIn names body, scope =>
    (((Expr.demandsOfBindings names scope).bind fun inner => body.demands inner).free
      (.varIn (names.map fun binding => (binding.1, binding.2.isSome))) fun _ => rfl).congr (by simp)

theorem Expr.demandsOfArgs : (args : List Expr) → (scope : List String) →
    Demands (fun functions => Expr.resolveArgs functions scope args) (args.flatMap trace)
  | [], _ => .pure ()
  | arg :: args, scope => (arg.demands scope).bind fun _ => Expr.demandsOfArgs args scope

theorem Expr.demandsOfStep : (amount : Option Expr) → (scope : List String) →
    Demands (fun functions => Expr.resolveStep functions scope amount) (Expr.traceOfOption amount)
  | none, _ => .pure ()
  | some amount, scope => amount.demands scope

theorem Expr.demandsOfBindings : (names : List (String × Option Expr)) → (scope : List String) →
    Demands (fun functions => Expr.resolveBindings functions scope names)
      (names.flatMap fun binding => Expr.traceOfOption binding.2)
  | [], scope => .pure scope
  | (name, some init) :: later, scope =>
    (init.demands scope).bind fun _ => Expr.demandsOfBindings later (name :: scope)
  | (name, none) :: later, scope => Expr.demandsOfBindings later (name :: scope)

end

theorem Function.demands (function : Function) (scope : List String) :
    Demands (fun functions => function.resolveIn functions scope) (trace function) := by
  rw [Function.trace_eq]
  exact ((function.body.demands _).free (.prototype function.proto) fun _ => rfl).free .function fun _ => rfl

end OpLang

import OpLang.Proofs.LexicalScope
import OpLang.Proofs.Phrase

/-! # What a resolver makes of a form

A form is refused for a redefinition, for a number of parameters that clashes with what is known, or for a fault in
its body, in this order. Only a form with a prototype that is not refused changes what is known. A definition is known
while its body is checked; if the body has a fault, the declaration is taken back, and all that was known before is
known again.
-/

namespace OpLang

namespace FunctionTable

/-- The prototype keeps the number of parameters of the function that it names, if that function is known. -/
def Admits (functions : FunctionTable) (proto : Prototype) : Prop :=
  ∀ known, functions.find? proto.name = some known → known.params.length = proto.params.length

/-- A declaration either makes the prototype known or clashes with the one that is known under its name. -/
theorem declare_cases (functions : FunctionTable) (proto : Prototype) :
    functions.Admits proto ∧ functions.declare proto = .ok (functions.insert proto.name proto) ∨
      ∃ known, functions.find? proto.name = some known ∧ known.params.length ≠ proto.params.length ∧
        functions.declare proto =
          .error (.arityMismatch proto.name known.params.length proto.params.length) := by
  cases found : functions.find? proto.name with
  | none =>
    refine .inl ⟨fun known isKnown => ?_, by rw [declare, found]⟩
    rw [found] at isKnown
    cases isKnown
  | some known =>
    by_cases same : known.params.length = proto.params.length
    · refine .inl ⟨fun other isKnown => ?_, by simp only [declare, found, if_pos same]⟩
      rw [found, Option.some.injEq] at isKnown
      exact isKnown ▸ same
    · exact .inr ⟨known, rfl, same, by simp only [declare, found, if_neg same]⟩

end FunctionTable

/-- The name under which a verdict on the form is given. -/
def Form.name : Form → String
  | .definition function | .expression function => function.proto.name
  | .external proto => proto.name

namespace Resolver

/-- The resolver while it checks the body of a definition. -/
def knowing (resolver : Resolver) (proto : Prototype) : Resolver :=
  { resolver with functions := resolver.functions.insert proto.name proto }

@[simp] theorem knowing_functions (resolver : Resolver) (proto : Prototype) :
    (resolver.knowing proto).functions = resolver.functions.insert proto.name proto := rfl

@[simp] theorem knowing_scopes (resolver : Resolver) (proto : Prototype) :
    (resolver.knowing proto).scopes = resolver.scopes := rfl

theorem frames_knowing {resolver : Resolver} (closed : resolver.scopes.frames = []) (proto : Prototype) :
    (resolver.knowing proto).scopes.frames = [] := closed

@[simp] theorem knowing_defined (resolver : Resolver) (proto : Prototype) :
    (resolver.knowing proto).defined = resolver.defined := rfl

@[simp] theorem knowing_verdicts (resolver : Resolver) (proto : Prototype) :
    (resolver.knowing proto).verdicts = resolver.verdicts := rfl

/-- The first error in the names of a function. -/
def fault? (resolver : Resolver) (function : Function) : Option Error :=
  match (resolver.checkFunction function).1 with
  | .ok _ => none
  | .error error => some error

/-- The second resolver knows of functions what the first one knows. -/
structure Agrees (before after : Resolver) : Prop where
  functions : after.functions.find? = before.functions.find?
  defined : after.defined = before.defined

/-- What is found in a form, and what is known after it. -/
inductive Receives (resolver : Resolver) : Form → Option Error → Resolver → Prop
  | declared {proto : Prototype} {next : Resolver} (admits : resolver.functions.Admits proto)
      (functions : next.functions = resolver.functions.insert proto.name proto)
      (defined : next.defined = resolver.defined) : Receives resolver (.external proto) none next
  | defined {function : Function} {next : Resolver} (fresh : function.proto.name ∉ resolver.defined)
      (admits : resolver.functions.Admits function.proto)
      (sound : (resolver.knowing function.proto).fault? function = none)
      (functions : next.functions = resolver.functions.insert function.proto.name function.proto)
      (defined : next.defined = function.proto.name :: resolver.defined) :
      Receives resolver (.definition function) none next
  | redefinition {function : Function} {next : Resolver} (again : function.proto.name ∈ resolver.defined)
      (agrees : resolver.Agrees next) :
      Receives resolver (.definition function) (some (.redefinition function.proto.name)) next
  | clash {form : Form} {proto known : Prototype} {next : Resolver} (makes : form.prototype? = some proto)
      (fresh : form.kind = .definition → proto.name ∉ resolver.defined)
      (found : resolver.functions.find? proto.name = some known)
      (differs : known.params.length ≠ proto.params.length) (agrees : resolver.Agrees next) :
      Receives resolver form (some (.arityMismatch proto.name known.params.length proto.params.length)) next
  | body {function : Function} {error : Error} {next : Resolver}
      (fresh : function.proto.name ∉ resolver.defined) (admits : resolver.functions.Admits function.proto)
      (faulty : (resolver.knowing function.proto).fault? function = some error)
      (agrees : resolver.Agrees next) : Receives resolver (.definition function) (some error) next
  | expression {function : Function} {next : Resolver} (agrees : resolver.Agrees next) :
      Receives resolver (.expression function) (resolver.fault? function) next

namespace Receives

variable {resolver next : Resolver} {form : Form} {fault? : Option Error}

/-- A form with a fault is forgotten but for its verdict, and so is every expression. -/
theorem agrees (receives : resolver.Receives form fault? next) (forgotten : fault? ≠ none ∨ form.prototype? = none) :
    resolver.Agrees next := by
  cases receives with
  | declared | defined => exact forgotten.elim (absurd rfl) nofun
  | redefinition _ agrees | clash _ _ _ _ agrees | body _ _ _ agrees | expression agrees => exact agrees

/-- What is defined is not defined again. -/
theorem redefines {function : Function} (receives : resolver.Receives (.definition function) fault? next)
    (again : function.proto.name ∈ resolver.defined) : fault? = some (.redefinition function.proto.name) := by
  cases receives with
  | redefinition => rfl
  | defined fresh | body fresh => exact absurd again fresh
  | clash makes fresh =>
    cases makes
    exact absurd again (fresh rfl)

end Receives

/-! ## Checks -/

/-- A check finds a fault or none, and moves nothing but the number of the next scope. -/
theorem checkFunction_cases (resolver : Resolver) (function : Function) :
    ∃ nextId, let last := { resolver with scopes := { resolver.scopes with nextId := nextId } }
      resolver.checkFunction function = (.ok (), last) ∧ resolver.fault? function = none ∨
        ∃ error, resolver.checkFunction function = (.error error, last) ∧ resolver.fault? function = some error := by
  obtain ⟨nextId, checked⟩ := resolver.checkFunction_eq function
  refine ⟨nextId, ?_⟩
  rw [fault?, checked]
  cases function.resolveIn resolver.functions resolver.scopes.names with
  | ok => exact .inl ⟨rfl, rfl⟩
  | error error => exact .inr ⟨error, rfl, rfl⟩

theorem checkFunction_of_closed {resolver : Resolver} (closed : resolver.scopes.frames = []) (function : Function) :
    (resolver.checkFunction function).1 = function.resolveIn resolver.functions [] := by
  obtain ⟨_, checked⟩ := resolver.checkFunction_eq function
  rw [checked, ScopeStack.names, closed, List.flatMap_nil]

theorem fault?_eq_none_iff {resolver : Resolver} (closed : resolver.scopes.frames = []) {function : Function} :
    resolver.fault? function = none ↔ function.resolveIn resolver.functions [] = .ok () := by
  rw [fault?, checkFunction_of_closed closed]
  cases function.resolveIn resolver.functions [] <;> simp

theorem fault?_eq_some_iff {resolver : Resolver} (closed : resolver.scopes.frames = []) {function : Function}
    {error : Error} :
    resolver.fault? function = some error ↔ function.resolveIn resolver.functions [] = .error error := by
  rw [fault?, checkFunction_of_closed closed]
  cases function.resolveIn resolver.functions [] <;> simp

/-! ## Forms -/

theorem receives_definition (resolver : Resolver) (function : Function) :
    ∃ fault?, (resolver.receive (.definition function)).verdicts =
        resolver.verdicts ++ [⟨.definition, function.proto.name, fault?⟩] ∧
      (resolver.receive (.definition function)).scopes.frames = resolver.scopes.frames ∧
      resolver.Receives (.definition function) fault? (resolver.receive (.definition function)) := by
  by_cases again : function.proto.name ∈ resolver.defined
  · refine ⟨some (.redefinition function.proto.name), ?_, ?_, .redefinition again ⟨?_, ?_⟩⟩ <;>
      simp only [receive, record, define, if_pos again]
  obtain ⟨admits, accepted⟩ | ⟨known, found, differs, refused⟩ := resolver.functions.declare_cases function.proto
  · have declared : resolver.declare function.proto = (.ok (), resolver.knowing function.proto) := by
      simp only [declare, accepted, knowing]
    obtain ⟨nextId, ⟨sound, noFault⟩ | ⟨error, failed, fault⟩⟩ :=
      (resolver.knowing function.proto).checkFunction_cases function
    · refine ⟨none, ?_, ?_, .defined again admits noFault ?_ ?_⟩ <;>
        simp only [receive, record, define, if_neg again, declared, sound, knowing_functions, knowing_defined,
          knowing_verdicts, knowing_scopes]
    · refine ⟨some error, ?_, ?_, .body again admits fault ⟨?_, ?_⟩⟩ <;>
        simp only [receive, record, define, if_neg again, declared, failed, knowing_functions, knowing_defined,
          knowing_verdicts, knowing_scopes, FunctionTable.find?_restore_insert]
  · have declared : resolver.declare function.proto =
        (.error (.arityMismatch function.proto.name known.params.length function.proto.params.length), resolver) := by
      simp only [declare, refused]
    refine ⟨_, ?_, ?_, .clash rfl (fun _ => again) found differs ⟨?_, ?_⟩⟩ <;>
      simp only [receive, record, define, if_neg again, declared]

theorem receives_external (resolver : Resolver) (proto : Prototype) :
    ∃ fault?, (resolver.receive (.external proto)).verdicts =
        resolver.verdicts ++ [⟨.external, proto.name, fault?⟩] ∧
      (resolver.receive (.external proto)).scopes.frames = resolver.scopes.frames ∧
      resolver.Receives (.external proto) fault? (resolver.receive (.external proto)) := by
  obtain ⟨admits, accepted⟩ | ⟨known, found, differs, refused⟩ := resolver.functions.declare_cases proto
  · refine ⟨none, ?_, ?_, .declared admits ?_ ?_⟩ <;> simp only [receive, record, declare, accepted]
  · refine ⟨_, ?_, ?_, .clash rfl nofun found differs ⟨?_, ?_⟩⟩ <;> simp only [receive, record, declare, refused]

theorem receives_expression (resolver : Resolver) (function : Function) :
    ∃ fault?, (resolver.receive (.expression function)).verdicts =
        resolver.verdicts ++ [⟨.expression, function.proto.name, fault?⟩] ∧
      (resolver.receive (.expression function)).scopes.frames = resolver.scopes.frames ∧
      resolver.Receives (.expression function) fault? (resolver.receive (.expression function)) := by
  refine ⟨resolver.fault? function, ?_, ?_, .expression ⟨?_, ?_⟩⟩ <;>
    obtain ⟨nextId, ⟨outcome, fault⟩ | ⟨error, outcome, fault⟩⟩ := resolver.checkFunction_cases function <;>
    simp only [receive, record, outcome, fault]

/-- A verdict is added, no earlier one touched, and no scope left open. -/
theorem receives (resolver : Resolver) (form : Form) :
    ∃ fault?, (resolver.receive form).verdicts = resolver.verdicts ++ [⟨form.kind, form.name, fault?⟩] ∧
      (resolver.receive form).scopes.frames = resolver.scopes.frames ∧
      resolver.Receives form fault? (resolver.receive form) := by
  cases form with
  | definition function => exact resolver.receives_definition function
  | external proto => exact resolver.receives_external proto
  | expression function => exact resolver.receives_expression function

end Resolver

end OpLang

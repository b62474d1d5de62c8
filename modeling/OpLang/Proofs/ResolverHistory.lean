import Mathlib.Data.List.Induction
import OpLang.Proofs.Reception

/-! # The history of a resolver

What a resolver knows follows from its verdicts. The known prototypes are those of the definitions and external forms
in which no fault was found, the latest of each name; all that were known under one name have the same number of
parameters, and one of them at most comes from a definition. A form with a fault leaves no trace but its verdict.
-/

namespace OpLang

namespace Resolver

/-- What a resolver has become once it has received the forms. -/
def ofForms (forms : List Form) : Resolver := forms.foldl receive {}

/-- Each form with the fault that was found in it. -/
def history (forms : List Form) : List (Form × Option Error) :=
  forms.zip ((ofForms forms).verdicts.map Verdict.fault?)

/-- The forms in which no fault was found. -/
def sound (entries : List (Form × Option Error)) : List Form :=
  entries.filterMap fun entry => if entry.2 = none then some entry.1 else none

/-- The prototypes that the forms make known, in this order. -/
def prototypes (forms : List Form) : List Prototype := forms.filterMap Form.prototype?

/-- A resolver acts on the ends of forms and on nothing else that it hears. -/
theorem hearAll_eq_foldl (resolver : Resolver) (notifications : List Notification) :
    resolver.hearAll notifications = (notifications.filterMap Notification.completed?).foldl receive resolver := by
  induction notifications generalizing resolver with
  | nil => rfl
  | cons notification later ih =>
    rw [hearAll, List.foldl_cons, ← hearAll, ih]
    cases notification <;> rfl

@[simp] theorem ofForms_concat (forms : List Form) (form : Form) :
    ofForms (forms ++ [form]) = (ofForms forms).receive form := by
  rw [ofForms, List.foldl_append, List.foldl_cons, List.foldl_nil, ← ofForms]

/-! ## Verdicts -/

theorem labels_verdicts (forms : List Form) :
    (ofForms forms).verdicts.map (fun verdict => (verdict.kind, verdict.name)) =
      forms.map fun form => (form.kind, form.name) := by
  induction forms using List.reverseRecOn with
  | nil => rfl
  | append_singleton forms form ih =>
    obtain ⟨_, added, _⟩ := (ofForms forms).receives form
    rw [ofForms_concat, added, List.map_append, List.map_append, ih]
    rfl

theorem length_verdicts (forms : List Form) : (ofForms forms).verdicts.length = forms.length := by
  simpa using congrArg List.length (labels_verdicts forms)

@[simp] theorem map_fst_history (forms : List Form) : (history forms).map Prod.fst = forms :=
  List.map_fst_zip (by simp only [List.length_map, length_verdicts, Nat.le_refl])

theorem history_concat (forms : List Form) (form : Form) :
    ∃ fault?, history (forms ++ [form]) = history forms ++ [(form, fault?)] ∧
      (ofForms forms).Receives form fault? ((ofForms forms).receive form) := by
  obtain ⟨fault?, added, _, receives⟩ := (ofForms forms).receives form
  refine ⟨fault?, ?_, receives⟩
  rw [history, ofForms_concat, added, List.map_append, List.zip_append, ← history]
  · rfl
  · rw [List.length_map, length_verdicts]

/-- What holds of a fresh resolver and is preserved by each form holds after every history. -/
theorem history_induction {motive : List (Form × Option Error) → Resolver → Prop} (fresh : motive [] {})
    (step : ∀ entries resolver form fault? next, motive entries resolver →
      resolver.Receives form fault? next → motive (entries ++ [(form, fault?)]) next) (forms : List Form) :
    motive (history forms) (ofForms forms) := by
  induction forms using List.reverseRecOn with
  | nil => exact fresh
  | append_singleton forms form ih =>
    obtain ⟨fault?, extended, receives⟩ := history_concat forms form
    rw [extended, ofForms_concat]
    exact step _ _ _ _ _ ih receives

/-- Later forms change nothing in the history of the earlier ones. -/
theorem history_append (earlier later : List Form) :
    ∃ entries, history (earlier ++ later) = history earlier ++ entries := by
  induction later using List.reverseRecOn with
  | nil => exact ⟨[], by rw [List.append_nil, List.append_nil]⟩
  | append_singleton later form ih =>
    obtain ⟨entries, past⟩ := ih
    obtain ⟨fault?, extended, _⟩ := history_concat (earlier ++ later) form
    exact ⟨entries ++ [(form, fault?)], by rw [← List.append_assoc, extended, past, List.append_assoc]⟩

/-- What was found in a form was found by the resolver of the forms before it. -/
theorem history_split {forms : List Form} {before after : List (Form × Option Error)} {form : Form}
    {fault? : Option Error} (split : history forms = before ++ (form, fault?) :: after) :
    forms = before.map Prod.fst ++ [form] ++ after.map Prod.fst ∧ history (before.map Prod.fst) = before ∧
      (ofForms (before.map Prod.fst)).Receives form fault? ((ofForms (before.map Prod.fst)).receive form) := by
  have whole : forms = before.map Prod.fst ++ [form] ++ after.map Prod.fst := by
    rw [← map_fst_history forms, split, List.map_append, List.map_cons, List.append_assoc, List.singleton_append]
  obtain ⟨found, here, receives⟩ := history_concat (before.map Prod.fst) form
  obtain ⟨entries, past⟩ := history_append (before.map Prod.fst ++ [form]) (after.map Prod.fst)
  refine ⟨whole, ?_⟩
  rw [← whole, here, List.append_assoc, List.singleton_append] at past
  have sizes : (history (before.map Prod.fst)).length = before.length := by
    rw [← List.length_map Prod.fst, map_fst_history, List.length_map]
  obtain ⟨same, rest⟩ := List.append_inj (past.symm.trans split) sizes
  obtain ⟨rfl⟩ : found = fault? := congrArg Prod.snd (List.cons.inj rest).1
  exact ⟨same, receives⟩

/-! ## What is known -/

@[simp] theorem sound_concat_none (entries : List (Form × Option Error)) (form : Form) :
    sound (entries ++ [(form, none)]) = sound entries ++ [form] :=
  List.filterMap_append

@[simp] theorem sound_concat_some (entries : List (Form × Option Error)) (form : Form) (error : Error) :
    sound (entries ++ [(form, some error)]) = sound entries := by
  rw [sound, List.filterMap_append]
  exact List.append_nil _

theorem prototypes_concat (forms : List Form) (form : Form) :
    prototypes (forms ++ [form]) = prototypes forms ++ form.prototype?.toList := by
  rw [prototypes, List.filterMap_append, ← prototypes]
  cases known : form.prototype? <;> simp [known]

/-- The resolver knows what the forms declare and define. -/
structure Tells (forms : List Form) (resolver : Resolver) : Prop where
  latest : ∀ name, resolver.functions.find? name = (prototypes forms).reverse.find? (·.name = name)
  counts : ∀ first ∈ prototypes forms, ∀ second ∈ prototypes forms,
    first.name = second.name → first.params.length = second.params.length
  defined : ∀ name, name ∈ resolver.defined ↔ ∃ function, .definition function ∈ forms ∧ function.proto.name = name

namespace Tells

variable {forms : List Form} {resolver next : Resolver}

theorem agrees (tells : Tells forms resolver) (agrees : resolver.Agrees next) : Tells forms next where
  latest name := by rw [agrees.functions, tells.latest]
  counts := tells.counts
  defined name := by rw [agrees.defined, tells.defined]

/-- A prototype that was known under a name had as many parameters as the one that is known now. -/
theorem length_eq (tells : Tells forms resolver) {proto earlier : Prototype}
    (admits : resolver.functions.Admits proto) (member : earlier ∈ prototypes forms)
    (same : earlier.name = proto.name) : earlier.params.length = proto.params.length := by
  cases found : resolver.functions.find? proto.name with
  | none =>
    rw [tells.latest, List.find?_eq_none] at found
    exact absurd (decide_eq_true same) (found earlier (List.mem_reverse.mpr member))
  | some known =>
    have latest := tells.latest proto.name ▸ found
    have named : known.name = proto.name := by simpa using List.find?_some latest
    have isKnown : known ∈ prototypes forms := List.mem_reverse.mp (List.mem_of_find?_eq_some latest)
    exact (tells.counts _ member _ isKnown (same.trans named.symm)).trans (admits known found)

theorem concat (tells : Tells forms resolver) {form : Form} {proto : Prototype}
    (makes : form.prototype? = some proto) (admits : resolver.functions.Admits proto)
    (functions : next.functions = resolver.functions.insert proto.name proto)
    (defined : ∀ name, name ∈ next.defined ↔
      name ∈ resolver.defined ∨ ∃ function, form = .definition function ∧ function.proto.name = name) :
    Tells (forms ++ [form]) next := by
  have extended : prototypes (forms ++ [form]) = prototypes forms ++ [proto] := by
    rw [prototypes_concat, makes, Option.toList_some]
  refine ⟨fun name => ?_, ?_, fun name => ?_⟩
  · rw [functions, extended, List.reverse_concat, List.find?_cons, FunctionTable.find?_insert, tells.latest]
    by_cases same : name = proto.name
    · simp [same]
    · simp [same, Ne.symm same]
  · rw [extended]
    intro first isFirst second isSecond same
    rw [List.mem_append, List.mem_singleton] at isFirst isSecond
    obtain isFirst | rfl := isFirst <;> obtain isSecond | rfl := isSecond
    · exact tells.counts first isFirst second isSecond same
    · exact tells.length_eq admits isFirst same
    · exact (tells.length_eq admits isSecond same.symm).symm
    · rfl
  · rw [defined, tells.defined]
    simp only [List.mem_append, List.mem_singleton, or_and_right, exists_or, eq_comm]

/-- Nothing is learned from an expression. -/
theorem concat_expression (tells : Tells forms resolver) (function : Function) :
    Tells (forms ++ [.expression function]) resolver := by
  have unchanged : prototypes (forms ++ [.expression function]) = prototypes forms := by
    rw [prototypes_concat, Form.prototype?, Option.toList_none, List.append_nil]
  refine ⟨fun name => ?_, ?_, fun name => ?_⟩
  · rw [unchanged, tells.latest]
  · rw [unchanged]
    exact tells.counts
  · rw [tells.defined]
    simp

end Tells

/-- What a resolver knows are the prototypes of the forms in which it found no fault. -/
theorem tells_history (forms : List Form) : Tells (sound (history forms)) (ofForms forms) := by
  refine history_induction (motive := fun entries resolver => Tells (sound entries) resolver) ?_ ?_ forms
  · exact ⟨fun _ => rfl, nofun, fun name => by simp [sound]⟩
  intro entries resolver form fault? next tells receives
  cases receives with
  | declared admits functions defined =>
    rw [sound_concat_none]
    exact tells.concat rfl admits functions fun name => by rw [defined]; simp
  | @defined function _ _ admits _ functions defined =>
    rw [sound_concat_none]
    refine tells.concat rfl admits functions fun name => ?_
    rw [defined, List.mem_cons, or_comm]
    simp [eq_comm]
  | redefinition _ agrees | clash _ _ _ _ agrees | body _ _ _ agrees =>
    rw [sound_concat_some]
    exact tells.agrees agrees
  | @expression function _ agrees =>
    cases resolver.fault? function with
    | none =>
      rw [sound_concat_none]
      exact (tells.concat_expression function).agrees agrees
    | some error =>
      rw [sound_concat_some]
      exact tells.agrees agrees

theorem sound_append (entries later : List (Form × Option Error)) :
    sound (entries ++ later) = sound entries ++ sound later :=
  List.filterMap_append

/-- A definition without a fault is the last one of its name that has none. -/
theorem redefinition_of_history {forms : List Form} {before after : List (Form × Option Error)}
    {function again : Function} {fault? : Option Error}
    (split : history forms = before ++ (.definition function, none) :: after)
    (member : (Form.definition again, fault?) ∈ after) (same : again.proto.name = function.proto.name) :
    fault? = some (.redefinition again.proto.name) := by
  obtain ⟨between, rest, rfl⟩ := List.append_of_mem member
  rw [← List.cons_append, ← List.append_assoc] at split
  obtain ⟨_, past, receives⟩ := history_split split
  refine receives.redefines (((tells_history _).defined _).mpr ⟨function, ?_, same.symm⟩)
  rw [past, sound_append]
  exact List.mem_append_right _ (List.mem_cons_self ..)

/-- There is a verdict for each form, in order, and the forms without a fault tell what is known. Once a definition
is without a fault, all later ones of its name are redefinitions. A form with a fault changes nothing but the
verdicts, nor does an expression. -/
theorem knowledge_eq_history (forms : List Form) :
    (ofForms forms).verdicts.map (fun verdict => (verdict.kind, verdict.name)) =
        forms.map (fun form => (form.kind, form.name)) ∧
      Tells (sound (history forms)) (ofForms forms) ∧
      (∀ before function after, history forms = before ++ (.definition function, none) :: after →
        ∀ again fault?, (Form.definition again, fault?) ∈ after → again.proto.name = function.proto.name →
          fault? = some (.redefinition again.proto.name)) ∧
      ∀ form, ∃ fault?, ((ofForms forms).receive form).verdicts =
          (ofForms forms).verdicts ++ [⟨form.kind, form.name, fault?⟩] ∧
        (fault? ≠ none ∨ form.prototype? = none → (ofForms forms).Agrees ((ofForms forms).receive form)) := by
  refine ⟨labels_verdicts forms, tells_history forms, ?_, fun form => ?_⟩
  · intro before function after split again fault? member same
    exact redefinition_of_history split member same
  · obtain ⟨fault?, added, _, receives⟩ := (ofForms forms).receives form
    exact ⟨fault?, added, receives.agrees⟩

/-- An external function is known again after a definition of it has failed, and until another one succeeds. -/
theorem knowledge_eq_history_retried :
    let outer : Prototype := ⟨"f", ["x"], .none, 30⟩
    let inner : Prototype := ⟨"f", ["y"], .none, 30⟩
    let failed : Form := .definition ⟨inner, .call "f" [.var "x"]⟩
    let success : Form := .definition ⟨inner, .call "f" [.var "y"]⟩
    history [.external outer, failed, success, success] =
        [(.external outer, none), (failed, some (.unknownVariable "x")), (success, none),
          (success, some (.redefinition "f"))] ∧
      (ofForms [.external outer, failed]).functions.find? "f" = some outer ∧
      (ofForms [.external outer, failed, success]).functions.find? "f" = some inner := by
  refine ⟨by decide +kernel, ?_, ?_⟩
  · rw [(knowledge_eq_history _).2.1.latest]
    decide +kernel
  · rw [(knowledge_eq_history _).2.1.latest]
    decide +kernel

end Resolver

end OpLang

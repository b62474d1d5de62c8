import Mathlib.Data.List.Basic
import Mathlib.Data.List.Induction
import OpLang.Delivery

/-! # Histories of deliveries

What has been done with a delivery is a list of operations in any order: rules are opened and closed, also where none
is open or with a form of another kind, forms are handed out, and listeners take each other's place. The innermost open
rule is the last one that was opened and behind which all is closed again that was opened. What becomes of a form that
is accepted when its rule is closed is decided once, by the first handing out since.
-/

namespace OpLang

namespace Delivery

variable {ι : Type}

inductive Operation (ι : Type) where
  | openRule (kind : FormKind)
  | closeRule (form? : Option Form)
  | handOut
  | attach (listener : ι)
  deriving DecidableEq

/-- What an operation leaves, whether it succeeds or not. -/
def perform (delivery : Delivery ι) : Operation ι → Delivery ι
  | .openRule kind => delivery.openRule kind
  | .closeRule form? =>
    match closeRule form? delivery with
    | .ok _ next | .error _ next => next
  | .handOut => delivery.handOut
  | .attach listener => delivery.attach listener

/-- A new delivery, with or without a listener, after operations, earliest first. -/
def after (listener : Option ι) (history : List (Operation ι)) : Delivery ι :=
  history.foldl perform { listener := listener }

theorem after_append (listener : Option ι) (history later : List (Operation ι)) :
    after listener (history ++ later) = later.foldl perform (after listener history) :=
  List.foldl_append

@[simp] theorem after_concat (listener : Option ι) (history : List (Operation ι)) (operation : Operation ι) :
    after listener (history ++ [operation]) = (after listener history).perform operation :=
  after_append listener history [operation]

/-! ## Steps -/

/-- The innermost rule can be closed, with the form if there is one. -/
def Accepts (delivery : Delivery ι) (form? : Option Form) : Prop :=
  ∃ closed, closeRule form? delivery = .ok () closed

theorem accepts_iff {delivery : Delivery ι} {form? : Option Form} :
    delivery.Accepts form? ↔ ∃ kind outer, delivery.openRules = kind :: outer ∧ ∀ form ∈ form?, form.kind = kind := by
  rw [Accepts, closeRule]
  cases rules : delivery.openRules with
  | nil => simp
  | cons kind outer =>
    cases form? with
    | none => simp
    | some form =>
      by_cases same : form.kind = kind
      · simp [same]
      · simp [same]

/-- The form that an operation adds to those that wait. -/
def accepted? (delivery : Delivery ι) : Operation ι → Option Form
  | .closeRule form? => form?.filter fun form => delivery.openRules.head? = some form.kind
  | _ => none

theorem accepted?_eq_some_iff {delivery : Delivery ι} {operation : Operation ι} {form : Form} :
    delivery.accepted? operation = some form ↔
      operation = .closeRule (some form) ∧ delivery.Accepts (some form) := by
  cases operation with
  | closeRule form? =>
    have known : delivery.Accepts (some form) ↔ delivery.openRules.head? = some form.kind := by
      rw [accepts_iff, List.head?_eq_some_iff]
      simp
    rw [accepted?, Option.filter_eq_some_iff, known, decide_eq_true_iff, Operation.closeRule.injEq]
  | _ => simp [accepted?]

theorem perform_closeRule_of_nil {delivery : Delivery ι} (rules : delivery.openRules = []) (form? : Option Form) :
    delivery.perform (.closeRule form?) = delivery := by
  rw [perform, closeRule, rules]

theorem perform_closeRule (delivery : Delivery ι) (form? : Option Form) :
    delivery.perform (.closeRule form?) =
      { delivery with
        openRules := delivery.openRules.tail
        pending := delivery.pending ++ (delivery.accepted? (.closeRule form?)).toList } := by
  obtain ⟨openRules, pending, listener, delivered⟩ := delivery
  cases openRules with
  | nil =>
    rw [perform_closeRule_of_nil rfl]
    cases form? <;> simp [accepted?]
  | cons kind outer =>
    cases form? with
    | none => simp [perform, closeRule, accepted?]
    | some form =>
      by_cases same : form.kind = kind
      · simp [perform, closeRule, accepted?, Option.filter_some, same]
      · simp [perform, closeRule, accepted?, Option.filter_some, same, Ne.symm same]

theorem openRules_closeRule (delivery : Delivery ι) (form? : Option Form) :
    (delivery.perform (.closeRule form?)).openRules = delivery.openRules.tail := by
  rw [perform_closeRule]

/-- What is told of a form that has been handed out to somebody, or to nobody, or not at all. -/
def told : Option (Option ι) → Form → List (ι × Notification)
  | some (some listener), form => [(listener, .entered form), (listener, .exited form)]
  | _, _ => []

/-- A form waits until it is handed out. -/
def waits : Option (Option ι) → Form → List Form
  | none, form => [form]
  | some _, _ => []

theorem perform_handOut (delivery : Delivery ι) :
    delivery.perform .handOut =
      { delivery with
        pending := []
        delivered := delivery.delivered ++ delivery.pending.flatMap (told (some delivery.listener)) } := by
  rw [perform, handOut]
  split
  · next nobody => simp [nobody, told]
  · next listener somebody =>
    simp only [somebody, List.map_flatMap]
    rfl

/-! ## Open rules -/

/-- Rules that are opened by the operations are closed by them, and no others are. -/
inductive Nested : List (Operation ι) → Prop
  | nil : Nested []
  | rule {kind : FormKind} {inner : List (Operation ι)} {form? : Option Form} {later : List (Operation ι)}
      (inside : Nested inner) (behind : Nested later) :
      Nested (.openRule kind :: inner ++ .closeRule form? :: later)
  | handOut {later : List (Operation ι)} (behind : Nested later) : Nested (.handOut :: later)
  | attach {listener : ι} {later : List (Operation ι)} (behind : Nested later) : Nested (.attach listener :: later)

theorem Nested.append {first second : List (Operation ι)} (nested : Nested first) (behind : Nested second) :
    Nested (first ++ second) := by
  induction nested with
  | nil => exact behind
  | rule inside _ _ ih =>
    rw [List.append_assoc]
    exact .rule inside ih
  | handOut _ ih => exact .handOut ih
  | attach _ ih => exact .attach ih

/-- The rules that are open around the operations stay open. -/
theorem Nested.openRules_foldl {operations : List (Operation ι)} (nested : Nested operations)
    (delivery : Delivery ι) : (operations.foldl perform delivery).openRules = delivery.openRules := by
  induction nested generalizing delivery with
  | nil => rfl
  | rule _ _ inside behind =>
    rw [List.foldl_append, List.foldl_cons, List.foldl_cons, behind, openRules_closeRule, inside]
    rfl
  | handOut _ ih => rw [List.foldl_cons, ih, perform_handOut]
  | attach _ ih => exact ih _

/-- The innermost of the rules that are open behind a history has the kind and was opened behind the first
operations. -/
def Innermost (history : List (Operation ι)) (kind : FormKind) (before : List (Operation ι)) : Prop :=
  ∃ since, history = before ++ .openRule kind :: since ∧ Nested since

section Innermost

variable {listener : Option ι} {history before : List (Operation ι)} {kind : FormKind}

theorem Innermost.append {later : List (Operation ι)} (innermost : Innermost history kind before)
    (nested : Nested later) : Innermost (history ++ later) kind before := by
  obtain ⟨since, rfl, inside⟩ := innermost
  exact ⟨since ++ later, List.append_assoc .., inside.append nested⟩

theorem Innermost.openRules (innermost : Innermost history kind before) :
    (after listener history).openRules = kind :: (after listener before).openRules := by
  obtain ⟨since, rfl, nested⟩ := innermost
  rw [after_append, List.foldl_cons, nested.openRules_foldl]
  rfl

/-- If any rule is open, one is the innermost, and it was opened inside of the others. -/
theorem exists_innermost {outer : List FormKind} (rules : (after listener history).openRules = kind :: outer) :
    ∃ before, Innermost history kind before ∧ (after listener before).openRules = outer := by
  induction size : history.length using Nat.strongRecOn generalizing history kind outer with
  | ind size ih =>
    rcases List.eq_nil_or_concat' history with rfl | ⟨earlier, last, rfl⟩
    · cases rules
    · rw [List.length_append, List.length_singleton] at size
      rw [after_concat] at rules
      cases last with
      | openRule next =>
        cases rules
        exact ⟨earlier, ⟨[], rfl, .nil⟩, rfl⟩
      | closeRule form? =>
        -- the rule that is closed was the innermost one, and it was opened inside of the one that is so now
        rw [openRules_closeRule] at rules
        rcases opened : (after listener earlier).openRules with _ | ⟨closed, left⟩
        · rw [opened] at rules
          cases rules
        · rw [opened] at rules
          obtain rfl : left = kind :: outer := rules
          obtain ⟨middle, ⟨inside, rfl, nested⟩, rules⟩ := ih earlier.length (by omega) opened rfl
          have shorter : middle.length < (middle ++ .openRule closed :: inside).length := by simp
          obtain ⟨before, innermost, outside⟩ := ih middle.length (by omega) rules rfl
          refine ⟨before, ?_, outside⟩
          rw [List.append_assoc]
          exact innermost.append (.rule nested .nil)
      | handOut =>
        rw [perform_handOut] at rules
        obtain ⟨before, innermost, outside⟩ := ih earlier.length (by omega) rules rfl
        exact ⟨before, innermost.append (.handOut .nil), outside⟩
      | attach next =>
        obtain ⟨before, innermost, outside⟩ := ih earlier.length (by omega) rules rfl
        exact ⟨before, innermost.append (.attach .nil), outside⟩

theorem accepts_after_iff {form? : Option Form} :
    (after listener history).Accepts form? ↔
      ∃ kind before, Innermost history kind before ∧ ∀ form ∈ form?, form.kind = kind := by
  rw [accepts_iff]
  constructor
  · rintro ⟨kind, outer, rules, same⟩
    obtain ⟨before, innermost, _⟩ := exists_innermost rules
    exact ⟨kind, before, innermost, same⟩
  · rintro ⟨kind, before, innermost, same⟩
    exact ⟨kind, _, innermost.openRules, same⟩

theorem Innermost.perform_closeRule (innermost : Innermost history kind before) (form? : Option Form) :
    (after listener history).perform (.closeRule form?) =
      { after listener history with
        openRules := (after listener before).openRules
        pending := (after listener history).pending ++ (form?.filter (·.kind = kind)).toList } := by
  simp only [Delivery.perform_closeRule, accepted?, innermost.openRules, List.tail_cons, List.head?_cons,
    Option.some.injEq, @eq_comm _ kind]

theorem perform_closeRule_of_none (none : ∀ kind before, ¬ Innermost history kind before) (form? : Option Form) :
    (after listener history).perform (.closeRule form?) = after listener history := by
  apply perform_closeRule_of_nil
  cases rules : (after listener history).openRules with
  | nil => rfl
  | cons kind outer =>
    obtain ⟨before, innermost, _⟩ := exists_innermost rules
    exact absurd innermost (none kind before)

end Innermost

/-! ## Audiences -/

/-- Who listens when the operations first hand out forms, if they do so: perhaps nobody. -/
def audience? (listener : Option ι) : List (Operation ι) → Option (Option ι)
  | [] => none
  | .handOut :: _ => some listener
  | .attach next :: later => audience? (some next) later
  | .openRule _ :: later | .closeRule _ :: later => audience? listener later

/-- All that an operation does with forms, unless it hands them out, is to let one more wait. -/
theorem perform_of_ne {operation : Operation ι} (ne : operation ≠ .handOut) (delivery : Delivery ι) :
    (delivery.perform operation).pending = delivery.pending ++ (delivery.accepted? operation).toList ∧
      (delivery.perform operation).delivered = delivery.delivered ∧
      ∀ later, audience? (delivery.perform operation).listener later =
        audience? delivery.listener (operation :: later) := by
  cases operation with
  | openRule kind => exact ⟨(List.append_nil _).symm, rfl, fun _ => rfl⟩
  | closeRule form? =>
    rw [perform_closeRule]
    exact ⟨rfl, rfl, fun _ => rfl⟩
  | handOut => exact absurd rfl ne
  | attach listener => exact ⟨(List.append_nil _).symm, rfl, fun _ => rfl⟩

theorem audience?_eq_some_iff {delivery : Delivery ι} {operations : List (Operation ι)} {present : Option ι} :
    audience? delivery.listener operations = some present ↔
      ∃ between rest, operations = between ++ .handOut :: rest ∧ .handOut ∉ between ∧
        (between.foldl perform delivery).listener = present := by
  induction operations generalizing delivery with
  | nil => simp [audience?]
  | cons operation later ih =>
    by_cases handsOut : operation = .handOut
    · subst handsOut
      rw [audience?, Option.some.injEq]
      constructor
      · rintro rfl
        exact ⟨[], later, rfl, List.not_mem_nil, rfl⟩
      · rintro ⟨_ | ⟨_, between⟩, rest, split, first, same⟩ <;> cases split
        · exact same
        · exact absurd List.mem_cons_self first
    · rw [← (perform_of_ne handsOut delivery).2.2, ih]
      constructor
      · rintro ⟨between, rest, rfl, first, same⟩
        exact ⟨operation :: between, rest, rfl, List.not_mem_cons_of_ne_of_not_mem (Ne.symm handsOut) first, same⟩
      · rintro ⟨_ | ⟨_, between⟩, rest, split, first, same⟩ <;> cases split
        · exact absurd rfl handsOut
        · exact ⟨between, rest, rfl, List.not_mem_of_not_mem_cons first, same⟩

/-! ## Accepted forms -/

/-- A form that is accepted in a history, between the operations before and those since. -/
structure Acceptance (ι : Type) where
  before : List (Operation ι)
  form : Form
  since : List (Operation ι)

/-- Who listened when forms were first handed out since, if they were. -/
def Acceptance.audience? (listener : Option ι) (acceptance : Acceptance ι) : Option (Option ι) :=
  Delivery.audience? (after listener (acceptance.before ++ [.closeRule (some acceptance.form)])).listener
    acceptance.since

/-- The forms that operations behind the first ones accept. -/
def acceptances (listener : Option ι) (before : List (Operation ι)) : List (Operation ι) → List (Acceptance ι)
  | [] => []
  | operation :: since =>
    ((after listener before).accepted? operation).toList.map (⟨before, ·, since⟩) ++
      acceptances listener (before ++ [operation]) since

theorem mem_acceptances_iff {listener : Option ι} {before operations : List (Operation ι)}
    {acceptance : Acceptance ι} :
    acceptance ∈ acceptances listener before operations ↔
      ∃ between, acceptance.before = before ++ between ∧
        operations = between ++ .closeRule (some acceptance.form) :: acceptance.since ∧
        (after listener acceptance.before).Accepts (some acceptance.form) := by
  induction operations generalizing before with
  | nil => simp [acceptances]
  | cons operation since ih =>
    obtain ⟨earlier, form, rest⟩ := acceptance
    simp only [acceptances, List.mem_append, ih, List.mem_map, Option.mem_toList, accepted?_eq_some_iff]
    constructor
    · rintro (⟨_, ⟨rfl, accepts⟩, same⟩ | ⟨between, rfl, rfl, accepts⟩)
      · cases same
        exact ⟨[], (List.append_nil _).symm, rfl, accepts⟩
      · exact ⟨operation :: between, List.append_assoc .., rfl, accepts⟩
    · rintro ⟨_ | ⟨_, between⟩, rfl, split, accepts⟩ <;> cases split
      · rw [List.append_nil] at accepts ⊢
        exact .inl ⟨form, ⟨rfl, accepts⟩, rfl⟩
      · exact .inr ⟨between, List.append_cons .., rfl, accepts⟩

theorem pairwise_acceptances (listener : Option ι) (before operations : List (Operation ι)) :
    (acceptances listener before operations).Pairwise fun earlier later =>
      earlier.before.length < later.before.length := by
  induction operations generalizing before with
  | nil => exact .nil
  | cons operation operations ih =>
    rw [acceptances, List.pairwise_append]
    refine ⟨?_, ih _, ?_⟩
    · cases (after listener before).accepted? operation with
      | none => exact .nil
      | some form => exact List.pairwise_singleton ..
    · intro earlier here later further
      obtain ⟨form, _, rfl⟩ := List.mem_map.mp here
      obtain ⟨between, same, _⟩ := mem_acceptances_iff.mp further
      rw [same, List.length_append, List.length_append, List.length_singleton]
      change before.length < _
      omega

section Outcome

variable {α : Type} (made : Option (Option ι) → Form → List α) (listener : Option ι)

/-- What is made of the forms that wait behind the first operations, and of those that later ones accept, by the
audience of each. -/
def outcome (before operations : List (Operation ι)) : List α :=
  (after listener before).pending.flatMap (made (audience? (after listener before).listener operations)) ++
    (acceptances listener before operations).flatMap fun acceptance =>
      made (acceptance.audience? listener) acceptance.form

theorem outcome_nil (before : List (Operation ι)) :
    outcome made listener before [] = (after listener before).pending.flatMap (made none) :=
  List.append_nil _

theorem outcome_handOut (before later : List (Operation ι)) :
    outcome made listener before (.handOut :: later) =
      (after listener before).pending.flatMap (made (some (after listener before).listener)) ++
        outcome made listener (before ++ [.handOut]) later := by
  rw [outcome, outcome, after_concat, perform_handOut]
  rfl

/-- A form that is accepted now has the audience of those that wait already. -/
theorem outcome_cons_of_ne {operation : Operation ι} (ne : operation ≠ .handOut) (before later : List (Operation ι)) :
    outcome made listener before (operation :: later) = outcome made listener (before ++ [operation]) later := by
  obtain ⟨pending, _, audience⟩ := perform_of_ne ne (after listener before)
  rw [outcome, outcome, after_concat, pending, audience, acceptances, List.flatMap_append, List.flatMap_append,
    List.append_assoc]
  congr 2
  cases accepted : (after listener before).accepted? operation with
  | none => rfl
  | some form =>
    obtain ⟨rfl, _⟩ := accepted?_eq_some_iff.mp accepted
    simp only [Option.toList_some, List.map_cons, List.map_nil, List.flatMap_singleton, Acceptance.audience?,
      after_concat, audience]

end Outcome

theorem pending_after (listener : Option ι) (before operations : List (Operation ι)) :
    (after listener (before ++ operations)).pending = outcome waits listener before operations := by
  induction operations generalizing before with
  | nil =>
    rw [List.append_nil, outcome_nil]
    exact (List.flatMap_singleton' _).symm
  | cons operation later ih =>
    rw [List.append_cons, ih]
    by_cases handsOut : operation = .handOut
    · rw [handsOut, outcome_handOut]
      simp [waits]
    · rw [outcome_cons_of_ne _ _ handsOut]

theorem delivered_after (listener : Option ι) (before operations : List (Operation ι)) :
    (after listener (before ++ operations)).delivered =
      (after listener before).delivered ++ outcome told listener before operations := by
  induction operations generalizing before with
  | nil =>
    rw [List.append_nil, outcome_nil]
    simp [told]
  | cons operation later ih =>
    rw [List.append_cons, ih, after_concat]
    by_cases handsOut : operation = .handOut
    · rw [handsOut, outcome_handOut, perform_handOut, List.append_assoc]
    · rw [outcome_cons_of_ne _ _ handsOut, (perform_of_ne handsOut _).2.1]

/-! ## Records -/

/-- The listener that an operation puts in the place of any other. -/
def Operation.attached? : Operation ι → Option ι
  | .attach listener => some listener
  | _ => none

theorem listener_after (listener : Option ι) (history : List (Operation ι)) :
    (after listener history).listener = (history.filterMap Operation.attached?).getLast?.or listener := by
  induction history using List.reverseRecOn with
  | nil => rfl
  | append_singleton history operation ih =>
    rw [after_concat, List.filterMap_append, List.getLast?_append, Option.or_assoc, ← ih]
    cases operation with
    | openRule | attach => rfl
    | closeRule =>
      rw [perform_closeRule]
      rfl
    | handOut =>
      rw [perform_handOut]
      rfl

/-- What one listener was told. -/
def heard [DecidableEq ι] (delivery : Delivery ι) (listener : ι) : List Notification :=
  delivery.delivered.filterMap fun entry => if entry.1 = listener then some entry.2 else none

/-- The list is all that a history accepts, in the order in which the rules were closed, and what waits and what was
told follow from the audience of each form. -/
structure Record (listener : Option ι) (history : List (Operation ι)) (accepted : List (Acceptance ι)) : Prop where
  mem_iff : ∀ acceptance, acceptance ∈ accepted ↔
    history = acceptance.before ++ .closeRule (some acceptance.form) :: acceptance.since ∧
      (after listener acceptance.before).Accepts (some acceptance.form)
  /-- So none is there twice. -/
  inOrder : accepted.Pairwise fun earlier later => earlier.before.length < later.before.length
  /-- The listener by the first handing out since is the audience, and later ones change nothing. -/
  audience : ∀ acceptance ∈ accepted, ∀ present, acceptance.audience? listener = some present ↔
    ∃ between rest, acceptance.since = between ++ .handOut :: rest ∧ .handOut ∉ between ∧
      (after listener (acceptance.before ++ .closeRule (some acceptance.form) :: between)).listener = present
  pending : (after listener history).pending =
    accepted.flatMap fun acceptance => waits (acceptance.audience? listener) acceptance.form
  delivered : (after listener history).delivered =
    accepted.flatMap fun acceptance => told (acceptance.audience? listener) acceptance.form

theorem record_acceptances (listener : Option ι) (history : List (Operation ι)) :
    Record listener history (acceptances listener [] history) where
  mem_iff acceptance := by
    rw [mem_acceptances_iff]
    constructor
    · rintro ⟨_, rfl, split⟩
      exact split
    · intro split
      exact ⟨_, rfl, split⟩
  inOrder := pairwise_acceptances listener [] history
  audience acceptance _ present := by
    rw [Acceptance.audience?, audience?_eq_some_iff]
    simp only [← after_append, List.append_assoc, List.singleton_append]
  pending := pending_after listener [] history
  delivered := delivered_after listener [] history

theorem Record.heard_eq [DecidableEq ι] {listener : Option ι} {history : List (Operation ι)}
    {accepted : List (Acceptance ι)} (record : Record listener history accepted) (one : ι) :
    (after listener history).heard one =
      (accepted.filter fun acceptance => acceptance.audience? listener = some (some one)).flatMap fun acceptance =>
        [.entered acceptance.form, .exited acceptance.form] := by
  rw [heard, record.delivered]
  clear record
  induction accepted with
  | nil => rfl
  | cons acceptance accepted ih =>
    rw [List.flatMap_cons, List.filterMap_append, ih, List.filter_cons]
    rcases acceptance.audience? listener with _ | _ | other
    · rfl
    · rfl
    · by_cases same : other = one
      · simp [told, same]
      · simp [told, same]

/-- In any history, to close a rule closes the innermost open one. It fails if none is open, and then nothing changes, or
if it comes with a form of another kind, which is lost with its rule. A form that is accepted is told to the listener by
the first handing out since, if somebody listens by then, and to nobody ever if nobody does. All that a listener hears
is the beginning and the end of each of its forms, in the order in which their rules were closed. -/
theorem accepted_told_once [DecidableEq ι] (first : Option ι) (history : List (Operation ι)) :
    let delivery := after first history
    (∀ form?, delivery.Accepts form? ↔
        ∃ kind before, Innermost history kind before ∧ ∀ form ∈ form?, form.kind = kind) ∧
      (∀ kind before, Innermost history kind before → ∀ form?,
        delivery.perform (.closeRule form?) =
          { delivery with
            openRules := (after first before).openRules
            pending := delivery.pending ++ (form?.filter (·.kind = kind)).toList }) ∧
      ((∀ kind before, ¬ Innermost history kind before) →
        ∀ form?, delivery.perform (.closeRule form?) = delivery) ∧
      delivery.listener = (history.filterMap Operation.attached?).getLast?.or first ∧
      ∃ accepted, Record first history accepted ∧
        ∀ listener, delivery.heard listener =
          (accepted.filter fun acceptance => acceptance.audience? first = some (some listener)).flatMap
            fun acceptance => [.entered acceptance.form, .exited acceptance.form] := by
  intro delivery
  have record := record_acceptances first history
  refine ⟨fun form? => accepts_after_iff, ?_, perform_closeRule_of_none, listener_after first history, _, record,
    record.heard_eq⟩
  intro kind before innermost
  exact innermost.perform_closeRule

/-- One form is accepted within the rule of another and forgotten, and the other is refused; two wait for the listener
who comes before they are handed out, and the next one is for the listener who comes later. -/
theorem accepted_told_once_replaced :
    let sine : Form := .external { name := "sin", params := ["x"] }
    let call : Form := .expression (.anonymous (.call "sin" [.var "x"]))
    let refused : List (Operation Nat) :=
      [.openRule .external, .openRule .expression, .closeRule (some call), .closeRule (some call)]
    let history : List (Operation Nat) :=
      refused ++
        [.closeRule none, .handOut, .openRule .expression, .openRule .external, .closeRule (some sine), .attach 0,
          .closeRule (some call), .handOut, .openRule .external, .attach 1, .closeRule (some sine), .handOut]
    let toldTo (accepted : List (Acceptance Nat)) (listener : Nat) : List Notification :=
      (accepted.filter fun acceptance => acceptance.audience? none = some (some listener)).flatMap fun acceptance =>
        [.entered acceptance.form, .exited acceptance.form]
    (∀ kind before, ¬ Innermost refused kind before) ∧
      ∃ accepted, Record none history accepted ∧
        toldTo accepted 0 = [.entered sine, .exited sine, .entered call, .exited call] ∧
        toldTo accepted 1 = [.entered sine, .exited sine] := by
  intro sine call refused history toldTo
  constructor
  · intro kind before innermost
    obtain ⟨accepts, _⟩ := accepted_told_once none refused
    obtain ⟨closed, same⟩ := (accepts none).mpr ⟨kind, before, innermost, nofun⟩
    cases same
  · obtain ⟨_, _, _, _, accepted, record, heard⟩ := accepted_told_once none history
    exact ⟨accepted, record, (heard 0).symm, (heard 1).symm⟩

end Delivery

end OpLang

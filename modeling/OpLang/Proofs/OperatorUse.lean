import OpLang.Proofs.OperatorAgreement

/-! # Operators and their operands

A resolver looks an operator up by the name of the function behind it and asks for nothing more. That is enough: no
identifier is spelled like such a name, so what is known under it was declared as an operator of just that kind, and
such a prototype has as many parameters as its operator has operands.
-/

namespace OpLang

open Visitable

namespace FunctionTable

/-- Every known prototype is known under its own name and may stand in a source. -/
def Proper (functions : FunctionTable) : Prop :=
  ∀ name proto, functions.find? name = some proto → proto.name = name ∧ proto.WellFormed

/-- The function behind the unary operator is known, and it takes one operand. -/
def HasUnary (functions : FunctionTable) (symbol : Char) : Prop :=
  ∃ proto, functions.find? (unaryName symbol) = some proto ∧ proto.kind = .prefixOp ∧ proto.params.length = 1

/-- The function behind the binary operator is known, and it takes two operands. -/
def HasBinary (functions : FunctionTable) (symbol : Char) : Prop :=
  ∃ proto, functions.find? (binaryName symbol) = some proto ∧ proto.kind = .infixOp ∧ proto.params.length = 2

/-- Whatever is known under the names of an operator are operators that take as many operands as the uses have. -/
structure Serves (functions : FunctionTable) (symbol : Char) : Prop where
  unary : ∀ proto, functions.find? (unaryName symbol) = some proto →
    proto.kind = .prefixOp ∧ proto.params.length = 1
  binary : ∀ proto, functions.find? (binaryName symbol) = some proto →
    proto.kind = .infixOp ∧ proto.params.length = 2

variable {functions : FunctionTable} {symbol : Char}

theorem Proper.insert (proper : functions.Proper) {proto : Prototype} (wellFormed : proto.WellFormed) :
    (functions.insert proto.name proto).Proper := by
  intro name known found
  rw [find?_insert] at found
  split at found
  · next same =>
    cases found
    exact ⟨same.symm, wellFormed⟩
  · exact proper name known found

/-- The name of an operator function is its kind and its operator, and the kind gives the number of parameters. -/
theorem Proper.serves (proper : functions.Proper) (operator : IsOperator symbol) : functions.Serves symbol where
  unary proto found := by
    obtain ⟨named, wellFormed⟩ := proper _ proto found
    have kind := wellFormed.kind_eq_prefixOp_iff.mpr ⟨symbol, operator, named⟩
    obtain ⟨_, _, _, _, count⟩ := wellFormed.prefixOp kind
    exact ⟨kind, count⟩
  binary proto found := by
    obtain ⟨named, wellFormed⟩ := proper _ proto found
    have kind := wellFormed.kind_eq_infixOp_iff.mpr ⟨symbol, operator, named⟩
    obtain ⟨_, _, _, _, count, _⟩ := wellFormed.infixOp kind
    exact ⟨kind, count⟩

theorem Serves.hasUnary (serves : functions.Serves symbol) (known : functions.knows (unaryName symbol)) :
    functions.HasUnary symbol := by
  obtain ⟨proto, found⟩ := knows_iff.mp known
  exact ⟨proto, found, serves.unary proto found⟩

theorem Serves.hasBinary (serves : functions.Serves symbol) (known : functions.knowsBinary symbol) :
    (∃ precedence, (symbol, precedence) ∈ standardOperators) ∨ functions.HasBinary symbol := by
  obtain builtIn | ⟨proto, found⟩ := knowsBinary_iff.mp known
  · exact .inl builtIn
  · exact .inr ⟨proto, found, serves.binary proto found⟩

end FunctionTable

/-! ## What is known -/

theorem Form.Written.prototype {form : Form} {proto : Prototype} (written : form.Written)
    (known : form.prototype? = some proto) : proto.WellFormed := by
  obtain ⟨table, under⟩ : ∃ table, form.WrittenUnder table := written
  exact under.wellFormed.prototype known

namespace Resolver

theorem mem_of_mem_sound {forms : List Form} {form : Form} (member : form ∈ sound (history forms)) :
    form ∈ forms := by
  obtain ⟨⟨received, fault?⟩, inside, kept⟩ := List.mem_filterMap.mp member
  rw [← map_fst_history forms]
  split at kept
  · exact Option.some.inj kept ▸ List.mem_map_of_mem inside
  · cases kept

/-- What is known was declared by one of the forms, under the name by which it is found. -/
theorem declared_of_find? {forms : List Form} {name : String} {proto : Prototype}
    (found : (ofForms forms).functions.find? name = some proto) :
    proto.name = name ∧ ∃ form ∈ forms, form.prototype? = some proto := by
  rw [(tells_history forms).latest] at found
  obtain ⟨form, member, known⟩ := List.mem_filterMap.mp (List.mem_reverse.mp (List.mem_of_find?_eq_some found))
  exact ⟨by simpa using List.find?_some found, form, mem_of_mem_sound member, known⟩

theorem proper_ofForms {forms : List Form} (written : ∀ form ∈ forms, form.Written) :
    (ofForms forms).functions.Proper := by
  intro name proto found
  obtain ⟨named, form, member, known⟩ := declared_of_find? found
  exact ⟨named, (written form member).prototype known⟩

/-- A function without a fault uses operators that are built in or known, now and after all later forms. -/
theorem knows_operators {forms : List Form} (later : List Form) {before after : List (Form × Option Error)}
    {form : Form} {function : Function} {symbol : Char}
    (checked : form = .definition function ∨ form = .expression function) (split : history forms = before ++ (form, none) :: after) :
    let functions := (ofForms (before.map Prod.fst ++ form :: later)).functions
    (.unary symbol ∈ trace function → functions.knows (unaryName symbol)) ∧
      (.binary symbol ∈ trace function → functions.knowsBinary symbol) := by
  obtain ⟨_, _, receives⟩ := history_split split
  have sound := receives.resolves (frames_ofForms _) checked
  rw [← ofForms_concat] at sound
  have met := (function.demands []).met (Function.resolveIn_of_retains (retains_append _ later) sound)
  rw [List.append_assoc, List.singleton_append] at met
  exact ⟨fun member => Label.resolve_unary_iff.mp (met _ member),
    fun member => Label.resolve_binary_iff.mp (met _ member)⟩

end Resolver

/-! ## Uses of operators -/

/-- The operators of a form that stands in a source are characters that no name contains. -/
theorem Form.Written.isOperator {form : Form} {function : Function} {symbol : Char} (written : form.Written)
    (checked : form = .definition function ∨ form = .expression function)
    (used : .unary symbol ∈ trace function ∨ .binary symbol ∈ trace function) : IsOperator symbol := by
  obtain ⟨table, under⟩ : ∃ table, form.WrittenUnder table := written
  have body := under.wellFormed.body checked
  obtain member | member := used
  all_goals
    have labelled := body.of_mem_trace member
    simp only [reduceCtorEq, false_or] at labelled
    exact labelled.1

/-- Whatever a listening resolver knows, before or between or after the forms of any sources or while it checks the
body of a definition, under the names of an operator that is used somewhere in these sources, are operators with as
many parameters as the uses have operands. So each operator in a form without a fault is built in or has such a
function behind it, right after the form and after all later ones. -/
theorem operator_uses_served (table : OperatorTable) (sources : List String) :
    let outcome := parseAll table sources
    Resolver.hearAll {} outcome.notifications = Resolver.ofForms outcome.forms ∧
      (∀ form ∈ outcome.forms, ∀ function symbol, (form = .definition function ∨ form = .expression function) →
        (.unary symbol ∈ trace function ∨ .binary symbol ∈ trace function) →
        ∀ heard later, outcome.notifications = heard ++ later →
          (Resolver.hearAll {} heard).functions.Serves symbol ∧
            ∀ definition rest, later = .exited (.definition definition) :: rest →
              ((Resolver.hearAll {} heard).knowing definition.proto).functions.Serves symbol) ∧
      ∀ before form between after function symbol,
        Resolver.history outcome.forms = before ++ (form, none) :: (between ++ after) →
        (form = .definition function ∨ form = .expression function) →
        let functions := (Resolver.ofForms (before.map Prod.fst ++ form :: between.map Prod.fst)).functions
        (.unary symbol ∈ trace function → functions.HasUnary symbol) ∧
          (.binary symbol ∈ trace function →
            (∃ precedence, (symbol, precedence) ∈ standardOperators) ∨ functions.HasBinary symbol) := by
  intro outcome
  have written : ∀ form ∈ outcome.forms, form.Written := fun form => (parseAll_in_turn table sources).of_mem
  refine ⟨Resolver.hearAll_eq_foldl _ _, ?_, ?_⟩
  · intro form member function symbol checked used heard later split
    have operator := (written form member).isOperator checked used
    have whole : outcome.forms = heard.filterMap Notification.completed? ++ later.filterMap Notification.completed? := by
      rw [Outcome.forms, split, List.filterMap_append]
    have proper : (Resolver.hearAll {} heard).functions.Proper := by
      rw [Resolver.hearAll_eq_foldl]
      exact Resolver.proper_ofForms fun earlier isEarlier =>
        written earlier (whole ▸ List.mem_append_left _ isEarlier)
    refine ⟨proper.serves operator, fun definition rest ahead => ?_⟩
    have delivered : Form.definition definition ∈ outcome.forms := by
      rw [whole, ahead]
      exact List.mem_append_right _ (List.mem_cons_self ..)
    exact (proper.insert ((written _ delivered).prototype rfl)).serves operator
  · intro before form between after function symbol split checked functions
    have whole : outcome.forms = before.map Prod.fst ++ form :: (between.map Prod.fst ++ after.map Prod.fst) := by
      rw [← Resolver.map_fst_history outcome.forms, split, List.map_append, List.map_cons, List.map_append]
    have inside : form ∈ outcome.forms := by simp [whole]
    have proper : functions.Proper := Resolver.proper_ofForms fun earlier isEarlier => by
      refine written earlier ?_
      rw [whole, ← List.cons_append, ← List.append_assoc]
      exact List.mem_append_left _ isEarlier
    obtain ⟨unary, binary⟩ := Resolver.knows_operators (between.map Prod.fst) checked split
    have serves (used : .unary symbol ∈ trace function ∨ .binary symbol ∈ trace function) : functions.Serves symbol :=
      proper.serves ((written form inside).isOperator checked used)
    exact ⟨fun member => (serves (.inl member)).hasUnary (unary member),
      fun member => (serves (.inr member)).hasBinary (binary member)⟩

/-- The resolver checks a use of two operators by their names alone, which were declared in another source and from an
empty table; it keeps the operand counts when one of the operators is declared again. -/
theorem operator_uses_served_twice :
    let sources := ["def unary ! (v) v; def binary | 5 (a b) a", "def f(x) x | !x; extern unary ! (w)"]
    let outcome := parseAll .empty sources
    let user : Function := ⟨⟨"f", ["x"], .none, 30⟩, .binary '|' (.var "x") (.unary '!' (.var "x"))⟩
    let again : Prototype := ⟨"unary!", ["w"], .prefixOp, 30⟩
    (∃ before, Resolver.history outcome.forms = before ++ (.definition user, none) :: ([(.external again, none)] ++ []) ∧
        (Resolver.ofForms (before.map Prod.fst ++ [.definition user, .external again])).functions.HasUnary '!' ∧
        (Resolver.ofForms (before.map Prod.fst ++ [.definition user, .external again])).functions.HasBinary '|') ∧
      (Resolver.hearAll {} (outcome.notifications.take 3)).functions.Serves '|' := by
  intro sources outcome user again
  obtain ⟨_, states, uses⟩ := operator_uses_served .empty sources
  have delivered : .definition user ∈ outcome.forms := by decide +kernel
  have split : Resolver.history outcome.forms = (Resolver.history outcome.forms).take 2 ++
      (.definition user, none) :: ([(.external again, none)] ++ []) := by decide +kernel
  obtain ⟨unary, _⟩ := uses _ _ _ _ user '!' split (.inl rfl)
  obtain ⟨_, binary⟩ := uses _ _ _ _ user '|' split (.inl rfl)
  refine ⟨⟨_, split, unary (by decide), ?_⟩, ?_⟩
  · refine (binary (by decide)).resolve_left ?_
    rintro ⟨precedence, builtIn⟩
    simp [standardOperators] at builtIn
  · exact (states _ delivered user '|' (.inl rfl) (.inr (by decide)) _ _ (List.take_append_drop 3 _).symm).1

end OpLang

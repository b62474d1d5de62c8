import OpLang.Proofs.OperatorRecord
import OpLang.Proofs.Trace

/-! # Well-formed forms

What is read from a source is spelled in it, and this shows in every form: names are words that are no keywords,
operators are ASCII characters that no word, number, blank or comment contains, and numbers are magnitudes. The name
of an operator function is the word of its kind with the operator behind it, which is no identifier; so two functions
have one name only if they are the same operator or the same identifier, and neither has the name of a top-level
expression.
-/

namespace OpLang

open OpLang.Text Visitable

/-- The number is neither negative nor other than a number; it may be infinite. -/
def Binary64.IsMagnitude : Binary64 → Prop
  | .nan => False
  | .infinite negative | .finite negative _ => negative = false

/-- Names and parameters are identifiers, except that an operator function is named after its operator; it has as many
parameters as the operator has operands, and a binary operator has a precedence in the range. -/
structure Prototype.WellFormed (proto : Prototype) : Prop where
  distinct : proto.params.Nodup
  params : ∀ param ∈ proto.params, IsName param
  function : proto.kind = .none → IsName proto.name
  prefixOp : proto.kind = .prefixOp → ∃ symbol, proto.operator? = some symbol ∧ IsOperator symbol ∧
    proto.name = unaryName symbol ∧ proto.params.length = 1
  infixOp : proto.kind = .infixOp → ∃ symbol, proto.operator? = some symbol ∧ IsOperator symbol ∧
    proto.name = binaryName symbol ∧ proto.params.length = 2 ∧
    minPrecedence ≤ proto.precedence ∧ proto.precedence ≤ maxPrecedence

/-- What is at a node of an expression can be spelled, and a binary operator is one of the table. -/
def Label.WellFormed (table : OperatorTable) : Label → Prop
  | .number value => value.IsMagnitude
  | .var name | .forIn name _ | .call name _ => IsName name
  | .unary symbol => IsOperator symbol ∧ symbol ≠ '(' ∧ symbol ≠ ','
  | .binary symbol => IsOperator symbol ∧ 0 ≤ table.precedence (.char symbol)
  | .ifElse => True
  | .varIn bindings => bindings ≠ [] ∧ ∀ binding ∈ bindings, IsName binding.1
  | .prototype _ | .function => False

def Expr.WellFormed (table : OperatorTable) (expr : Expr) : Prop := ∀ label ∈ trace expr, label.WellFormed table

/-- Under the given operators the form may stand in a source. -/
def Form.WellFormed (table : OperatorTable) : Form → Prop
  | .definition function => function.proto.WellFormed ∧ function.body.WellFormed table
  | .external proto => proto.WellFormed
  | .expression function =>
    function.proto = { name := anonymousName, params := [] } ∧ function.body.WellFormed table

/-! ## Spelled tokens -/

theorem Binary64.isMagnitude_of_ofDigits? {run : List Char} {value : Binary64}
    (read : ofDigits? run = some value) : value.IsMagnitude := by
  obtain ⟨decimal, _, rfl⟩ := Option.map_eq_some_iff.mp read
  simp only [Decimal.toBinary64, ofRatio, ofRank]
  split <;> rfl

theorem Token.Spelled.isName {name : String} (spelled : (Token.ident name).Spelled) : IsName name :=
  spelled.elim fun _ named => named.2

theorem Token.Spelled.isMagnitude {value : Binary64} (spelled : (Token.number value).Spelled) :
    value.IsMagnitude :=
  spelled.elim fun _ digits => Binary64.isMagnitude_of_ofDigits? digits

/-- Among the ASCII characters the numerals are the digits. -/
theorem isNumeric_eq_isDigit {c : Char} (ascii : c.toNat < 128) : isNumeric c = c.isDigit := by
  have digit := @Char.isDigit_iff_toNat c
  simp only [Char.reduceToNat] at digit
  rw [isNumeric, numericRanges, inRanges, inRanges, Bool.eq_iff_iff, digit]
  -- The digits are the first range, and the second one starts beyond ASCII.
  split
  · next below =>
    simp only [Bool.false_eq_true, false_iff]
    omega
  · split
    · next inside =>
      simp only [true_iff]
      omega
    · next above =>
      rw [if_pos (by omega)]
      simp only [Bool.false_eq_true, false_iff]
      omega

/-- No word contains an operator. -/
theorem IsOperator.not_isWordChar {symbol : Char} (operator : IsOperator symbol) : isWordChar symbol = false := by
  have noDigit := operator.notNumber
  rw [isNumberChar, Bool.or_eq_false_iff] at noDigit
  rw [isWordChar, operator.notAlphabetic, isNumeric_eq_isDigit operator.ascii, noDigit.1, Bool.or_self]

theorem getLast?_unaryName (symbol : Char) : (unaryName symbol).toList.getLast? = some symbol := by
  simp [unaryName]

/-! ## Expressions -/

namespace Phrase

/-- What stands in a source as the phrase has the property. -/
def Yields {α : Type} (property : α → Prop) (phrase : Phrase α) : Prop :=
  ∀ tokens value next, phrase tokens value next → (∀ token ∈ tokens, token.Spelled) → property value

section Lists

variable {α : Type} {property : α → Prop} {item : Phrase α} (yields : Yields property item)

include yields

theorem Yields.announced (mark : Char) : Yields property (Announced mark item) := by
  rintro _ _ _ ⟨body⟩ spelled
  exact yields _ _ _ body (List.forall_mem_cons.mp spelled).2

theorem Yields.repeated (ends : Token → Prop) :
    Yields (fun values => ∀ value ∈ values, property value) (Repeated item ends) := by
  intro tokens values next items spelled
  induction items with
  | nil => exact List.forall_mem_nil _
  | cons first _ ih =>
    obtain ⟨here, later⟩ := List.forall_mem_append.mp spelled
    exact List.forall_mem_cons.mpr ⟨yields _ _ _ first here, ih later⟩

theorem Yields.optional (mark : Char) :
    Yields (fun value? => ∀ value ∈ value?, property value) (Optional mark item) := by
  rintro _ _ _ (⟨_⟩ | ⟨body⟩) spelled value member
  · cases member
  · cases member
    exact yields.announced mark _ _ _ body spelled

theorem Yields.separated :
    Yields (fun values => values ≠ [] ∧ ∀ value ∈ values, property value) (Separated item) := by
  rintro _ _ _ ⟨first, others⟩ spelled
  obtain ⟨here, later⟩ := List.forall_mem_append.mp spelled
  refine ⟨List.cons_ne_nil _ _, List.forall_mem_cons.mpr ⟨yields _ _ _ first here, ?_⟩⟩
  exact (yields.announced ',').repeated _ _ _ _ others later

end Lists

end Phrase

/-- The nodes of a chain are those of its operands, with an operator for each link. -/
theorem Splits.wellFormed {table : OperatorTable} {first tree : Expr} {links : List Link}
    (shape : Splits first links tree) (head : first.WellFormed table)
    (tail : ∀ link ∈ links, (Label.binary link.symbol).WellFormed table ∧ link.operand.WellFormed table) :
    tree.WellFormed table := by
  induction shape with
  | operand => exact head
  | root _ _ _ _ left right =>
    obtain ⟨before, here, after⟩ := List.forall_mem_append.mp tail |>.imp_right List.forall_mem_cons.mp
    simp only [Expr.WellFormed, Expr.trace_binary, List.forall_mem_cons, List.forall_mem_append]
    exact ⟨here.1, left head before, right here.2 after⟩

namespace Phrase

variable {table : OperatorTable} {operand : Phrase Expr}

theorem Yields.expression (yields : Yields (Expr.WellFormed table) operand) :
    Yields (Expr.WellFormed table) (Expression table operand) := by
  have link : Yields (fun link => (Label.binary link.symbol).WellFormed table ∧ link.operand.WellFormed table)
      (Link table operand) := by
    rintro _ _ _ ⟨isInfix, rhs⟩ spelled
    obtain ⟨here, later⟩ := List.forall_mem_cons.mp spelled
    obtain ⟨_, same, ascii, _⟩ := id isInfix
    cases same
    obtain ⟨same, notNegative⟩ := OperatorTable.infix_iff.mp isInfix
    exact ⟨⟨⟨here.isPunctuation, ascii⟩, same ▸ notNegative⟩, yields _ _ _ rhs later⟩
  rintro _ _ _ ⟨head, tail, shape⟩ spelled
  obtain ⟨here, later⟩ := List.forall_mem_append.mp spelled
  exact shape.wellFormed (yields _ _ _ head here) (link.repeated _ _ _ _ tail later)

theorem Yields.binding (yields : Yields (Expr.WellFormed table) operand) :
    Yields (fun binding => IsName binding.1 ∧ ∀ init ∈ binding.2, init.WellFormed table)
      (Binding table operand) := by
  rintro _ _ _ ⟨start⟩ spelled
  obtain ⟨here, later⟩ := List.forall_mem_cons.mp spelled
  exact ⟨here.isName, yields.expression.optional '=' _ _ _ start later⟩

theorem Yields.primary (yields : Yields (Expr.WellFormed table) operand) :
    Yields (Expr.WellFormed table) (Primary table operand) := by
  have expression := yields.expression
  intro tokens expr next primary spelled
  cases primary with
  | number =>
    simp only [Expr.WellFormed, Expr.trace_number, List.forall_mem_singleton]
    exact (spelled _ (List.mem_cons_self ..)).isMagnitude
  | var =>
    simp only [Expr.WellFormed, Expr.trace_var, List.forall_mem_singleton]
    exact (spelled _ (List.mem_cons_self ..)).isName
  | @call name _ args _ list =>
    simp only [List.forall_mem_cons, List.forall_mem_append] at spelled
    obtain ⟨here, _, inside, _⟩ := spelled
    have each : ∀ arg ∈ args, arg.WellFormed table := by
      cases list with
      | empty => exact List.forall_mem_nil _
      | some _ list => exact (expression.separated _ _ _ list inside).2
    simp only [Expr.WellFormed, Expr.trace_call, List.forall_mem_cons, List.forall_mem_flatMap]
    exact ⟨here.isName, each⟩
  | parenthesized body =>
    simp only [List.forall_mem_cons, List.forall_mem_append] at spelled
    exact expression _ _ _ body spelled.2.1
  | ifElse test positive negative =>
    simp only [List.forall_mem_cons, List.forall_mem_append] at spelled
    obtain ⟨_, inTest, _, inPositive, _, inNegative⟩ := spelled
    simp only [Expr.WellFormed, Expr.trace_ifElse, List.forall_mem_cons, List.forall_mem_append]
    exact ⟨trivial, ⟨expression _ _ _ test inTest, expression _ _ _ positive inPositive⟩,
      expression _ _ _ negative inNegative⟩
  | forIn first last stride body =>
    simp only [List.forall_mem_cons, List.forall_mem_append] at spelled
    obtain ⟨_, here, _, inFirst, _, inLast, inStride, _, inBody⟩ := spelled
    simp only [Expr.WellFormed, Expr.trace_forIn, List.forall_mem_cons, List.forall_mem_append,
      Expr.mem_traceOfOption, forall_exists_index, and_imp]
    exact ⟨here.isName, ⟨⟨expression _ _ _ first inFirst, expression _ _ _ last inLast⟩,
      fun label amount some member => expression.optional ',' _ _ _ stride inStride amount some label member⟩,
      expression _ _ _ body inBody⟩
  | varIn list body =>
    simp only [List.forall_mem_cons, List.forall_mem_append] at spelled
    obtain ⟨_, inList, _, inBody⟩ := spelled
    obtain ⟨nonempty, each⟩ := yields.binding.separated _ _ _ list inList
    simp only [Expr.WellFormed, Expr.trace_varIn, List.forall_mem_cons, List.forall_mem_append,
      List.forall_mem_flatMap, Expr.mem_traceOfOption, forall_exists_index, and_imp]
    refine ⟨⟨?_, ?_⟩, fun binding member label init some => (each binding member).2 init some label,
      expression _ _ _ body inBody⟩
    · simpa using nonempty
    · simp only [List.forall_mem_map]
      exact fun binding member => (each binding member).1

theorem Operand.yields (table : OperatorTable) (levels : Nat) :
    Yields (Expr.WellFormed table) (Operand table levels) := by
  induction levels with
  | zero => exact fun _ _ _ => False.elim
  | succ levels ih =>
    rintro _ _ _ (⟨ascii, notParenthesis, notComma, body⟩ | ⟨primary⟩) spelled
    · obtain ⟨here, later⟩ := List.forall_mem_cons.mp spelled
      simp only [Expr.WellFormed, Expr.trace_unary, List.forall_mem_cons]
      exact ⟨⟨⟨here.isPunctuation, ascii⟩, notParenthesis, notComma⟩, ih _ _ _ body later⟩
    · exact ih.primary _ _ _ primary spelled

/-! ## Forms -/

theorem Signature.wellFormed {tokens : List Token} {proto : Prototype} (signature : Signature tokens proto)
    (spelled : ∀ token ∈ tokens, token.Spelled) : proto.WellFormed := by
  obtain ⟨heading, distinct, one, two⟩ := signature
  simp only [List.forall_mem_append, List.forall_mem_cons, List.forall_mem_map] at spelled
  obtain ⟨inHeading, _, inParams, _⟩ := spelled
  refine ⟨distinct, fun param member => (inParams param member).isName, ?_, ?_, ?_⟩
  · rintro rfl
    cases heading with
    | function => exact (inHeading _ (List.mem_cons_self ..)).isName
  · rintro rfl
    cases heading with
    | prefixOp ascii =>
      have here := (List.forall_mem_cons.mp (List.forall_mem_cons.mp inHeading).2).1
      exact ⟨_, getLast?_unaryName _, ⟨here.isPunctuation, ascii⟩, rfl, one rfl⟩
  · rintro rfl
    obtain ⟨symbol, rfl, member, ascii⟩ := heading.infixOp_name
    exact ⟨symbol, getLast?_binaryName symbol, ⟨(inHeading _ member).isPunctuation, ascii⟩, rfl, two rfl,
      heading.bounds⟩

theorem OfForm.yields (table : OperatorTable) : Yields (Form.WellFormed table) (OfForm table) := by
  have body : Yields (Expr.WellFormed table) (Body table) := (Operand.yields table _).expression
  intro tokens form next phrase spelled
  cases phrase with
  | definition signature inner =>
    simp only [List.forall_mem_cons, List.forall_mem_append] at spelled
    exact ⟨signature.wellFormed spelled.2.1, body _ _ _ inner spelled.2.2⟩
  | external signature => exact signature.wellFormed (List.forall_mem_cons.mp spelled).2
  | expression _ inner => exact ⟨rfl, body _ _ _ inner spelled⟩

end Phrase

theorem Form.WrittenUnder.wellFormed {table : OperatorTable} {form : Form} (written : form.WrittenUnder table) :
    form.WellFormed table := by
  obtain ⟨tokens, next, phrase, spelled⟩ := written
  exact Phrase.OfForm.yields table _ _ _ phrase spelled

/-- What a form makes known is well formed under any operators. -/
theorem Form.WellFormed.prototype {table : OperatorTable} {form : Form} {proto : Prototype}
    (wellFormed : form.WellFormed table) (known : form.prototype? = some proto) : proto.WellFormed := by
  cases form with
  | definition => exact Option.some.inj known ▸ wellFormed.1
  | external => exact Option.some.inj known ▸ wellFormed
  | expression => cases known

/-! ## Names of functions -/

theorem IsName.isWordChar_of_mem {name : String} (isName : IsName name) {c : Char} (member : c ∈ name.toList) :
    isWordChar c = true := by
  obtain ⟨first, more, whole, letter, wordChars, _⟩ := isName
  rw [whole] at member
  rcases List.mem_cons.mp member with rfl | member
  · simp [isWordChar, letter]
  · exact wordChars c member

theorem IsName.ne_unaryName {name : String} (isName : IsName name) {symbol : Char} (operator : IsOperator symbol) :
    name ≠ unaryName symbol := by
  rintro rfl
  have inside := isName.isWordChar_of_mem (c := symbol) (by simp [unaryName])
  rw [operator.not_isWordChar] at inside
  cases inside

theorem IsName.ne_binaryName {name : String} (isName : IsName name) {symbol : Char}
    (operator : IsOperator symbol) : name ≠ binaryName symbol := by
  rintro rfl
  have inside := isName.isWordChar_of_mem (c := symbol) (by simp [binaryName])
  rw [operator.not_isWordChar] at inside
  cases inside

theorem unaryName_ne_binaryName (first second : Char) : unaryName first ≠ binaryName second := by
  intro same
  have lengths := congrArg (fun name => name.toList.length) same
  simp [unaryName, binaryName] at lengths

theorem IsName.ne_anonymousName {name : String} (isName : IsName name) : name ≠ anonymousName := by
  rintro rfl
  have inside := isName.isWordChar_of_mem (c := '_') (by decide)
  exact absurd inside (by decide)

namespace Prototype.WellFormed

variable {proto other : Prototype}

theorem name_ne_anonymousName (wellFormed : proto.WellFormed) : proto.name ≠ anonymousName := by
  cases kind : proto.kind with
  | none => exact (wellFormed.function kind).ne_anonymousName
  | prefixOp =>
    obtain ⟨symbol, _, _, named, _⟩ := wellFormed.prefixOp kind
    intro same
    have last := congrArg (fun name => name.toList.head?) (named.symm.trans same)
    simp [unaryName, anonymousName] at last
  | infixOp =>
    obtain ⟨symbol, _, _, named, _⟩ := wellFormed.infixOp kind
    intro same
    have last := congrArg (fun name => name.toList.head?) (named.symm.trans same)
    simp [binaryName, anonymousName] at last

theorem kind_eq_none_iff (wellFormed : proto.WellFormed) : proto.kind = .none ↔ IsName proto.name := by
  refine ⟨wellFormed.function, fun isName => ?_⟩
  cases kind : proto.kind with
  | none => rfl
  | prefixOp =>
    obtain ⟨_, _, operator, named, _⟩ := wellFormed.prefixOp kind
    exact (isName.ne_unaryName operator named).elim
  | infixOp =>
    obtain ⟨_, _, operator, named, _⟩ := wellFormed.infixOp kind
    exact (isName.ne_binaryName operator named).elim

theorem kind_eq_prefixOp_iff (wellFormed : proto.WellFormed) :
    proto.kind = .prefixOp ↔ ∃ symbol, IsOperator symbol ∧ proto.name = unaryName symbol := by
  constructor
  · intro kind
    obtain ⟨symbol, _, operator, named, _⟩ := wellFormed.prefixOp kind
    exact ⟨symbol, operator, named⟩
  · rintro ⟨symbol, operator, named⟩
    cases kind : proto.kind with
    | none => exact ((wellFormed.function kind).ne_unaryName operator named).elim
    | prefixOp => rfl
    | infixOp =>
      obtain ⟨other, _, _, otherNamed, _⟩ := wellFormed.infixOp kind
      exact (unaryName_ne_binaryName symbol other (named.symm.trans otherNamed)).elim

theorem kind_eq_infixOp_iff (wellFormed : proto.WellFormed) :
    proto.kind = .infixOp ↔ ∃ symbol, IsOperator symbol ∧ proto.name = binaryName symbol := by
  constructor
  · intro kind
    obtain ⟨symbol, _, operator, named, _⟩ := wellFormed.infixOp kind
    exact ⟨symbol, operator, named⟩
  · rintro ⟨symbol, operator, named⟩
    cases kind : proto.kind with
    | none => exact ((wellFormed.function kind).ne_binaryName operator named).elim
    | prefixOp =>
      obtain ⟨other, _, _, otherNamed, _⟩ := wellFormed.prefixOp kind
      exact (unaryName_ne_binaryName other symbol (otherNamed.symm.trans named)).elim
    | infixOp => rfl

/-- The name tells whether a function is an operator, and which one. -/
theorem kind_and_operator_of_name_eq (wellFormed : proto.WellFormed) (otherWellFormed : other.WellFormed)
    (same : proto.name = other.name) : proto.kind = other.kind ∧ proto.operator? = other.operator? := by
  have kinds : proto.kind = other.kind := by
    cases kind : other.kind with
    | none => exact wellFormed.kind_eq_none_iff.mpr (same ▸ otherWellFormed.kind_eq_none_iff.mp kind)
    | prefixOp => exact wellFormed.kind_eq_prefixOp_iff.mpr (same ▸ otherWellFormed.kind_eq_prefixOp_iff.mp kind)
    | infixOp => exact wellFormed.kind_eq_infixOp_iff.mpr (same ▸ otherWellFormed.kind_eq_infixOp_iff.mp kind)
  exact ⟨kinds, by rw [operator?, operator?, kinds, same]⟩

/-- An operator of one kind has one name. -/
theorem name_eq_of_operator_eq (wellFormed : proto.WellFormed) (otherWellFormed : other.WellFormed)
    (isOperator : proto.kind ≠ .none) (kinds : proto.kind = other.kind)
    (operators : proto.operator? = other.operator?) : proto.name = other.name := by
  cases kind : proto.kind with
  | none => exact (isOperator kind).elim
  | prefixOp =>
    obtain ⟨symbol, is, _, named, _⟩ := wellFormed.prefixOp kind
    obtain ⟨_, isToo, _, otherNamed, _⟩ := otherWellFormed.prefixOp (kinds ▸ kind)
    rw [is, isToo, Option.some.injEq] at operators
    rw [named, otherNamed, operators]
  | infixOp =>
    obtain ⟨symbol, is, _, named, _⟩ := wellFormed.infixOp kind
    obtain ⟨_, isToo, _, otherNamed, _⟩ := otherWellFormed.infixOp (kinds ▸ kind)
    rw [is, isToo, Option.some.injEq] at operators
    rw [named, otherNamed, operators]

end Prototype.WellFormed

/-- Every form that is delivered is well formed under the operators in force when it was read, which are those of the
initial table and of the forms before it. Two functions that sources make known have the same name only if they are
of the same kind and, as operators, the same character; none has the name of a top-level expression. -/
theorem parse_forms_wellFormed (table : OperatorTable) (source : String) :
    (∀ before form after, (parse table source).forms = before ++ form :: after →
      form.WellFormed (table.record before)) ∧
    ∀ otherTable other, ∀ form ∈ (parse table source).forms, ∀ otherForm ∈ (parse otherTable other).forms,
      ∀ proto otherProto, form.prototype? = some proto → otherForm.prototype? = some otherProto →
        (proto.name = otherProto.name → proto.kind = otherProto.kind ∧ proto.operator? = otherProto.operator?) ∧
        (proto.kind ≠ .none → proto.kind = otherProto.kind → proto.operator? = otherProto.operator? →
          proto.name = otherProto.name) ∧
        proto.name ≠ anonymousName := by
  have wellFormed (table : OperatorTable) (source : String) : ∀ before form after,
      (parse table source).forms = before ++ form :: after → form.WellFormed (table.record before) := by
    intro before form after split
    have written := (parse_in_turn table source).2.2
    rw [split] at written
    exact written.under.wellFormed
  have known (table : OperatorTable) (source : String) : ∀ form ∈ (parse table source).forms,
      ∀ proto, form.prototype? = some proto → proto.WellFormed := by
    intro form member proto known
    obtain ⟨before, after, split⟩ := List.append_of_mem member
    exact (wellFormed table source before form after split).prototype known
  refine ⟨wellFormed table source, ?_⟩
  intro otherTable other form member otherForm otherMember proto otherProto isKnown otherIsKnown
  have here := known table source form member proto isKnown
  have there := known otherTable other otherForm otherMember otherProto otherIsKnown
  exact ⟨here.kind_and_operator_of_name_eq there, here.name_eq_of_operator_eq there, here.name_ne_anonymousName⟩

/-- Behind a form that fails, the operator that an earlier definition declared is in force. -/
theorem parse_forms_wellFormed_or :
    (Form.expression (.anonymous (.binary '|' (.var "x") (.unary '!' (.var "y"))))).WellFormed
        (OperatorTable.standard.declare '|' 5) ∧
      "binary|" ≠ anonymousName := by
  have forms : (parse .standard "def binary | 5 (a b) a; def f(; x | !y").forms =
      [.definition ⟨⟨"binary|", ["a", "b"], .infixOp, 5⟩, .var "a"⟩] ++
        .expression (.anonymous (.binary '|' (.var "x") (.unary '!' (.var "y")))) :: [] := by decide +kernel
  obtain ⟨wellFormed, names⟩ := parse_forms_wellFormed .standard "def binary | 5 (a b) a; def f(; x | !y"
  have member : .definition ⟨⟨"binary|", ["a", "b"], .infixOp, 5⟩, .var "a"⟩ ∈
      (parse .standard "def binary | 5 (a b) a; def f(; x | !y").forms := forms ▸ List.mem_cons_self ..
  refine ⟨wellFormed _ _ _ forms, ?_⟩
  exact (names _ _ _ member _ member _ _ rfl rfl).2.2

end OpLang

import OpLang.Proofs.ProgramExact

/-! # Operator tables as records

What a table gains from a source is a record of the complete forms that declare infix operators. Their
prototypes are bounded by the grammar: the name ends in the operator, which is an ASCII character that can
be spelled, and the precedence lies in the range that programs may declare. None of these is negative, so an
operator may be declared again but is never withdrawn.
-/

namespace OpLang

/-- An operator that a program may declare, with its precedence. -/
structure IsDeclaration (entry : Char × Int) : Prop where
  operator : IsOperator entry.1
  least : minPrecedence ≤ entry.2
  most : entry.2 ≤ maxPrecedence

/-! ## What prototypes declare -/

theorem getLast?_binaryName (symbol : Char) : (binaryName symbol).toList.getLast? = some symbol := by
  simp [binaryName]

/-- A number that declares a precedence lies in the range of precedences, and so does its whole part. -/
theorem Phrase.DeclaresPrecedence.bounds {value : Binary64} {precedence : Int}
    (declared : DeclaresPrecedence value precedence) :
    minPrecedence ≤ precedence ∧ precedence ≤ maxPrecedence := by
  obtain ⟨rank, _, least, most, below, above⟩ := declared
  constructor
  · have low : minPrecedence < precedence + 1 :=
      Int.lt_of_mul_lt_mul_right (Int.lt_of_le_of_lt least above) (Int.natCast_nonneg _)
    omega
  · exact Int.le_of_mul_le_mul_right (Int.le_trans below most) Binary64.unitsPerOne_pos

theorem Phrase.Heading.bounds {tokens : List Token} {name : String} {kind : OperatorKind} {precedence : Int}
    (heading : Heading tokens name kind precedence) :
    minPrecedence ≤ precedence ∧ precedence ≤ maxPrecedence := by
  cases heading with
  | infixWith _ declared => exact declared.bounds
  | _ => decide

/-- The operator of an infix prototype follows the word `binary`, and its name is made of the two. -/
theorem Phrase.Heading.infixOp_name {tokens : List Token} {name : String} {precedence : Int}
    (heading : Heading tokens name .infixOp precedence) :
    ∃ symbol, name = binaryName symbol ∧ .char symbol ∈ tokens ∧ symbol.toNat < 128 := by
  cases heading with
  | infixOp ascii => exact ⟨_, rfl, by simp, ascii⟩
  | infixWith ascii _ => exact ⟨_, rfl, by simp, ascii⟩

/-- A form that makes a prototype known contains its signature. -/
theorem Phrase.OfForm.signature {table : OperatorTable} {tokens : List Token} {form : Form} {next : Token}
    {proto : Prototype} (phrase : OfForm table tokens form next) (known : form.prototype? = some proto) :
    ∃ part, Signature part proto ∧ ∀ token ∈ part, token ∈ tokens := by
  cases phrase with
  | definition signature inner =>
    obtain rfl := Option.some.inj known
    exact ⟨_, signature, fun token member => List.mem_cons_of_mem _ (List.mem_append_left _ member)⟩
  | external signature =>
    obtain rfl := Option.some.inj known
    exact ⟨_, signature, fun token member => List.mem_cons_of_mem _ member⟩
  | expression => cases known

/-- No precedence is declared that lies outside the range. -/
theorem Phrase.OfForm.operator?_bounds {table : OperatorTable} {tokens : List Token} {form : Form}
    {next : Token} {entry : Char × Int} (phrase : OfForm table tokens form next)
    (declared : form.operator? = some entry) :
    minPrecedence ≤ entry.2 ∧ entry.2 ≤ maxPrecedence := by
  obtain ⟨proto, known, _, _, same⟩ := (form.operator?_eq_some_iff entry).mp declared
  obtain ⟨_, ⟨heading, _, _, _⟩, _⟩ := phrase.signature known
  exact same ▸ heading.bounds

/-- An infix prototype of a form that stands in a source declares the operator after which it is named. -/
theorem Form.Written.declares {form : Form} {proto : Prototype} (written : form.Written)
    (known : form.prototype? = some proto) (isInfix : proto.kind = .infixOp) :
    ∃ symbol, proto.name = binaryName symbol ∧ form.operator? = some (symbol, proto.precedence) ∧
      IsDeclaration (symbol, proto.precedence) := by
  obtain ⟨table, tokens, next, phrase, spelled⟩ := written
  obtain ⟨_, signature, within⟩ := phrase.signature known
  obtain ⟨heading, _, _, _⟩ := signature
  cases isInfix
  obtain ⟨symbol, rfl, member, ascii⟩ := heading.infixOp_name
  have punctuation := (spelled _ (within _ (List.mem_append_left _ member))).isPunctuation
  have declared : form.operator? = some (symbol, _) :=
    (form.operator?_eq_some_iff _).mpr ⟨_, known, rfl, getLast?_binaryName symbol, rfl⟩
  exact ⟨symbol, rfl, declared, ⟨punctuation, ascii⟩, heading.bounds.1, heading.bounds.2⟩

theorem Form.Written.isDeclaration {form : Form} {entry : Char × Int} (written : form.Written)
    (declared : form.operator? = some entry) : IsDeclaration entry := by
  obtain ⟨proto, known, isInfix, _, _⟩ := (form.operator?_eq_some_iff entry).mp declared
  obtain ⟨symbol, _, same, isDeclaration⟩ := written.declares known isInfix
  exact Option.some.inj (same.symm.trans declared) ▸ isDeclaration

/-! ## Records -/

namespace OperatorTable

theorem mem_of_lookup_reverse {operators : List (Char × Int)} {symbol : Char} {precedence : Int}
    (found : operators.reverse.lookup symbol = some precedence) : (symbol, precedence) ∈ operators := by
  obtain ⟨before, after, split, _⟩ := List.lookup_eq_some_iff.mp found
  rw [← List.mem_reverse, split]
  exact List.mem_append_right _ (List.mem_cons_self ..)

/-- An operator may be declared again, but it never stops being one. -/
theorem Infix.declareAll {table : OperatorTable} {operators : List (Char × Int)} {token : Token}
    {precedence : Int} (isInfix : table.Infix token precedence)
    (bounded : ∀ entry ∈ operators, minPrecedence ≤ entry.2) :
    ∃ later, (table.declareAll operators).Infix token later := by
  obtain ⟨symbol, rfl, ascii, declared, least⟩ := isInfix
  cases found : operators.reverse.lookup symbol with
  | none => exact ⟨precedence, symbol, rfl, ascii, by rw [precedence?_declareAll, found, declared]; rfl, least⟩
  | some later =>
    have bound := bounded _ (mem_of_lookup_reverse found)
    refine ⟨later, symbol, rfl, ascii, by rw [precedence?_declareAll, found]; rfl, ?_⟩
    exact Int.le_trans (by decide) bound

end OperatorTable

/-- After a source an operator has the precedence that the last of the delivered forms to declare it gives it,
and the initial one if none declares it. What a form declares is the last character of the name of its infix
prototype, with the precedence of the prototype; these are ASCII operators and precedences from one to a hundred. -/
theorem parse_table_eq_record (table : OperatorTable) (source : String) :
    (∀ symbol, (parse table source).table.precedence? symbol =
        (((parse table source).forms.filterMap Form.operator?).reverse.lookup symbol).or
          (table.precedence? symbol)) ∧
      (∀ (form : Form) (entry : Char × Int), form.operator? = some entry ↔ ∃ proto, form.prototype? = some proto ∧
        proto.kind = .infixOp ∧ proto.name.toList.getLast? = some entry.1 ∧ proto.precedence = entry.2) ∧
      (∀ form ∈ (parse table source).forms, ∀ proto, form.prototype? = some proto → proto.kind = .infixOp →
        ∃ symbol, proto.name.toList.getLast? = some symbol ∧
          form.operator? = some (symbol, proto.precedence)) ∧
      ∀ entry ∈ (parse table source).forms.filterMap Form.operator?, IsDeclaration entry := by
  obtain ⟨recorded, _, written⟩ := parse_record table source
  refine ⟨fun symbol => ?_, Form.operator?_eq_some_iff, fun form delivered proto known isInfix => ?_,
    fun entry member => ?_⟩
  · rw [recorded, OperatorTable.precedence?_record]
  · obtain ⟨symbol, named, declared, _⟩ := (written form delivered).declares known isInfix
    exact ⟨symbol, named ▸ getLast?_binaryName symbol, declared⟩
  · obtain ⟨form, delivered, declared⟩ := List.mem_filterMap.mp member
    exact (written form delivered).isDeclaration declared

/-- Of two operators, one of which asks for too great a precedence, the table gains the other. What it says of an
operator that is declared twice is what was said last. -/
theorem parse_table_eq_record_or :
    let source := "def binary | 7 (a b) a; def binary & 200 (a b) b; extern binary | 5 (a b)"
    (parse .standard source).table.precedence? '|' = some 5 ∧
      (parse .standard source).table.precedence? '&' = none ∧
      (parse .standard source).table.precedence? '+' = some 20 ∧
      IsDeclaration ('|', 7) ∧ IsDeclaration ('|', 5) := by
  intro source
  obtain ⟨lookup, _, _, bounded⟩ := parse_table_eq_record .standard source
  have operators : (parse .standard source).forms.filterMap Form.operator? = [('|', 7), ('|', 5)] := by
    decide +kernel
  rw [operators] at bounded
  have first : IsDeclaration ('|', 7) := bounded _ (List.mem_cons_self ..)
  have second : IsDeclaration ('|', 5) := bounded _ (List.mem_cons_of_mem _ (List.mem_singleton_self _))
  refine ⟨?_, ?_, ?_, first, second⟩
  all_goals
    rw [lookup, operators]
    decide

end OpLang

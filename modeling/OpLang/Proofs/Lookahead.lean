import OpLang.Proofs.Phrase

/-! # What phrases begin with, contain and end at

A phrase begins with a token of its own, never contains the end of input, and accepts every token after it
that neither continues a chain nor opens the arguments of a call.
-/

namespace OpLang

/-! ## First tokens -/

/-- The kind of form that a token announces. -/
def FormKind.announcedBy : Token → FormKind
  | .keyword .defWord => .definition
  | .keyword .externWord => .external
  | _ => .expression

theorem FormKind.announcedBy_eq_definition {token : Token} (announced : announcedBy token = .definition) :
    token = .keyword .defWord := by
  cases token with
  | keyword word => cases word <;> first | rfl | cases announced
  | _ => cases announced

theorem FormKind.announcedBy_eq_external {token : Token} (announced : announcedBy token = .external) :
    token = .keyword .externWord := by
  cases token with
  | keyword word => cases word <;> first | rfl | cases announced
  | _ => cases announced

namespace Phrase

/-- A primary begins with a token of its own, which announces neither the end nor another kind of form. -/
private theorem Primary.exists_cons {table : OperatorTable} {operand : Phrase Expr} {tokens : List Token}
    {expr : Expr} {next : Token} (primary : Primary table operand tokens expr next) :
    ∃ token later, tokens = token :: later ∧ token ≠ .endOfInput ∧ FormKind.announcedBy token = .expression := by
  cases primary <;> exact ⟨_, _, rfl, Token.noConfusion, rfl⟩

theorem Operand.exists_cons {table : OperatorTable} {levels : Nat} {tokens : List Token} {expr : Expr}
    {next : Token} (operand : Operand table levels tokens expr next) :
    ∃ token later, tokens = token :: later ∧ token ≠ .endOfInput ∧ FormKind.announcedBy token = .expression := by
  cases levels with
  | zero => exact operand.elim
  | succ levels =>
    cases operand with
    | unary => exact ⟨_, _, rfl, Token.noConfusion, rfl⟩
    | primary primary => exact primary.exists_cons

theorem Body.exists_cons {table : OperatorTable} {tokens : List Token} {expr : Expr} {next : Token}
    (body : Body table tokens expr next) :
    ∃ token later, tokens = token :: later ∧ token ≠ .endOfInput ∧ FormKind.announcedBy token = .expression := by
  obtain ⟨head, _, _⟩ := body
  obtain ⟨token, later, rfl, inside, expression⟩ := head.exists_cons
  exact ⟨token, _, rfl, inside, expression⟩

theorem OfForm.exists_cons {table : OperatorTable} {tokens : List Token} {form : Form} {next : Token}
    (phrase : OfForm table tokens form next) :
    ∃ token later, tokens = token :: later ∧ token ≠ .endOfInput ∧ token ≠ .char ';' ∧
      FormKind.announcedBy token = form.kind := by
  cases phrase with
  | definition => exact ⟨_, _, rfl, Token.noConfusion, Token.noConfusion, rfl⟩
  | external => exact ⟨_, _, rfl, Token.noConfusion, Token.noConfusion, rfl⟩
  | expression notSeparator inner =>
    obtain ⟨token, later, rfl, inside, expression⟩ := inner.exists_cons
    exact ⟨token, later, rfl, inside, notSeparator, expression⟩

end Phrase

/-! ## Tokens inside -/

namespace Phrase

/-- No token of the phrase is the end of input. -/
def Inner {α : Type} (phrase : Phrase α) : Prop :=
  ∀ tokens value next, phrase tokens value next → .endOfInput ∉ tokens

variable {α : Type} {item : Phrase α}

theorem Inner.announced (inner : Inner item) (mark : Char) : Inner (Announced mark item) := by
  rintro _ _ _ ⟨body⟩
  simpa using inner _ _ _ body

theorem Inner.repeated (inner : Inner item) (ends : Token → Prop) : Inner (Repeated item ends) := by
  intro tokens values next items
  induction items with
  | nil => exact List.not_mem_nil
  | cons first _ ih => simpa using ⟨inner _ _ _ first, ih⟩

theorem Inner.optional (inner : Inner item) (mark : Char) : Inner (Optional mark item) := by
  rintro _ _ _ (⟨_⟩ | ⟨body⟩)
  · exact List.not_mem_nil
  · exact inner.announced mark _ _ _ body

theorem Inner.separated (inner : Inner item) : Inner (Separated item) := by
  rintro _ _ _ ⟨first, others⟩
  simpa using ⟨inner _ _ _ first, (inner.announced ',').repeated _ _ _ _ others⟩

variable {table : OperatorTable} {operand : Phrase Expr}

theorem Inner.expression (inner : Inner operand) : Inner (Expression table operand) := by
  have link : Inner (Link table operand) := by
    rintro _ _ _ ⟨_, rhs⟩
    simpa using inner _ _ _ rhs
  rintro _ _ _ ⟨head, tail, _⟩
  simpa using ⟨inner _ _ _ head, link.repeated _ _ _ _ tail⟩

theorem Inner.primary (inner : Inner operand) : Inner (Primary table operand) := by
  have expression : Inner (Expression table operand) := inner.expression
  have binding : Inner (Binding table operand) := by
    rintro _ _ _ ⟨start⟩
    simpa using expression.optional '=' _ _ _ start
  intro tokens expr next primary
  cases primary with
  | number => simp
  | var => simp
  | call list =>
    cases list with
    | empty => simp
    | some _ list => simpa using expression.separated _ _ _ list
  | parenthesized body => simpa using expression _ _ _ body
  | ifElse test positive negative =>
    simpa using ⟨expression _ _ _ test, expression _ _ _ positive, expression _ _ _ negative⟩
  | forIn first last stride body =>
    simpa using ⟨expression _ _ _ first, expression _ _ _ last, expression.optional ',' _ _ _ stride,
      expression _ _ _ body⟩
  | varIn list body => simpa using ⟨binding.separated _ _ _ list, expression _ _ _ body⟩

theorem Operand.inner (table : OperatorTable) (levels : Nat) : Inner (Operand table levels) := by
  induction levels with
  | zero => exact fun _ _ _ => False.elim
  | succ levels ih =>
    rintro _ _ _ (⟨_, _, _, body⟩ | ⟨primary⟩)
    · simpa using ih _ _ _ body
    · exact ih.primary _ _ _ primary

theorem Signature.endOfInput_not_mem {tokens : List Token} {proto : Prototype}
    (signature : Signature tokens proto) :
    .endOfInput ∉ tokens := by
  obtain ⟨heading, _, _, _⟩ := signature
  cases heading <;> simp

theorem OfForm.inner (table : OperatorTable) : Inner (OfForm table) := by
  have body : Inner (Body table) := (Operand.inner table _).expression
  intro tokens form next phrase
  cases phrase with
  | definition signature inner => simpa using ⟨signature.endOfInput_not_mem, body _ _ _ inner⟩
  | external signature => simpa using signature.endOfInput_not_mem
  | expression _ inner => exact body _ _ _ inner

theorem Program.inner (table : OperatorTable) : Inner (Program table) := by
  intro tokens forms next program
  induction program with
  | nil => exact List.not_mem_nil
  | separator _ ih => simpa using ih
  | form first _ ih => simpa using ⟨OfForm.inner _ _ _ _ first, ih⟩

end Phrase

/-! ## Tokens behind -/

namespace Phrase

/-- The token is neither an operator after which the chain goes on nor the parenthesis that makes a call. -/
structure Ends (table : OperatorTable) (next : Token) : Prop where
  noOperator : ∀ precedence, ¬ table.Infix next precedence
  noCall : next ≠ .char '('

/-- What may stand behind the phrase in one place may be replaced by any token that ends expressions. -/
def Free {α : Type} (table : OperatorTable) (phrase : Phrase α) : Prop :=
  ∀ tokens value next other, phrase tokens value next → Ends table other → phrase tokens value other

variable {table : OperatorTable} {operand : Phrase Expr}

/-- The replacement reaches an item only if nothing comes after it. -/
theorem Free.headD {α : Type} {phrase : Phrase α} (free : Free table phrase) {tokens later : List Token}
    {value : α} {next other : Token} (item : phrase tokens value (later.headD next)) (ends : Ends table other) :
    phrase tokens value (later.headD other) := by
  cases later with
  | nil => exact free _ _ _ _ item ends
  | cons => exact item

theorem Free.expression (free : Free table operand) : Free table (Expression table operand) := by
  have link : Free table (Link table operand) := by
    rintro _ _ _ _ ⟨operator, rhs⟩ ends
    exact .mk operator (free _ _ _ _ rhs ends)
  rintro _ _ next other ⟨head, tail, shape⟩ ends
  refine .chain (free.headD head ends) ?_ shape
  clear head shape
  induction tail with
  | nil => exact .nil ends.noOperator
  | cons first _ ih => exact .cons (link.headD first ends) ih

theorem Free.primary (free : Free table operand) : Free table (Primary table operand) := by
  have expression : Free table (Expression table operand) := free.expression
  intro tokens expr next other primary ends
  cases primary with
  | number => exact .number
  | var => exact .var ends.noCall
  | call list => exact .call list
  | parenthesized body => exact .parenthesized body
  | ifElse test positive negative => exact .ifElse test positive (expression _ _ _ _ negative ends)
  | forIn first last stride body => exact .forIn first last stride (expression _ _ _ _ body ends)
  | varIn list body => exact .varIn list (expression _ _ _ _ body ends)

theorem Operand.free (table : OperatorTable) (levels : Nat) : Free table (Operand table levels) := by
  induction levels with
  | zero => exact fun _ _ _ _ absurd => absurd.elim
  | succ levels ih =>
    rintro _ _ _ _ (⟨ascii, notParenthesis, notComma, body⟩ | ⟨primary⟩) ends
    · exact .unary ascii notParenthesis notComma (ih _ _ _ _ body ends)
    · exact .primary (ih.primary _ _ _ _ primary ends)

theorem OfForm.free (table : OperatorTable) : Free table (OfForm table) := by
  have body : Free table (Body table) := (Operand.free table _).expression
  intro tokens form next other phrase ends
  cases phrase with
  | definition signature inner => exact .definition signature (body _ _ _ _ inner ends)
  | external signature => exact .external signature
  | expression notSeparator inner =>
    obtain ⟨token, later, rfl, _⟩ := inner.exists_cons
    exact .expression notSeparator (body _ _ _ _ inner ends)

end Phrase

end OpLang

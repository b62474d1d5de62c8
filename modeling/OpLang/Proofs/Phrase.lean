import OpLang.Form
import OpLang.Grammar.Expression
import OpLang.Proofs.ChainShape

/-! # The grammar of programs

A *phrase* is a run of tokens that stands for a value when a given token comes after it. One token is all
that a phrase may depend on beyond itself, and it depends on that token only to know that it is complete:
a chain goes on as long as operators follow, and a name followed by a parenthesis is a call.

    program     ::= (';' | form)*
    form        ::= 'def' prototype expression | 'extern' prototype | expression
    prototype   ::= heading '(' name* ')'
    heading     ::= name | 'unary' operator | 'binary' operator number?
    expression  ::= operand (operator operand)*
    operand     ::= operator operand | primary
    primary     ::= number | name | name '(' arguments ')' | '(' expression ')'
                  | 'if' expression 'then' expression 'else' expression
                  | 'for' name '=' expression ',' expression (',' expression)? 'in' expression
                  | 'var' binding (',' binding)* 'in' expression
    binding     ::= name ('=' expression)?
    arguments   ::= (expression (',' expression)*)?
-/

namespace OpLang

/-- Which tokens stand for which values when a given token comes after them. -/
abbrev Phrase (α : Type) := List Token → α → Token → Prop

/-- The token continues a chain: it is an ASCII character of the given precedence, which is not negative. -/
def OperatorTable.Infix (table : OperatorTable) (token : Token) (precedence : Int) : Prop :=
  ∃ symbol, token = .char symbol ∧ symbol.toNat < 128 ∧ table.precedence? symbol = some precedence ∧
    0 ≤ precedence

namespace Phrase

variable {α : Type}

/-- Items one after the other up to a token that ends them. -/
inductive Repeated (item : Phrase α) (ends : Token → Prop) : Phrase (List α)
  | nil {next : Token} (stop : ends next) : Repeated item ends [] [] next
  | cons {tokens later : List Token} {value : α} {values : List α} {next : Token}
      (first : item tokens value (later.headD next)) (rest : Repeated item ends later values next) :
      Repeated item ends (tokens ++ later) (value :: values) next

/-- An item that the given character announces. -/
inductive Announced (mark : Char) (item : Phrase α) : Phrase α
  | mk {tokens : List Token} {value : α} {next : Token} (body : item tokens value next) :
      Announced mark item (.char mark :: tokens) value next

/-- An item that the given character announces, or nothing if another token comes. -/
inductive Optional (mark : Char) (item : Phrase α) : Phrase (Option α)
  | absent {next : Token} (stop : next ≠ .char mark) : Optional mark item [] none next
  | present {tokens : List Token} {value : α} {next : Token} (body : Announced mark item tokens value next) :
      Optional mark item tokens (some value) next

/-- One or more items with commas between them. -/
inductive Separated (item : Phrase α) : Phrase (List α)
  | mk {tokens later : List Token} {value : α} {values : List α} {next : Token}
      (first : item tokens value (later.headD next))
      (others : Repeated (Announced ',' item) (· ≠ .char ',') later values next) :
      Separated item (tokens ++ later) (value :: values) next

/-! ## Expressions -/

section Expressions

variable (table : OperatorTable) (operand : Phrase Expr)

/-- A binary operator with the operand after it. -/
inductive Link : Phrase OpLang.Link
  | mk {symbol : Char} {precedence : Int} {tokens : List Token} {expr : Expr} {next : Token}
      (operator : table.Infix (.char symbol) precedence) (rhs : operand tokens expr next) :
      Link (.char symbol :: tokens) ⟨symbol, precedence, expr⟩ next

/-- An operand with every operator that follows; precedence alone gives the tree. -/
inductive Expression : Phrase Expr
  | chain {tokens later : List Token} {first tree : Expr} {links : List OpLang.Link} {next : Token}
      (head : operand tokens first (later.headD next))
      (tail : Repeated (Link table operand) (fun token => ∀ precedence, ¬ table.Infix token precedence)
        later links next)
      (shape : Splits first links tree) : Expression (tokens ++ later) tree next

/-- Arguments up to the closing parenthesis. One that stands in front of them closes an empty list, and
is not the operator that begins the first argument. -/
inductive Arguments : Phrase (List Expr)
  | empty : Arguments [] [] (.char ')')
  | some {tokens : List Token} {args : List Expr} (notClosed : tokens.headD (.char ')') ≠ .char ')')
      (list : Separated (Expression table operand) tokens args (.char ')')) :
      Arguments tokens args (.char ')')

/-- A name that an initializer may follow. -/
inductive Binding : Phrase (String × Option Expr)
  | mk {name : String} {tokens : List Token} {init : Option Expr} {next : Token}
      (start : Optional '=' (Expression table operand) tokens init next) :
      Binding (.ident name :: tokens) (name, init) next

inductive Primary : Phrase Expr
  | number {value : Binary64} {next : Token} : Primary [.number value] (.number value) next
  | var {name : String} {next : Token} (noCall : next ≠ .char '(') : Primary [.ident name] (.var name) next
  | call {name : String} {tokens : List Token} {args : List Expr} {next : Token}
      (list : Arguments table operand tokens args (.char ')')) :
      Primary (.ident name :: .char '(' :: (tokens ++ [.char ')'])) (.call name args) next
  | parenthesized {tokens : List Token} {inner : Expr} {next : Token}
      (body : Expression table operand tokens inner (.char ')')) :
      Primary (.char '(' :: (tokens ++ [.char ')'])) inner next
  | ifElse {conditionTokens thenTokens elseTokens : List Token} {condition thenBranch elseBranch : Expr}
      {next : Token} (test : Expression table operand conditionTokens condition (.keyword .thenWord))
      (positive : Expression table operand thenTokens thenBranch (.keyword .elseWord))
      (negative : Expression table operand elseTokens elseBranch next) :
      Primary (.keyword .ifWord :: (conditionTokens ++ .keyword .thenWord ::
        (thenTokens ++ .keyword .elseWord :: elseTokens))) (.ifElse condition thenBranch elseBranch) next
  | forIn {name : String} {startTokens finishTokens stepTokens bodyTokens : List Token}
      {start finish body : Expr} {step : Option Expr} {next : Token}
      (first : Expression table operand startTokens start (.char ','))
      (last : Expression table operand finishTokens finish (stepTokens.headD (.keyword .inWord)))
      (stride : Optional ',' (Expression table operand) stepTokens step (.keyword .inWord))
      (inner : Expression table operand bodyTokens body next) :
      Primary (.keyword .forWord :: .ident name :: .char '=' :: (startTokens ++ .char ',' ::
        (finishTokens ++ (stepTokens ++ .keyword .inWord :: bodyTokens))))
        (.forIn name start finish step body) next
  | varIn {bindingTokens bodyTokens : List Token} {bindings : List (String × Option Expr)} {body : Expr}
      {next : Token} (list : Separated (Binding table operand) bindingTokens bindings (.keyword .inWord))
      (inner : Expression table operand bodyTokens body next) :
      Primary (.keyword .varWord :: (bindingTokens ++ .keyword .inWord :: bodyTokens))
        (.varIn bindings body) next

/-- Every ASCII character but the opening parenthesis and the comma is a prefix operator here. -/
inductive Prefixed : Phrase Expr
  | unary {symbol : Char} {tokens : List Token} {expr : Expr} {next : Token} (ascii : symbol.toNat < 128)
      (notParenthesis : symbol ≠ '(') (notComma : symbol ≠ ',') (body : operand tokens expr next) :
      Prefixed (.char symbol :: tokens) (.unary symbol expr) next
  | primary {tokens : List Token} {expr : Expr} {next : Token} (body : Primary table operand tokens expr next) :
      Prefixed tokens expr next

end Expressions

/-- An operand in which operands lie in each other at most down to the given number of levels. -/
def Operand (table : OperatorTable) : Nat → Phrase Expr
  | 0 => fun _ _ _ => False
  | levels + 1 => Prefixed table (Operand table levels)

/-- An expression as the forms of a program contain it. -/
abbrev Body (table : OperatorTable) : Phrase Expr := Expression table (Operand table Grammar.maxNesting)

/-! ## Forms -/

/-- A number from one to a hundred declares its whole part. -/
def DeclaresPrecedence (value : Binary64) (precedence : Int) : Prop :=
  ∃ rank, value = .finite false rank ∧
    minPrecedence * Binary64.unitsPerOne ≤ Binary64.units rank ∧
    Binary64.units rank ≤ maxPrecedence * Binary64.unitsPerOne ∧
    precedence * Binary64.unitsPerOne ≤ Binary64.units rank ∧
    Binary64.units rank < (precedence + 1) * Binary64.unitsPerOne

/-- What a prototype begins with: its name, and whether it declares an operator. -/
inductive Heading : List Token → String → OperatorKind → Int → Prop
  | function {name : String} : Heading [.ident name] name .none defaultPrecedence
  | prefixOp {symbol : Char} (ascii : symbol.toNat < 128) :
      Heading [.keyword .unaryWord, .char symbol] (unaryName symbol) .prefixOp defaultPrecedence
  | infixOp {symbol : Char} (ascii : symbol.toNat < 128) :
      Heading [.keyword .binaryWord, .char symbol] (binaryName symbol) .infixOp defaultPrecedence
  | infixWith {symbol : Char} {value : Binary64} {precedence : Int} (ascii : symbol.toNat < 128)
      (declared : DeclaresPrecedence value precedence) :
      Heading [.keyword .binaryWord, .char symbol, .number value] (binaryName symbol) .infixOp precedence

/-- The parameters are distinct, one for a prefix operator and two for an infix one. -/
inductive Signature : List Token → Prototype → Prop
  | mk {tokens : List Token} {name : String} {params : List String} {kind : OperatorKind} {precedence : Int}
      (heading : Heading tokens name kind precedence) (distinct : params.Nodup)
      (one : kind = .prefixOp → params.length = 1) (two : kind = .infixOp → params.length = 2) :
      Signature (tokens ++ .char '(' :: (params.map .ident ++ [.char ')'])) ⟨name, params, kind, precedence⟩

/-- A form under the operators declared before it. A semicolon in front is never its first operator. -/
inductive OfForm (table : OperatorTable) : Phrase Form
  | definition {protoTokens bodyTokens : List Token} {proto : Prototype} {body : Expr} {next : Token}
      (signature : Signature protoTokens proto) (inner : Body table bodyTokens body next) :
      OfForm table (.keyword .defWord :: (protoTokens ++ bodyTokens)) (.definition ⟨proto, body⟩) next
  | external {protoTokens : List Token} {proto : Prototype} {next : Token}
      (signature : Signature protoTokens proto) :
      OfForm table (.keyword .externWord :: protoTokens) (.external proto) next
  | expression {tokens : List Token} {body : Expr} {next : Token} (notSeparator : tokens.headD next ≠ .char ';')
      (inner : Body table tokens body next) : OfForm table tokens (.expression (.anonymous body)) next

end Phrase

/-- The prototype that a form makes known. -/
def Form.prototype? : Form → Option Prototype
  | .definition function => some function.proto
  | .external proto => some proto
  | .expression _ => none

/-- The binary operator that a form declares, the last character of its name, with its precedence. -/
def Form.operator? (form : Form) : Option (Char × Int) :=
  match form.prototype? with
  | some ⟨name, _, .infixOp, precedence⟩ => name.toList.getLast?.map fun symbol => (symbol, precedence)
  | _ => none

/-- What a form declares is what its infix prototype says. -/
theorem Form.operator?_eq_some_iff (form : Form) (entry : Char × Int) :
    form.operator? = some entry ↔ ∃ proto, form.prototype? = some proto ∧ proto.kind = .infixOp ∧
      proto.name.toList.getLast? = some entry.1 ∧ proto.precedence = entry.2 := by
  obtain ⟨symbol, precedence⟩ := entry
  rw [operator?]
  split
  · next known =>
    simp only [known, Option.map_eq_some_iff, Prod.mk.injEq]
    constructor
    · rintro ⟨_, last, rfl, same⟩
      exact ⟨_, rfl, rfl, last, same⟩
    · rintro ⟨_, ⟨⟩, _, last, same⟩
      exact ⟨_, last, rfl, same⟩
  · next other =>
    simp only [reduceCtorEq, false_iff, not_exists, not_and]
    rintro ⟨name, params, kind, precedence⟩ known rfl
    exact absurd known (other name params precedence)

/-- The table after forms, each of which overrides what was declared before it. -/
def OperatorTable.record (table : OperatorTable) (forms : List Form) : OperatorTable :=
  table.declareAll (forms.filterMap Form.operator?)

/-- Forms with semicolons among them, each read under the operators declared before it. -/
inductive Phrase.Program : OperatorTable → Phrase (List Form)
  | nil {table : OperatorTable} {next : Token} : Program table [] [] next
  | separator {table : OperatorTable} {tokens : List Token} {forms : List Form} {next : Token}
      (rest : Program table tokens forms next) : Program table (.char ';' :: tokens) forms next
  | form {table : OperatorTable} {tokens later : List Token} {form : Form} {forms : List Form} {next : Token}
      (first : OfForm table tokens form (later.headD next))
      (rest : Program (table.record [form]) later forms next) :
      Program table (tokens ++ later) (form :: forms) next

end OpLang

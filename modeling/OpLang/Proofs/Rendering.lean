import OpLang.Proofs.ExpressionExact
import OpLang.Proofs.Lookahead
import OpLang.Proofs.Spelling

/-! # Rendering expressions

An expression is written out as it is read, with parentheses around every operand that is more than a
number, a variable or a call. Then no precedence matters, every operator has its own chain, and the token
behind each part tells that it is complete. The tokens are a phrase of the grammar that stands for the same
expression, at the depth at which its operands lie in each other.
-/

namespace OpLang

/-! ## Tokens of expressions -/

namespace Expr

/-- Whether an expression is an operand as it stands. -/
def isAtomic : Expr → Bool
  | .number _ | .var _ | .call _ _ => true
  | .unary _ _ | .binary _ _ _ | .ifElse _ _ _ | .forIn _ _ _ _ _ | .varIn _ _ => false

/-- The tokens of an expression where it is an operand. -/
def enclose (expr : Expr) (tokens : List Token) : List Token :=
  if expr.isAtomic then tokens else .char '(' :: (tokens ++ [.char ')'])

/-- How many levels of operands an expression needs where it is an operand itself. -/
def within (expr : Expr) (levels : Nat) : Nat := if expr.isAtomic then levels else levels + 1

/-- Lists of tokens with commas between them. -/
def commaSeparated : List (List Token) → List Token
  | [] => []
  | first :: others => first ++ others.flatMap fun tokens => .char ',' :: tokens

mutual

/-- The tokens of an expression. -/
def tokens : Expr → List Token
  | .number value => [.number value]
  | .var name => [.ident name]
  | .unary symbol operand => .char symbol :: operand.enclose operand.tokens
  | .binary symbol lhs rhs => lhs.enclose lhs.tokens ++ .char symbol :: rhs.enclose rhs.tokens
  | .call callee args => .ident callee :: .char '(' :: (commaSeparated (tokensOfArgs args) ++ [.char ')'])
  | .ifElse condition thenBranch elseBranch =>
    .keyword .ifWord :: (condition.tokens ++ .keyword .thenWord ::
      (thenBranch.tokens ++ .keyword .elseWord :: elseBranch.tokens))
  | .forIn name start finish step body =>
    .keyword .forWord :: .ident name :: .char '=' :: (start.tokens ++ .char ',' ::
      (finish.tokens ++ (tokensAfter ',' step ++ .keyword .inWord :: body.tokens)))
  | .varIn bindings body =>
    .keyword .varWord :: (commaSeparated (tokensOfBindings bindings) ++ .keyword .inWord :: body.tokens)

def tokensOfArgs : List Expr → List (List Token)
  | [] => []
  | arg :: args => arg.tokens :: tokensOfArgs args

/-- The tokens of an optional part that a character announces. -/
def tokensAfter (mark : Char) : Option Expr → List Token
  | none => []
  | some expr => .char mark :: expr.tokens

def tokensOfBindings : List (String × Option Expr) → List (List Token)
  | [] => []
  | (name, init) :: bindings => (.ident name :: tokensAfter '=' init) :: tokensOfBindings bindings

end

mutual

/-- How deep operands lie in each other in the tokens of an expression. -/
def depth : Expr → Nat
  | .number _ => 1
  | .var _ => 1
  | .unary _ operand => operand.within operand.depth + 1
  | .binary _ lhs rhs => max (lhs.within lhs.depth) (rhs.within rhs.depth)
  | .call _ args => depthOfArgs args + 1
  | .ifElse condition thenBranch elseBranch =>
    max condition.depth (max thenBranch.depth elseBranch.depth) + 1
  | .forIn _ start finish step body =>
    max (max start.depth finish.depth) (max (depthOfOption step) body.depth) + 1
  | .varIn bindings body => max (depthOfBindings bindings) body.depth + 1

def depthOfArgs : List Expr → Nat
  | [] => 0
  | arg :: args => max arg.depth (depthOfArgs args)

def depthOfOption : Option Expr → Nat
  | none => 0
  | some expr => expr.depth

def depthOfBindings : List (String × Option Expr) → Nat
  | [] => 0
  | (_, init) :: bindings => max (depthOfOption init) (depthOfBindings bindings)

end

theorem tokensOfArgs_eq_map (args : List Expr) : tokensOfArgs args = args.map tokens := by
  induction args with
  | nil => rfl
  | cons arg args ih => rw [tokensOfArgs, ih, List.map_cons]

theorem tokensOfBindings_eq_map (bindings : List (String × Option Expr)) :
    tokensOfBindings bindings =
      bindings.map fun binding => .ident binding.1 :: tokensAfter '=' binding.2 := by
  induction bindings with
  | nil => rfl
  | cons binding bindings ih => rw [tokensOfBindings, ih, List.map_cons]

theorem depth_le_of_mem_args {arg : Expr} {args : List Expr} (member : arg ∈ args) :
    arg.depth ≤ depthOfArgs args := by
  induction args with
  | nil => cases member
  | cons first args ih =>
    rw [depthOfArgs]
    rcases List.mem_cons.mp member with rfl | member
    · exact Nat.le_max_left ..
    · exact Nat.le_trans (ih member) (Nat.le_max_right ..)

theorem depth_le_of_mem_bindings {binding : String × Option Expr} {bindings : List (String × Option Expr)}
    (member : binding ∈ bindings) : depthOfOption binding.2 ≤ depthOfBindings bindings := by
  induction bindings with
  | nil => cases member
  | cons first bindings ih =>
    rw [depthOfBindings]
    rcases List.mem_cons.mp member with rfl | member
    · exact Nat.le_max_left ..
    · exact Nat.le_trans (ih member) (Nat.le_max_right ..)

/-- The expressions that can be written out: names and operators can be spelled, prefix operators are not
taken for punctuation, and every infix operator is one of the table. -/
inductive Renderable (table : OperatorTable) : Expr → Prop
  | number (value : Binary64) : Renderable table (.number value)
  | var {name : String} (named : IsName name) : Renderable table (.var name)
  | unary {symbol : Char} {operand : Expr} (operator : IsOperator symbol) (notOpening : symbol ≠ '(')
      (notClosing : symbol ≠ ')') (notComma : symbol ≠ ',') (inner : Renderable table operand) :
      Renderable table (.unary symbol operand)
  | binary {symbol : Char} {lhs rhs : Expr} (operator : IsOperator symbol)
      (declared : 0 ≤ table.precedence (.char symbol)) (left : Renderable table lhs)
      (right : Renderable table rhs) : Renderable table (.binary symbol lhs rhs)
  | call {callee : String} {args : List Expr} (named : IsName callee)
      (each : ∀ arg ∈ args, Renderable table arg) : Renderable table (.call callee args)
  | ifElse {condition thenBranch elseBranch : Expr} (test : Renderable table condition)
      (positive : Renderable table thenBranch) (negative : Renderable table elseBranch) :
      Renderable table (.ifElse condition thenBranch elseBranch)
  | forIn {name : String} {start finish body : Expr} {step : Option Expr} (named : IsName name)
      (first : Renderable table start) (last : Renderable table finish)
      (stride : ∀ expr ∈ step, Renderable table expr) (inner : Renderable table body) :
      Renderable table (.forIn name start finish step body)
  | varIn {bindings : List (String × Option Expr)} {body : Expr} (nonempty : bindings ≠ [])
      (named : ∀ binding ∈ bindings, IsName binding.1)
      (inits : ∀ binding ∈ bindings, ∀ expr ∈ binding.2, Renderable table expr)
      (inner : Renderable table body) : Renderable table (.varIn bindings body)

end Expr

/-! ## Tokens as phrases -/

/-- The parentheses and the comma are left to the syntax. -/
structure OperatorTable.Delimits (table : OperatorTable) : Prop where
  opening : table.precedence (.char '(') < 0
  closing : table.precedence (.char ')') < 0
  comma : table.precedence (.char ',') < 0

namespace Phrase

variable {table : OperatorTable}

theorem Ends.closing (delimits : table.Delimits) : Ends table (.char ')') :=
  ⟨OperatorTable.forall_not_infix_iff.mpr delimits.closing, by decide⟩

theorem Ends.comma (delimits : table.Delimits) : Ends table (.char ',') :=
  ⟨OperatorTable.forall_not_infix_iff.mpr delimits.comma, by decide⟩

/-- Words and the end of input continue no expression under any table. -/
theorem Ends.ofNoChar {next : Token} (noChar : ∀ symbol, next ≠ .char symbol) : Ends table next where
  noOperator _ isInfix := by
    obtain ⟨symbol, same, _⟩ := isInfix
    exact noChar symbol same
  noCall := noChar '('

theorem Ends.ofKeyword (word : Keyword) : Ends table (.keyword word) := .ofNoChar fun _ => Token.noConfusion

/-- An operand after which no operator follows is an expression. -/
theorem Expression.ofOperand {operand : Phrase Expr} {tokens : List Token} {expr : Expr} {next : Token}
    (head : operand tokens expr next) (ends : Ends table next) : Expression table operand tokens expr next := by
  have chain : Expression table operand (tokens ++ []) expr next :=
    .chain head (.nil ends.noOperator) (.operand expr)
  rwa [List.append_nil] at chain

/-- Two operands with an operator between them are an expression. -/
theorem Expression.ofLink {operand : Phrase Expr} {left right : List Token} {lhs rhs : Expr} {symbol : Char}
    {precedence : Int} {next : Token} (isInfix : table.Infix (.char symbol) precedence)
    (first : operand left lhs (.char symbol)) (second : operand right rhs next) (ends : Ends table next) :
    Expression table operand (left ++ .char symbol :: right) (.binary symbol lhs rhs) next := by
  have link : Repeated (Link table operand) (fun token => ∀ precedence, ¬ table.Infix token precedence)
      (.char symbol :: right ++ []) [⟨symbol, precedence, rhs⟩] next :=
    .cons (.mk isInfix second) (.nil ends.noOperator)
  rw [List.append_nil] at link
  have shape : Splits lhs ([] ++ [⟨symbol, precedence, rhs⟩]) (.binary symbol lhs rhs) :=
    .root (fun _ => nofun) (fun _ => nofun) (.operand lhs) (.operand rhs)
  exact .chain first link shape

/-- Items with commas between them, each of which may stand before a comma and before what comes last. -/
theorem Separated.ofMap {α : Type} {item : Phrase α} {spell : α → List Token} {values : List α}
    {next : Token} (nonempty : values ≠ []) (stop : next ≠ .char ',')
    (each : ∀ value ∈ values, ∀ other, other = .char ',' ∨ other = next → item (spell value) value other) :
    Separated item (Expr.commaSeparated (values.map spell)) values next := by
  have behind (later : List α) :
      ((later.map spell).flatMap fun tokens => .char ',' :: tokens).headD next = .char ',' ∨
        ((later.map spell).flatMap fun tokens => .char ',' :: tokens).headD next = next := by
    cases later with
    | nil => exact .inr rfl
    | cons => exact .inl rfl
  cases values with
  | nil => exact absurd rfl nonempty
  | cons first others =>
    refine .mk (each first (List.mem_cons_self ..) _ (behind others)) ?_
    replace each := fun value member => each value (List.mem_cons_of_mem _ member)
    clear nonempty
    induction others with
    | nil => exact .nil stop
    | cons second others ih =>
      refine .cons (.mk (each second (List.mem_cons_self ..) _ (behind others))) (ih fun value member => ?_)
      exact each value (List.mem_cons_of_mem _ member)

end Phrase

namespace Expr

open Phrase

/-- The tokens of the expression stand for it wherever it may be written, at its depth or below. -/
structure Reads (table : OperatorTable) (expr : Expr) : Prop where
  expression {levels : Nat} {next : Token} (deep : expr.depth ≤ levels) (ends : Ends table next) :
    Expression table (Operand table levels) expr.tokens expr next
  operand {levels : Nat} {next : Token} (deep : expr.within expr.depth ≤ levels) (noCall : next ≠ .char '(') :
    Operand table levels (expr.enclose expr.tokens) expr next

variable {table : OperatorTable} {expr : Expr}

private theorem exists_inside {needed levels : Nat} (deep : needed + 1 ≤ levels) :
    ∃ inside, needed ≤ inside ∧ levels = inside + 1 :=
  ⟨levels - 1, by omega, by omega⟩

/-- An atomic expression is a primary, and hence an operand and an expression. -/
theorem Reads.ofAtomic (atomic : expr.isAtomic = true) {needed : Nat} (deep : expr.depth = needed + 1)
    (primary : ∀ {inside : Nat} {next : Token}, needed ≤ inside → next ≠ .char '(' →
      Primary table (Operand table inside) expr.tokens expr next) : Reads table expr := by
  have operand {levels : Nat} {next : Token} (bound : expr.depth ≤ levels) (noCall : next ≠ .char '(') :
      Operand table levels expr.tokens expr next := by
    obtain ⟨inside, room, rfl⟩ := exists_inside (deep ▸ bound)
    exact .primary (primary room noCall)
  constructor
  · intro levels next bound ends
    exact .ofOperand (operand bound ends.noCall) ends
  · intro levels next bound noCall
    rw [within, if_pos atomic] at bound
    rw [enclose, if_pos atomic]
    exact operand bound noCall

/-- Any other expression is an operand in parentheses, one level farther out. -/
theorem Reads.ofCompound (delimits : table.Delimits) (compound : expr.isAtomic = false)
    (expression : ∀ {levels : Nat} {next : Token}, expr.depth ≤ levels → Ends table next →
      Expression table (Operand table levels) expr.tokens expr next) : Reads table expr where
  expression := expression
  operand deep noCall := by
    rw [within, if_neg (Bool.eq_false_iff.mp compound)] at deep
    rw [enclose, if_neg (Bool.eq_false_iff.mp compound)]
    obtain ⟨inside, bound, rfl⟩ := exists_inside deep
    exact .primary (.parenthesized (expression bound (.closing delimits)))

/-- The constructs that a word announces are primaries, and are put in parentheses all the same. -/
theorem Reads.ofConstruct (delimits : table.Delimits) (compound : expr.isAtomic = false) {needed : Nat}
    (deep : expr.depth = needed + 1)
    (primary : ∀ {inside : Nat} {next : Token}, needed ≤ inside → Ends table next →
      Primary table (Operand table inside) expr.tokens expr next) : Reads table expr := by
  apply Reads.ofCompound delimits compound
  intro levels next bound ends
  obtain ⟨inside, room, rfl⟩ := exists_inside (deep ▸ bound)
  exact .ofOperand (.primary (primary room ends)) ends

/-- An operand begins with a parenthesis or with no character at all. -/
theorem exists_head_enclose (expr : Expr) : ∃ token later, expr.enclose expr.tokens = token :: later ∧
    ∀ symbol, token = .char symbol → symbol = '(' := by
  cases atomic : expr.isAtomic with
  | false =>
    refine ⟨.char '(', expr.tokens ++ [.char ')'], ?_, fun symbol same => ?_⟩
    · rw [enclose, if_neg (Bool.eq_false_iff.mp atomic)]
    · cases same
      rfl
  | true =>
    rw [enclose, if_pos atomic]
    cases expr with
    | number | var | call =>
      refine ⟨_, _, by rw [tokens], fun symbol same => ?_⟩
      cases same
    | unary | binary | ifElse | forIn | varIn => cases atomic

/-- The first token of an expression is a character only if it opens a parenthesis or is a prefix operator. -/
theorem exists_head (expr : Expr) : ∃ token later, expr.tokens = token :: later ∧
    ∀ symbol, token = .char symbol → symbol = '(' ∨ ∃ operand, expr = .unary symbol operand := by
  cases expr with
  | binary symbol lhs rhs =>
    obtain ⟨token, later, split, isSymbol⟩ := lhs.exists_head_enclose
    exact ⟨token, _, by rw [tokens, split, List.cons_append], fun other same => .inl (isSymbol other same)⟩
  | unary symbol operand =>
    refine ⟨_, _, by rw [tokens], fun other same => .inr ⟨operand, ?_⟩⟩
    cases same
    rfl
  | number | var | call | ifElse | forIn | varIn =>
    refine ⟨_, _, by rw [tokens], fun symbol same => ?_⟩
    cases same

/-- A part that a character announces is read, or seen to be missing. -/
theorem optional_of_reads (mark : Char) {part : Option Expr} {levels : Nat} {next : Token}
    (reads : ∀ expr ∈ part, Reads table expr) (deep : depthOfOption part ≤ levels) (ends : Ends table next)
    (stop : next ≠ .char mark) :
    Optional mark (Expression table (Operand table levels)) (tokensAfter mark part) part next := by
  cases part with
  | none => exact .absent stop
  | some expr => exact .present (.mk ((reads expr rfl).expression deep ends))

theorem arguments_of_reads {args : List Expr} {levels : Nat} (delimits : table.Delimits)
    (reads : ∀ arg ∈ args, Reads table arg) (noClosing : ∀ arg ∈ args, ∀ operand, arg ≠ .unary ')' operand)
    (deep : depthOfArgs args ≤ levels) :
    Arguments table (Operand table levels) (commaSeparated (tokensOfArgs args)) args (.char ')') := by
  rw [tokensOfArgs_eq_map]
  cases args with
  | nil => exact .empty
  | cons first others =>
    refine .some ?_ (.ofMap (List.cons_ne_nil first others) (by decide) fun arg member other comes => ?_)
    · obtain ⟨token, later, split, isSymbol⟩ := first.exists_head
      have notClosed : token ≠ .char ')' := by
        intro closed
        rcases isSymbol ')' closed with absurd | ⟨operand, same⟩
        · cases absurd
        · exact noClosing first (List.mem_cons_self ..) operand same
      simpa only [List.map_cons, commaSeparated, split, List.cons_append, List.headD_cons] using notClosed
    · have ends : Ends table other := comes.elim (· ▸ .comma delimits) (· ▸ .closing delimits)
      exact (reads arg member).expression (Nat.le_trans (depth_le_of_mem_args member) deep) ends

theorem bindings_of_reads {bindings : List (String × Option Expr)} {levels : Nat}
    (delimits : table.Delimits) (nonempty : bindings ≠ [])
    (reads : ∀ binding ∈ bindings, ∀ expr ∈ binding.2, Reads table expr)
    (deep : depthOfBindings bindings ≤ levels) :
    Separated (Binding table (Operand table levels)) (commaSeparated (tokensOfBindings bindings)) bindings
      (.keyword .inWord) := by
  rw [tokensOfBindings_eq_map]
  refine .ofMap nonempty Token.noConfusion fun binding member other comes => ?_
  have ends : Ends table other := comes.elim (· ▸ .comma delimits) (· ▸ .ofKeyword .inWord)
  have stop : other ≠ .char '=' := by
    rcases comes with rfl | rfl
    · decide
    · decide
  have deep := Nat.le_trans (depth_le_of_mem_bindings member) deep
  exact .mk (optional_of_reads '=' (reads binding member) deep ends stop)

section Constructors

variable {name : String} {symbol : Char} {operand lhs rhs condition thenBranch elseBranch start finish body : Expr}
  {args : List Expr} {step : Option Expr} {bindings : List (String × Option Expr)}

theorem reads_number (value : Binary64) : Reads table (.number value) := by
  apply Reads.ofAtomic rfl rfl
  intro inside next _ _
  exact .number

theorem reads_var (name : String) : Reads table (.var name) := by
  apply Reads.ofAtomic rfl rfl
  intro inside next _ noCall
  exact .var noCall

theorem reads_unary (delimits : table.Delimits) (ascii : symbol.toNat < 128) (notOpening : symbol ≠ '(')
    (notComma : symbol ≠ ',') (inner : Reads table operand) : Reads table (.unary symbol operand) := by
  apply Reads.ofCompound delimits rfl
  intro levels next deep ends
  rw [depth] at deep
  obtain ⟨inside, bound, rfl⟩ := exists_inside deep
  rw [tokens]
  exact .ofOperand (.unary ascii notOpening notComma (inner.operand bound ends.noCall)) ends

theorem reads_binary (delimits : table.Delimits) (declared : 0 ≤ table.precedence (.char symbol))
    (left : Reads table lhs) (right : Reads table rhs) : Reads table (.binary symbol lhs rhs) := by
  have isInfix : table.Infix (.char symbol) (table.precedence (.char symbol)) :=
    OperatorTable.infix_iff.mpr ⟨rfl, declared⟩
  have notOpening : Token.char symbol ≠ .char '(' := by
    intro same
    have opening := delimits.opening
    rw [← same] at opening
    omega
  apply Reads.ofCompound delimits rfl
  intro levels next deep ends
  rw [depth, Nat.max_le] at deep
  rw [tokens]
  exact .ofLink isInfix (left.operand deep.1 notOpening) (right.operand deep.2 ends.noCall) ends

theorem reads_call (delimits : table.Delimits) (each : ∀ arg ∈ args, Reads table arg)
    (noClosing : ∀ arg ∈ args, ∀ operand, arg ≠ .unary ')' operand) : Reads table (.call name args) := by
  apply Reads.ofAtomic rfl rfl
  intro inside next bound _
  rw [tokens]
  exact .call (arguments_of_reads delimits each noClosing bound)

theorem reads_ifElse (delimits : table.Delimits) (test : Reads table condition) (positive : Reads table thenBranch)
    (negative : Reads table elseBranch) : Reads table (.ifElse condition thenBranch elseBranch) := by
  apply Reads.ofConstruct delimits rfl rfl
  intro inside next bound ends
  rw [tokens]
  apply Primary.ifElse
  · exact test.expression (by omega) (.ofKeyword .thenWord)
  · exact positive.expression (by omega) (.ofKeyword .elseWord)
  · exact negative.expression (by omega) ends

theorem reads_forIn (delimits : table.Delimits) (first : Reads table start) (last : Reads table finish)
    (stride : ∀ amount ∈ step, Reads table amount) (inner : Reads table body) :
    Reads table (.forIn name start finish step body) := by
  have behind : Ends table ((tokensAfter ',' step).headD (.keyword .inWord)) := by
    cases step with
    | none => exact .ofKeyword .inWord
    | some => exact .comma delimits
  apply Reads.ofConstruct delimits rfl rfl
  intro inside next bound ends
  rw [tokens]
  apply Primary.forIn
  · exact first.expression (by omega) (.comma delimits)
  · exact last.expression (by omega) behind
  · exact optional_of_reads ',' stride (by omega) (.ofKeyword .inWord) Token.noConfusion
  · exact inner.expression (by omega) ends

theorem reads_varIn (delimits : table.Delimits) (nonempty : bindings ≠ [])
    (inits : ∀ binding ∈ bindings, ∀ init ∈ binding.2, Reads table init) (inner : Reads table body) :
    Reads table (.varIn bindings body) := by
  apply Reads.ofConstruct delimits rfl rfl
  intro inside next bound ends
  rw [tokens]
  apply Primary.varIn
  · exact bindings_of_reads delimits nonempty inits (by omega)
  · exact inner.expression (by omega) ends

end Constructors

/-- What can be written out is read again. -/
theorem Renderable.reads (delimits : table.Delimits) (renderable : Renderable table expr) :
    Reads table expr := by
  induction renderable with
  | number value => exact reads_number value
  | @var name => exact reads_var name
  | unary operator notOpening _ notComma _ inner =>
    exact reads_unary delimits operator.ascii notOpening notComma inner
  | binary _ declared _ _ left right => exact reads_binary delimits declared left right
  | call _ renderable each =>
    refine reads_call delimits each fun arg member operand same => ?_
    cases same ▸ renderable arg member with
    | unary _ _ notClosing => exact notClosing rfl
  | ifElse _ _ _ test positive negative => exact reads_ifElse delimits test positive negative
  | forIn _ _ _ _ _ first last stride inner => exact reads_forIn delimits first last stride inner
  | varIn nonempty _ _ _ inits inner => exact reads_varIn delimits nonempty inits inner

end Expr

end OpLang

import OpLang.Proofs.Descent
import OpLang.Proofs.Operands

/-! # The nesting limit

Operands may lie in each other down to a limit. It is compared with an operand that has itself for its operands, and
so has no limit. The limit is not seen unless it is reached: what is read within it is read without it, up to the
same cursor, errors included. And it is reached just where an operand without the limit comes to lie in as many others
as the limit allows.
-/

namespace OpLang

namespace Grammar

variable {α : Type}

/-! ## Limited and unlimited operands -/

/-- An operand with operands in it to any depth. Each of them begins behind the token at which the outer one begins, so
that none is ever refused for where it begins. -/
def unlimitedOperand (table : OperatorTable) : Parse Expr := fun cursor =>
  prefixed table (fun inner =>
    if inner.remaining < cursor.remaining then unlimitedOperand table inner
    else .error (.internal "operand without an end") inner) cursor
termination_by cursor => cursor.remaining

section Unlimited

variable {table : OperatorTable}

theorem calm_unlimitedOperand (cursor : Cursor) : Calm cursor.remaining (unlimitedOperand table cursor) := by
  induction length : cursor.remaining using Nat.strongRecOn generalizing cursor with
  | ind length ih =>
    subst length
    rw [unlimitedOperand]
    refine (prefixed_opens table cursor).calm (fun inner within => ?_) (Nat.le_refl _)
    split
    · next behind => exact (ih _ behind inner rfl).mono within
    · exact .error ⟨trivial, within⟩

/-- What an operand reads is decided by what the operands do that begin behind its first token. -/
theorem prefixed_congr {operand other : Parse Expr} {cursor : Cursor}
    (calm : ∀ cursor, Calm cursor.remaining (operand cursor))
    (same : ∀ inner, inner.remaining < cursor.remaining → operand inner = other inner) :
    prefixed table operand cursor = prefixed table other cursor := by
  refine Classical.byContradiction fun differ => ?_
  obtain ⟨inner, consults, apart⟩ := sequential_of_opens (prefixed_opens table) _ _ _ differ
  exact apart (same inner ((prefixed_opens table cursor).remaining_lt calm consults))

theorem unlimitedOperand_eq : prefixed table (unlimitedOperand table) = unlimitedOperand table := by
  funext cursor
  conv => rhs; rw [unlimitedOperand]
  exact prefixed_congr calm_unlimitedOperand fun inner behind => (if_pos behind).symm

/-- There is just one operand that has itself for its operands. -/
theorem prefixed_eq_self_iff {operand : Parse Expr} :
    prefixed table operand = operand ↔ operand = unlimitedOperand table := by
  constructor
  · intro fixed
    funext cursor
    induction length : cursor.remaining using Nat.strongRecOn generalizing cursor with
    | ind length ih =>
      subst length
      rw [← unlimitedOperand_eq, ← fixed]
      exact (prefixed_congr calm_unlimitedOperand fun inner behind => (ih _ behind inner rfl).symm).symm
  · rintro rfl
    exact unlimitedOperand_eq

end Unlimited

/-- Operands lie in each other more deeply than the limit allows. -/
def TooDeep (outcome : EStateM.Result Error Cursor α) : Prop :=
  ∃ stopped, outcome = .error (.nestingTooDeep maxNesting) stopped

theorem Calm.not_tooDeep {bound : Nat} {outcome : EStateM.Result Error Cursor α} (calm : Calm bound outcome) :
    ¬ TooDeep outcome := by
  rintro ⟨stopped, rfl⟩
  cases calm with
  | error said => exact said.1

section Limited

variable {production : Parse Expr → Parse α} {limited unlimited : Parse Expr} {cursor inner : Cursor}

theorem Consults.tooDeep (consults : Consults production limited cursor inner) (deep : TooDeep (limited inner)) :
    TooDeep (production limited cursor) := by
  obtain ⟨stopped, deep⟩ := deep
  exact ⟨stopped, consults.error deep⟩

variable (sequential : Sequential production)
  (same : ∀ inner, TooDeep (limited inner) ∨ limited inner = unlimited inner)

include sequential same

/-- A limit on operands is one on the production, which is the same in all else. -/
theorem Sequential.tooDeep_or_eq (cursor : Cursor) :
    TooDeep (production limited cursor) ∨ production limited cursor = production unlimited cursor := by
  by_cases equal : production limited cursor = production unlimited cursor
  · exact .inr equal
  · obtain ⟨inner, consults, apart⟩ := sequential _ _ _ equal
    exact .inl (consults.tooDeep ((same inner).resolve_right apart))

theorem Sequential.exists_consults (never : ¬ TooDeep (production unlimited cursor))
    (deep : TooDeep (production limited cursor)) :
    ∃ inner, Consults production unlimited cursor inner ∧ TooDeep (limited inner) := by
  obtain ⟨inner, consults, apart⟩ := sequential cursor unlimited limited fun equal => never (equal ▸ deep)
  exact ⟨inner, consults, (same inner).resolve_right apart.symm⟩

theorem Sequential.tooDeep_of_consults (consults : Consults production unlimited cursor inner)
    (deep : TooDeep (limited inner)) : TooDeep (production limited cursor) := by
  obtain ⟨stopped, deep⟩ := deep
  have failed := consults (.nestingTooDeep maxNesting) stopped
  by_cases equal : production limited cursor =
      production (failingAt unlimited inner (.nestingTooDeep maxNesting) stopped) cursor
  · exact ⟨stopped, equal.trans failed⟩
  · -- another operand has been consulted before, which is too deep as well
    obtain ⟨earlier, consulted, apart⟩ := sequential _ _ _ equal
    have elsewhere : earlier ≠ inner := by
      rintro rfl
      exact apart (deep.trans failingAt_self.symm)
    rw [failingAt_of_ne elsewhere] at apart
    exact consulted.tooDeep ((same earlier).resolve_right apart)

end Limited

section Depth

variable {table : OperatorTable} {start : Cursor}

/-- Within the limit an operand is as it is without one. -/
theorem tooDeep_or_eq_unlimitedOperand (levels : Nat) (cursor : Cursor) :
    TooDeep (operandWithin table levels cursor) ∨ operandWithin table levels cursor = unlimitedOperand table cursor := by
  induction levels generalizing cursor with
  | zero => exact .inl ⟨cursor, rfl⟩
  | succ levels ih =>
    rw [← unlimitedOperand_eq]
    exact (sequential_of_opens (prefixed_opens table)).tooDeep_or_eq ih cursor

/-- Reading an expression from the start without a limit comes to an operand at the cursor, and this operand and those
in which it lies are as many as the depth says. -/
inductive Enters (table : OperatorTable) (start : Cursor) : Nat → Cursor → Prop
  | outermost {inner : Cursor} (consults : Consults (expression table) (unlimitedOperand table) start inner) :
      Enters table start 1 inner
  | inside {depth : Nat} {outer inner : Cursor} (entered : Enters table start depth outer)
      (consults : Consults (prefixed table) (unlimitedOperand table) outer inner) :
      Enters table start (depth + 1) inner

theorem Enters.exists_deeper {depth levels : Nat} {cursor : Cursor} (entered : Enters table start depth cursor)
    (deep : TooDeep (operandWithin table levels cursor)) : ∃ inner, Enters table start (depth + levels) inner := by
  induction levels generalizing depth cursor with
  | zero => exact ⟨cursor, entered⟩
  | succ levels ih =>
    have never : ¬ TooDeep (prefixed table (unlimitedOperand table) cursor) := by
      rw [unlimitedOperand_eq]
      exact (calm_unlimitedOperand cursor).not_tooDeep
    obtain ⟨inner, consults, deeper⟩ := (sequential_of_opens (prefixed_opens table)).exists_consults
      (tooDeep_or_eq_unlimitedOperand levels) never deep
    rw [Nat.add_comm levels 1, ← Nat.add_assoc]
    exact ih (.inside entered consults) deeper

theorem Enters.tooDeep {depth levels limit : Nat} {cursor : Cursor} (entered : Enters table start depth cursor)
    (deep : TooDeep (operandWithin table levels cursor)) (sum : levels + depth = limit + 1) :
    TooDeep (expression table (operandWithin table limit) start) := by
  induction entered generalizing levels with
  | outermost consults =>
    obtain rfl : levels = limit := Nat.succ_inj.mp sum
    exact (expression_assembled table).sequential.tooDeep_of_consults (tooDeep_or_eq_unlimitedOperand levels)
      consults deep
  | inside _ consults ih =>
    refine ih ?_ (by omega : levels + 1 + _ = limit + 1)
    exact (sequential_of_opens (prefixed_opens table)).tooDeep_of_consults (tooDeep_or_eq_unlimitedOperand levels)
      consults deep

/-- Expressions are too deep just where operands lie in each other in one level more than the limit allows. -/
theorem tooDeep_expression_iff {limit : Nat} :
    TooDeep (expression table (operandWithin table limit) start) ↔ ∃ inner, Enters table start (limit + 1) inner := by
  constructor
  · intro deep
    have never : ¬ TooDeep (expression table (unlimitedOperand table) start) :=
      ((expression_assembled table).calm (fun inner within => (calm_unlimitedOperand inner).mono within)
        (Nat.le_refl start.remaining)).not_tooDeep
    obtain ⟨inner, consults, deeper⟩ := (expression_assembled table).sequential.exists_consults
      (tooDeep_or_eq_unlimitedOperand limit) never deep
    rw [Nat.add_comm]
    exact (Enters.outermost consults).exists_deeper deeper
  · rintro ⟨inner, entered⟩
    exact entered.tooDeep ⟨inner, rfl⟩ (Nat.zero_add _)

end Depth

end Grammar

/-! ## Heights -/

namespace Expr

mutual

/-- How many levels of operands an expression needs, without the parentheses that its tree does not have. The operands
of a chain are side by side, so a chain is as high as the highest of them. -/
def height : Expr → Nat
  | .number _ => 1
  | .var _ => 1
  | .unary _ operand => operand.height + 1
  | .binary _ lhs rhs => max lhs.height rhs.height
  | .call _ args => heightOfArgs args + 1
  | .ifElse condition thenBranch elseBranch =>
    max condition.height (max thenBranch.height elseBranch.height) + 1
  | .forIn _ start finish step body =>
    max (max start.height finish.height) (max (heightOfOption step) body.height) + 1
  | .varIn bindings body => max (heightOfBindings bindings) body.height + 1

def heightOfArgs : List Expr → Nat
  | [] => 0
  | arg :: args => max arg.height (heightOfArgs args)

def heightOfOption : Option Expr → Nat
  | none => 0
  | some expr => expr.height

def heightOfBindings : List (String × Option Expr) → Nat
  | [] => 0
  | (_, init) :: bindings => max (heightOfOption init) (heightOfBindings bindings)

end

variable {levels : Nat}

theorem heightOfArgs_le {args : List Expr} (each : ∀ arg ∈ args, arg.height ≤ levels) :
    heightOfArgs args ≤ levels := by
  induction args with
  | nil => exact Nat.zero_le _
  | cons arg args ih =>
    obtain ⟨here, later⟩ := List.forall_mem_cons.mp each
    exact Nat.max_le.mpr ⟨here, ih later⟩

theorem heightOfOption_le {part : Option Expr} (each : ∀ expr ∈ part, expr.height ≤ levels) :
    heightOfOption part ≤ levels := by
  cases part with
  | none => exact Nat.zero_le _
  | some expr => exact each expr rfl

theorem heightOfBindings_le {bindings : List (String × Option Expr)}
    (each : ∀ binding ∈ bindings, ∀ init ∈ binding.2, init.height ≤ levels) :
    heightOfBindings bindings ≤ levels := by
  induction bindings with
  | nil => exact Nat.zero_le _
  | cons binding bindings ih =>
    obtain ⟨here, later⟩ := List.forall_mem_cons.mp each
    exact Nat.max_le.mpr ⟨heightOfOption_le here, ih later⟩

end Expr

/-- A chain is as high as the highest of its operands. -/
theorem Splits.height_le {first tree : Expr} {links : List Link} {levels : Nat} (shape : Splits first links tree)
    (head : first.height ≤ levels) (tail : ∀ link ∈ links, link.operand.height ≤ levels) : tree.height ≤ levels := by
  induction shape with
  | operand => exact head
  | root _ _ _ _ left right =>
    obtain ⟨before, here, after⟩ := List.forall_mem_append.mp tail |>.imp_right List.forall_mem_cons.mp
    exact Nat.max_le.mpr ⟨left head before, right here after⟩

namespace Phrase

section Lists

variable {α : Type} {property : α → Prop} {item : Phrase α} {ends : Token → Prop} {mark : Char}
  {tokens : List Token} {next : Token} (each : ∀ tokens value next, item tokens value next → property value)

include each

theorem Announced.of_item {value : α} (phrase : Announced mark item tokens value next) : property value := by
  obtain ⟨body⟩ := phrase
  exact each _ _ _ body

theorem Repeated.forall_mem {values : List α} (items : Repeated item ends tokens values next) :
    ∀ value ∈ values, property value := by
  induction items with
  | nil => exact List.forall_mem_nil _
  | cons first _ ih => exact List.forall_mem_cons.mpr ⟨each _ _ _ first, ih⟩

theorem Optional.forall_mem {value? : Option α} (phrase : Optional mark item tokens value? next) :
    ∀ value ∈ value?, property value := by
  rintro value member
  cases phrase with
  | absent => cases member
  | present body =>
    cases member
    exact body.of_item each

theorem Separated.forall_mem {values : List α} (phrase : Separated item tokens values next) :
    ∀ value ∈ values, property value := by
  obtain ⟨first, others⟩ := phrase
  exact List.forall_mem_cons.mpr ⟨each _ _ _ first, others.forall_mem fun _ _ _ body => body.of_item each⟩

end Lists

section Heights

variable {table : OperatorTable} {operand : Phrase Expr} {levels : Nat}
  (inner : ∀ tokens expr next, operand tokens expr next → expr.height ≤ levels)

include inner

theorem Expression.height_le (tokens : List Token) (expr : Expr) (next : Token)
    (phrase : Expression table operand tokens expr next) : expr.height ≤ levels := by
  obtain ⟨head, tail, shape⟩ := phrase
  refine shape.height_le (inner _ _ _ head) (tail.forall_mem fun _ _ _ link => ?_)
  obtain ⟨_, rhs⟩ := link
  exact inner _ _ _ rhs

theorem Binding.height_le (tokens : List Token) (binding : String × Option Expr) (next : Token)
    (phrase : Binding table operand tokens binding next) : ∀ init ∈ binding.2, init.height ≤ levels := by
  obtain ⟨start⟩ := phrase
  exact start.forall_mem (Expression.height_le inner)

theorem Primary.height_le {tokens : List Token} {expr : Expr} {next : Token}
    (phrase : Primary table operand tokens expr next) : expr.height ≤ levels + 1 := by
  have expression : ∀ tokens expr next, Expression table operand tokens expr next → expr.height ≤ levels :=
    Expression.height_le inner
  cases phrase with
  | number | var => exact Nat.le_add_left 1 levels
  | call list =>
    refine Nat.succ_le_succ (Expr.heightOfArgs_le ?_)
    cases list with
    | empty => exact List.forall_mem_nil _
    | some _ list => exact list.forall_mem expression
  | parenthesized body => exact Nat.le_succ_of_le (expression _ _ _ body)
  | ifElse test positive negative =>
    exact Nat.succ_le_succ (Nat.max_le.mpr ⟨expression _ _ _ test,
      Nat.max_le.mpr ⟨expression _ _ _ positive, expression _ _ _ negative⟩⟩)
  | forIn first last stride body =>
    have step := Expr.heightOfOption_le (stride.forall_mem expression)
    exact Nat.succ_le_succ (Nat.max_le.mpr ⟨Nat.max_le.mpr ⟨expression _ _ _ first, expression _ _ _ last⟩,
      Nat.max_le.mpr ⟨step, expression _ _ _ body⟩⟩)
  | varIn list body =>
    have inits := Expr.heightOfBindings_le (list.forall_mem (Binding.height_le inner))
    exact Nat.succ_le_succ (Nat.max_le.mpr ⟨inits, expression _ _ _ body⟩)

end Heights

theorem Operand.height_le (table : OperatorTable) (levels : Nat) (tokens : List Token) (expr : Expr) (next : Token)
    (phrase : Operand table levels tokens expr next) : expr.height ≤ levels := by
  induction levels generalizing tokens expr next with
  | zero => exact phrase.elim
  | succ levels ih =>
    cases phrase with
    | unary _ _ _ body => exact Nat.succ_le_succ (ih _ _ _ body)
    | primary body => exact body.height_le ih

end Phrase

/-! ## Expressions -/

/-- Reading an expression with a count of the operands that it is inside of, from none on, is reading it with as many
levels as the limit has. Except where operands lie in each other too deeply, this is reading it with the operand that
has itself for its operands, without any count, to the same result or error in the same state. They lie too deeply
just where without a limit an operand is read at one level more than there are; and no tree that is read is higher
than the limit. -/
theorem nesting_limit_exact (parser : Parser) :
    (parser.table.Fits →
      Descent.expression ⟨parser.table⟩ ⟨parser.cursor, 0⟩ =
        Descent.lift (Grammar.expression parser.table (Grammar.outerOperand parser.table)) ⟨parser.cursor, 0⟩) ∧
    (∀ operand, Grammar.prefixed parser.table operand = operand ↔ operand = Grammar.unlimitedOperand parser.table) ∧
    (parser.expression.1 ≠ .error (.nestingTooDeep Grammar.maxNesting) →
      parser.expression = parser.read (Grammar.expression parser.table (Grammar.unlimitedOperand parser.table))) ∧
    (parser.expression.1 = .error (.nestingTooDeep Grammar.maxNesting) ↔
      ∃ inner, Grammar.Enters parser.table parser.cursor (Grammar.maxNesting + 1) inner) ∧
    ∀ tree, parser.expression.1 = .ok tree → tree.height ≤ Grammar.maxNesting := by
  have tooDeep_iff : parser.expression.1 = .error (.nestingTooDeep Grammar.maxNesting) ↔
      Grammar.TooDeep (Grammar.expression parser.table (Grammar.outerOperand parser.table) parser.cursor) := by
    rw [Parser.expression, Parser.readWith, Parser.read, Grammar.TooDeep]
    split <;> simp_all
  refine ⟨fun fits => Descent.body_follows fits parser.cursor, fun _ => Grammar.prefixed_eq_self_iff, fun shallow => ?_,
    tooDeep_iff.trans Grammar.tooDeep_expression_iff, fun tree success => ?_⟩
  · have same := ((Grammar.expression_assembled parser.table).sequential.tooDeep_or_eq
      (Grammar.tooDeep_or_eq_unlimitedOperand Grammar.maxNesting) parser.cursor).resolve_left
        fun deep => shallow (tooDeep_iff.mpr deep)
    simp only [Parser.expression, Parser.readWith, Parser.read, Grammar.outerOperand, same]
  · have read : ∃ last, Grammar.expression parser.table (Grammar.outerOperand parser.table) parser.cursor =
        .ok tree last := by
      rw [Parser.expression, Parser.readWith, Parser.read] at success
      split at success <;> simp_all
    obtain ⟨last, read⟩ := read
    obtain ⟨tokens, _, phrase⟩ := (Grammar.body_exact parser.table _ _ _).mp read
    exact phrase.height_le (Phrase.Operand.height_le parser.table Grammar.maxNesting)

/-- A variable behind as many prefix operators as there are levels lies too deep, and behind one less it does not. -/
theorem nesting_limit_exact_prefixes :
    let prefixes (others : Nat) : Parser :=
      { cursor :=
          { current := .char '!'
            place := .start
            unread := List.replicate others ⟨.token (.char '!'), .start⟩ ++ [⟨.token (.ident "x"), .start⟩]
            finish := .start }
        table := .standard }
    let deep := prefixes 255
    let shallow := prefixes 254
    deep.table.Fits ∧
      (∃ last, Descent.expression ⟨deep.table⟩ ⟨deep.cursor, 0⟩ =
        some (.error (.nestingTooDeep Grammar.maxNesting), ⟨last, 0⟩)) ∧
      (∃ inner, Grammar.Enters deep.table deep.cursor (Grammar.maxNesting + 1) inner) ∧
      ∃ tree, shallow.expression.1 = .ok tree ∧ tree.height = Grammar.maxNesting ∧
        shallow.read (Grammar.expression shallow.table (Grammar.unlimitedOperand shallow.table)) =
          shallow.expression := by
  intro prefixes deep shallow
  have fits : deep.table.Fits := by
    unfold OperatorTable.Fits
    decide
  have isDeep : deep.expression.1 = .error (.nestingTooDeep Grammar.maxNesting) := by
    have caught : ((deep.expression.1.map fun _ => none).tryCatch fun fault => .ok (some fault)).toOption =
        some (some (.nestingTooDeep Grammar.maxNesting)) := by decide +kernel
    cases read : deep.expression.1 with
    | ok tree =>
      rw [read] at caught
      cases caught
    | error fault =>
      rw [read] at caught
      cases caught
      rfl
  have height : shallow.expression.1.toOption.map Expr.height = some Grammar.maxNesting := by decide +kernel
  obtain ⟨counted, _, _, deep_iff, _⟩ := nesting_limit_exact deep
  obtain ⟨_, _, unlimited, _, _⟩ := nesting_limit_exact shallow
  refine ⟨fits, ?_, deep_iff.mp isDeep, ?_⟩
  · rw [counted fits, Descent.lift]
    rw [Parser.expression, Parser.readWith, Parser.read] at isDeep
    split at isDeep
    · cases isDeep
    · next stopped read =>
      cases isDeep
      exact ⟨stopped, by rw [read]⟩
  · cases read : shallow.expression.1 with
    | error fault =>
      rw [read] at height
      cases height
    | ok tree =>
      rw [read] at height
      have noFault : shallow.expression.1 ≠ .error (.nestingTooDeep Grammar.maxNesting) := by
        rw [read]
        intro same
        cases same
      exact ⟨tree, rfl, Option.some.inj height, (unlimited noFault).symm⟩

end OpLang

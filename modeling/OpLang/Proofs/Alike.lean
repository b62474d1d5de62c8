import OpLang.Grammar.Declaration
import OpLang.Proofs.Crossing

/-! # Productions side by side

Two readers go side by side, each on its own source and with its own operators. As long as they stand on the same
token with as much to be read, and no comparison of precedences tells their operators apart, they take the same
steps, and they end with the same result or the same error. How the cursors are related may be said for an error in
another way than for a success, since nothing is read after an error.

Every statement about all productions that looks at one step at a time is a case of this one: that what a step keeps
a production keeps, that only some errors are raised, that places do not matter, nor operators that are not used.
-/

namespace OpLang

/-- Whether an error is one that productions raise by themselves: it is about the tokens of a form. -/
def Error.IsGrammatical : Error → Prop
  | .expected _ _ => True
  | .unknownToken _ => True
  | .invalidPrecedence _ => True
  | .operatorArity _ _ _ => True
  | .duplicateParameter _ _ => True
  | .nestingTooDeep _ => True
  | _ => False

/-- The same result with cursors that `R` relates, or the same error with cursors that `E` relates for this error. -/
inductive Matching {α : Type} (R : Cursor → Cursor → Prop) (E : Error → Cursor → Cursor → Prop) :
    EStateM.Result Error Cursor α → EStateM.Result Error Cursor α → Prop
  | ok {value : α} {left right : Cursor} (related : R left right) : Matching R E (.ok value left) (.ok value right)
  | error {fault : Error} {left right : Cursor} (stopped : E fault left right) :
      Matching R E (.error fault left) (.error fault right)

/-- Two productions that have matching outcomes from related cursors. -/
def Alike {α : Type} (R : Cursor → Cursor → Prop) (E : Error → Cursor → Cursor → Prop) (first second : Parse α) :
    Prop :=
  ∀ left right, R left right → Matching R E (first left) (second right)

/-- Related cursors stand on the same token with as much to be read; steps keep them related or stop them both, and
they may stop where they stand with an error that is about the tokens. -/
structure Cursor.Parallel (R : Cursor → Cursor → Prop) (E : Error → Cursor → Cursor → Prop) : Prop where
  current {left right : Cursor} (related : R left right) : left.current = right.current
  remaining {left right : Cursor} (related : R left right) : left.remaining = right.remaining
  advance : Alike R E Cursor.advance Cursor.advance
  raise {fault : Error} (isGrammatical : fault.IsGrammatical) {left right : Cursor} (related : R left right) :
    E fault left right

/-- Wherever the readers stand, the precedences of the current token are the same or both below the bound. -/
def OperatorTable.Comparable (R : Cursor → Cursor → Prop) (bound : Int) (table other : OperatorTable) : Prop :=
  ∀ left right, R left right → table.precedence left.current = other.precedence right.current ∨
    table.precedence left.current < bound ∧ other.precedence right.current < bound

theorem OperatorTable.Comparable.refl {R : Cursor → Cursor → Prop} {E : Error → Cursor → Cursor → Prop}
    (parallel : Cursor.Parallel R E) (bound : Int) (table : OperatorTable) : Comparable R bound table table :=
  fun _ _ related => .inl (congrArg table.precedence (parallel.current related))

/-- No token but a character has a precedence that is not negative. -/
theorem OperatorTable.precedence_neg {table : OperatorTable} {token : Token}
    (noChar : ∀ symbol, token ≠ .char symbol) : table.precedence token < 0 := by
  cases token with
  | char symbol => exact absurd rfl (noChar symbol)
  | _ => exact (by decide : noPrecedence < 0)

variable {R : Cursor → Cursor → Prop} {E : Error → Cursor → Cursor → Prop} {α β : Type}

namespace Alike

theorem pure (value : α) : Alike R E (pure value) (pure value) := fun _ _ related => .ok related

theorem bind {first other : Parse α} {rest otherRest : α → Parse β} (alike : Alike R E first other)
    (continued : ∀ value, Alike R E (rest value) (otherRest value)) :
    Alike R E (first >>= rest) (other >>= otherRest) := by
  intro left right related
  have outcomes := alike left right related
  simp only [Bind.bind, EStateM.bind]
  generalize first left = one, other right = two at outcomes ⊢
  cases outcomes with
  | ok related => exact continued _ _ _ related
  | error stopped => exact .error stopped

theorem ite {condition : Prop} [Decidable condition] {first other second otherSecond : Parse α}
    (positive : Alike R E first other) (negative : Alike R E second otherSecond) :
    Alike R E (if condition then first else second) (if condition then other else otherSecond) := by
  split
  · exact positive
  · exact negative

end Alike

namespace Grammar

section Steps

variable (parallel : Cursor.Parallel R E)

include parallel

theorem throw_alike {fault : Error} (isGrammatical : fault.IsGrammatical) :
    Alike R E (throw fault : Parse α) (throw fault) :=
  fun _ _ related => .error (parallel.raise isGrammatical related)

theorem peek_alike : Alike R E peek peek := by
  intro left right related
  simp only [peek, parallel.current related]
  exact .ok related

theorem unexpected_alike (wanted : String) : Alike R E (unexpected wanted : Parse α) (unexpected wanted) :=
  .bind (peek_alike parallel) fun _ => throw_alike parallel trivial

theorem expect_alike (token : Token) (wanted : String) : Alike R E (expect token wanted) (expect token wanted) :=
  .bind (peek_alike parallel) fun _ => .ite parallel.advance (unexpected_alike parallel wanted)

theorem identifier_alike (wanted : String) : Alike R E (identifier wanted) (identifier wanted) := by
  apply Alike.bind (peek_alike parallel)
  intro token
  cases token with
  | ident name => exact .bind parallel.advance fun _ => .pure name
  | _ => exact unexpected_alike parallel wanted

theorem operator_alike (wanted : String) : Alike R E (operator wanted) (operator wanted) := by
  apply Alike.bind (peek_alike parallel)
  intro token
  cases token.symbol? with
  | some symbol => exact .bind parallel.advance fun _ => .pure symbol
  | none => exact unexpected_alike parallel wanted

theorem many_alike {step other : List α → Parse (Option α)} (alike : ∀ before, Alike R E (step before) (other before))
    (before : List α) : Alike R E (many step before) (many other before) := by
  intro left right related
  induction length : left.remaining using Nat.strongRecOn generalizing before left right with
  | ind length ih =>
    subst length
    have outcomes := alike before left right related
    rw [many, many, ← parallel.remaining related]
    generalize step before left = one, other before right = two at outcomes ⊢
    cases outcomes with
    | error stopped => exact .error stopped
    | @ok found leftAfter rightAfter after =>
      cases found with
      | none => exact .ok after
      | some item =>
        simp only [← parallel.remaining after]
        split
        · next moved =>
          have outcomes := ih _ moved (item :: before) _ _ after rfl
          generalize many step (item :: before) leftAfter = one, many other (item :: before) rightAfter = two
            at outcomes ⊢
          cases outcomes with
          | ok related => exact .ok related
          | error stopped => exact .error stopped
        · exact .ok after

end Steps

section Expressions

variable (parallel : Cursor.Parallel R E) {table other : OperatorTable} {operand counterpart : Parse Expr}
  (alike : Alike R E operand counterpart)

include parallel alike

/-- A bound below zero lets tokens through that are no operators; then the fault that this is must be covered too. -/
theorem link?_alike {bound : Int} (comparable : table.Comparable R bound other)
    (internal : 0 ≤ bound ∨ ∀ fault left right, R left right → E (.internal fault) left right) :
    Alike R E (link? table operand bound) (link? other counterpart bound) := by
  intro left right related
  simp only [link?, peek_bind]
  rcases comparable left right related with same | ⟨below, belowToo⟩
  · rw [← same, ← parallel.current related]
    by_cases below : table.precedence left.current < bound
    · rw [if_pos below, if_pos below]
      exact .ok related
    rw [if_neg below, if_neg below]
    by_cases operator : ∃ symbol, left.current = .char symbol
    · obtain ⟨symbol, here⟩ := operator
      rw [here]
      exact Alike.bind parallel.advance (fun _ => .bind alike fun _ => .pure _) left right related
    · have noChar : ∀ symbol, left.current ≠ .char symbol := fun symbol here => operator ⟨symbol, here⟩
      have covered := internal.resolve_left fun notNegative =>
        below (Int.lt_of_lt_of_le (OperatorTable.precedence_neg noChar) notNegative)
      cases here : left.current with
      | char symbol => exact absurd here (noChar symbol)
      | _ => exact .error (covered _ _ _ related)
  · rw [if_pos below, if_pos belowToo]
    exact .ok related

theorem chain_alike {bound : Int} (comparable : table.Comparable R bound other)
    (internal : 0 ≤ bound ∨ ∀ fault left right, R left right → E (.internal fault) left right) (first : Expr) :
    Alike R E (chain table operand bound first) (chain other counterpart bound first) :=
  .bind (many_alike parallel (fun _ => link?_alike parallel alike comparable internal) []) fun _ => .pure _

variable (comparable : table.Comparable R 0 other)

include comparable

theorem expression_alike : Alike R E (expression table operand) (expression other counterpart) :=
  .bind alike fun first => chain_alike parallel alike comparable (.inl (Int.le_refl 0)) first

theorem nextArgument_alike : Alike R E (nextArgument table operand) (nextArgument other counterpart) := by
  apply Alike.bind (peek_alike parallel)
  intro _
  apply Alike.ite (.pure none)
  apply Alike.bind (peek_alike parallel)
  intro _
  refine .ite ?_ (unexpected_alike parallel _)
  exact .bind parallel.advance fun _ => .bind (expression_alike parallel alike comparable) fun _ => .pure _

theorem arguments_alike : Alike R E (arguments table operand) (arguments other counterpart) := by
  apply Alike.bind (peek_alike parallel)
  intro _
  apply Alike.ite (.pure [])
  apply Alike.bind (expression_alike parallel alike comparable)
  intro first
  exact .bind (many_alike parallel (fun _ => nextArgument_alike parallel alike comparable) []) fun _ => .pure _

theorem nameOrCall_alike (name : String) :
    Alike R E (nameOrCall table operand name) (nameOrCall other counterpart name) := by
  refine .bind parallel.advance fun _ => .bind (peek_alike parallel) fun _ => .ite ?_ (.pure _)
  exact .bind parallel.advance fun _ => .bind (arguments_alike parallel alike comparable) fun _ =>
    .bind parallel.advance fun _ => .pure _

theorem parenthesized_alike : Alike R E (parenthesized table operand) (parenthesized other counterpart) :=
  .bind parallel.advance fun _ => .bind (expression_alike parallel alike comparable) fun _ =>
    .bind (expect_alike parallel _ _) fun _ => .pure _

theorem ifElse_alike : Alike R E (ifElse table operand) (ifElse other counterpart) := by
  have expression := expression_alike parallel alike comparable
  refine .bind parallel.advance fun _ => .bind expression fun _ => .bind (expect_alike parallel _ _) fun _ => ?_
  exact .bind expression fun _ => .bind (expect_alike parallel _ _) fun _ => .bind expression fun _ => .pure _

theorem step?_alike : Alike R E (step? table operand) (step? other counterpart) := by
  apply Alike.bind (peek_alike parallel)
  intro _
  refine .ite ?_ (.pure none)
  exact .bind parallel.advance fun _ => .bind (expression_alike parallel alike comparable) fun _ => .pure _

theorem forIn_alike : Alike R E (Grammar.forIn table operand) (Grammar.forIn other counterpart) := by
  have expression := expression_alike parallel alike comparable
  refine .bind parallel.advance fun _ => .bind (identifier_alike parallel _) fun _ => ?_
  refine .bind (expect_alike parallel _ _) fun _ => .bind expression fun _ => ?_
  refine .bind (expect_alike parallel _ _) fun _ => .bind expression fun _ => ?_
  refine .bind (step?_alike parallel alike comparable) fun _ => .bind (expect_alike parallel _ _) fun _ => ?_
  exact .bind expression fun _ => .pure _

theorem binding_alike : Alike R E (binding table operand) (binding other counterpart) := by
  refine .bind (identifier_alike parallel _) fun _ => .bind (peek_alike parallel) fun _ => .ite ?_ (.pure _)
  exact .bind parallel.advance fun _ => .bind (expression_alike parallel alike comparable) fun _ => .pure _

theorem nextBinding_alike : Alike R E (nextBinding table operand) (nextBinding other counterpart) := by
  apply Alike.bind (peek_alike parallel)
  intro _
  refine .ite ?_ (.pure none)
  exact .bind parallel.advance fun _ => .bind (binding_alike parallel alike comparable) fun _ => .pure _

theorem varIn_alike : Alike R E (varIn table operand) (varIn other counterpart) := by
  refine .bind parallel.advance fun _ => .bind (binding_alike parallel alike comparable) fun _ => ?_
  apply Alike.bind (many_alike parallel (fun _ => nextBinding_alike parallel alike comparable) [])
  intro _
  exact .bind (expect_alike parallel _ _) fun _ => .bind (expression_alike parallel alike comparable) fun _ =>
    .pure _

theorem primary_alike : Alike R E (primary table operand) (primary other counterpart) := by
  apply Alike.bind (peek_alike parallel)
  intro token
  split
  · exact nameOrCall_alike parallel alike comparable _
  · exact .bind parallel.advance fun _ => .pure _
  · exact parenthesized_alike parallel alike comparable
  · exact ifElse_alike parallel alike comparable
  · exact forIn_alike parallel alike comparable
  · exact varIn_alike parallel alike comparable
  · exact throw_alike parallel trivial

theorem prefixed_alike : Alike R E (prefixed table operand) (prefixed other counterpart) := by
  apply Alike.bind (peek_alike parallel)
  intro token
  cases token.symbol? with
  | some symbol =>
    refine .ite (primary_alike parallel alike comparable) ?_
    exact .bind parallel.advance fun _ => .bind alike fun _ => .pure _
  | none => exact primary_alike parallel alike comparable

end Expressions

section Forms

variable (parallel : Cursor.Parallel R E)

include parallel

theorem operandWithin_alike {table other : OperatorTable} (comparable : table.Comparable R 0 other) (levels : Nat) :
    Alike R E (operandWithin table levels) (operandWithin other levels) := by
  induction levels with
  | zero => exact throw_alike parallel trivial
  | succ levels ih => exact prefixed_alike parallel ih comparable

theorem body_alike {table other : OperatorTable} (comparable : table.Comparable R 0 other) :
    Alike R E (expression table (outerOperand table)) (expression other (outerOperand other)) :=
  expression_alike parallel (operandWithin_alike parallel comparable maxNesting) comparable

theorem precedence_alike : Alike R E precedence precedence := by
  apply Alike.bind (peek_alike parallel)
  intro token
  cases token with
  | number value =>
    dsimp only
    split
    · exact .bind parallel.advance fun _ => .pure _
    · exact throw_alike parallel trivial
  | _ => exact .pure _

theorem heading_alike : Alike R E heading heading := by
  apply Alike.bind (peek_alike parallel)
  intro token
  split
  · exact .bind parallel.advance fun _ => .pure _
  · exact .bind parallel.advance fun _ => .bind (operator_alike parallel _) fun _ => .pure _
  · exact .bind parallel.advance fun _ => .bind (operator_alike parallel _) fun _ =>
      .bind (precedence_alike parallel) fun _ => .pure _
  · exact unexpected_alike parallel _

theorem parameter?_alike (name : String) (before : List String) :
    Alike R E (parameter? name before) (parameter? name before) := by
  apply Alike.bind (peek_alike parallel)
  intro token
  cases token with
  | ident param => exact .ite (throw_alike parallel trivial) (.bind parallel.advance fun _ => .pure _)
  | _ => exact .pure none

theorem checkArity_alike (proto : Prototype) : Alike R E (checkArity proto) (checkArity proto) := by
  unfold checkArity
  split
  · exact .pure proto
  · exact .ite (.pure proto) (throw_alike parallel trivial)

theorem prototype_alike : Alike R E prototype prototype := by
  refine .bind (heading_alike parallel) fun ⟨name, _, _⟩ => .bind (expect_alike parallel _ _) fun _ => ?_
  apply Alike.bind (many_alike parallel (parameter?_alike parallel name) [])
  intro _
  exact .bind (expect_alike parallel _ _) fun _ => checkArity_alike parallel _

theorem external_alike : Alike R E external external :=
  .bind parallel.advance fun _ => prototype_alike parallel

variable {table other : OperatorTable} (comparable : table.Comparable R 0 other)

include comparable

theorem definition_alike : Alike R E (definition table) (definition other) :=
  .bind parallel.advance fun _ => .bind (prototype_alike parallel) fun _ =>
    .bind (body_alike parallel comparable) fun _ => .pure _

theorem topLevel_alike : Alike R E (topLevel table) (topLevel other) :=
  .bind (body_alike parallel comparable) fun _ => .pure _

end Forms

end Grammar

/-! ## What steps keep -/

/-- A success on a cursor of which `P` holds, or an error that stops on a cursor as `Q` says of this error. -/
inductive Keeping (P : Cursor → Prop) (Q : Error → Cursor → Prop) : EStateM.Result Error Cursor α → Prop
  | ok {value : α} {next : Cursor} (holds : P next) : Keeping P Q (.ok value next)
  | error {fault : Error} {stopped : Cursor} (said : Q fault stopped) : Keeping P Q (.error fault stopped)

variable {P : Cursor → Prop} {Q : Error → Cursor → Prop}

/-- What every step keeps goes side by side with itself. -/
theorem Cursor.Parallel.ofKeeping (kept : ∀ cursor, P cursor → Keeping P Q (Cursor.advance cursor))
    (raised : ∀ fault : Error, fault.IsGrammatical → ∀ cursor, P cursor → Q fault cursor) :
    Cursor.Parallel (fun left right => left = right ∧ P left) fun fault left _ => Q fault left where
  current related := congrArg Cursor.current related.1
  remaining related := congrArg Cursor.remaining related.1
  advance := by
    rintro cursor _ ⟨rfl, holds⟩
    have outcome := kept cursor holds
    generalize Cursor.advance cursor = result at outcome ⊢
    cases outcome with
    | ok holds => exact .ok ⟨rfl, holds⟩
    | error said => exact .error said
  raise isGrammatical _ _ related := raised _ isGrammatical _ related.2

theorem Alike.keeping {production : Parse α}
    (alike : Alike (fun left right => left = right ∧ P left) (fun fault left _ => Q fault left) production production)
    {cursor : Cursor} (holds : P cursor) : Keeping P Q (production cursor) := by
  have outcomes := alike cursor cursor ⟨rfl, holds⟩
  generalize production cursor = one at outcomes ⊢
  cases outcomes with
  | ok related => exact .ok related.2
  | error said => exact .error said

end OpLang

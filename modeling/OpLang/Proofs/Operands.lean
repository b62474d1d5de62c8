import OpLang.Grammar.Declaration
import OpLang.Proofs.Climbing
import OpLang.Proofs.Run

/-! # Operands of productions

The productions of expressions are given relative to an operand. Seen from there a production is made of steps of
the cursor, errors about tokens, operands, sequences and repetitions, and this says all about the use that it makes
of its operand. It consults the operand at some cursors, one after the other; it fails with the error of one of them
if there is such an error; and it is the same whatever the operand does where it is not consulted.
-/

namespace OpLang

/-- The error is not about depth. -/
def Error.IsShallow : Error → Prop
  | .nestingTooDeep _ => False
  | _ => True

namespace Grammar

variable {α β : Type}

/-- A production that takes operands to be what it is given, and otherwise steps forward, refuses tokens, and repeats. -/
inductive Assembled : {α : Type} → (Parse Expr → Parse α) → Prop
  | pure {α : Type} (value : α) : Assembled fun _ => pure value
  | throw {α : Type} {fault : Error} (shallow : fault.IsShallow) : Assembled fun _ => (throw fault : Parse α)
  | peek : Assembled fun _ => peek
  | advance : Assembled fun _ => Cursor.advance
  | operand : Assembled fun operand => operand
  | bind {α β : Type} {first : Parse Expr → Parse α} {second : α → Parse Expr → Parse β} (before : Assembled first)
      (after : ∀ value, Assembled (second value)) :
      Assembled fun operand => first operand >>= fun value => second value operand
  | many {α : Type} {step : Parse Expr → Parse (Option α)} (each : Assembled step) (before : List α) :
      Assembled fun operand => many (fun _ => step operand) before

/-! ## Consulting operands -/

/-- The operand, except that it fails at one cursor. -/
def failingAt (operand : Parse Expr) (inner : Cursor) (fault : Error) (stopped : Cursor) : Parse Expr :=
  fun cursor => if cursor = inner then .error fault stopped else operand cursor

/-- Started at the first cursor, the production comes to read an operand at the second one. No production catches an
error, so this is where it would fail if that operand failed, with whatever error and wherever it stopped. -/
def Consults (production : Parse Expr → Parse α) (operand : Parse Expr) (cursor inner : Cursor) : Prop :=
  ∀ fault stopped, production (failingAt operand inner fault stopped) cursor = .error fault stopped

section Consulting

variable {production : Parse Expr → Parse α} {operand other : Parse Expr} {cursor inner stopped : Cursor}
  {fault : Error}

theorem failingAt_self : failingAt operand inner fault stopped inner = .error fault stopped := if_pos rfl

theorem failingAt_of_ne (apart : cursor ≠ inner) : failingAt operand inner fault stopped cursor = operand cursor :=
  if_neg apart

theorem failingAt_eq (failed : operand inner = .error fault stopped) :
    failingAt operand inner fault stopped = operand := by
  funext cursor
  by_cases here : cursor = inner
  · rw [here, failingAt_self, failed]
  · exact failingAt_of_ne here

theorem Consults.error (consults : Consults production operand cursor inner)
    (failed : operand inner = .error fault stopped) : production operand cursor = .error fault stopped := by
  rw [← failingAt_eq failed]
  exact consults fault stopped

/-- Where two operands make a difference to the production, they differ at a cursor where it consults the first. -/
def Sequential (production : Parse Expr → Parse α) : Prop :=
  ∀ cursor operand other, production operand cursor ≠ production other cursor →
    ∃ inner, Consults production operand cursor inner ∧ operand inner ≠ other inner

namespace Sequential

/-- A failure of the operand at one cursor either makes no difference or is the failure of the production. -/
theorem failingAt_cases (sequential : Sequential production) (operand : Parse Expr) (cursor inner : Cursor)
    (fault : Error) (stopped : Cursor) :
    production (failingAt operand inner fault stopped) cursor = production operand cursor ∨
      production (failingAt operand inner fault stopped) cursor = .error fault stopped := by
  by_cases same : production (failingAt operand inner fault stopped) cursor = production operand cursor
  · exact .inl same
  obtain ⟨consulted, consults, differ⟩ := sequential _ _ _ same
  by_cases here : consulted = inner
  · subst here
    exact .inr (consults.error failingAt_self)
  · exact absurd (failingAt_of_ne here) differ

theorem bind {first : Parse Expr → Parse α} {second : α → Parse Expr → Parse β} (before : Sequential first)
    (after : ∀ value, Sequential (second value)) :
    Sequential fun operand => first operand >>= fun value => second value operand := by
  intro cursor operand other differ
  by_cases same : first operand cursor = first other cursor
  · cases outcome : first operand cursor with
    | error fault stopped =>
      rw [outcome] at same
      simp only [Bind.bind, EStateM.bind, outcome, ← same, ne_eq, not_true_eq_false] at differ
    | ok value next =>
      rw [outcome] at same
      simp only [Bind.bind, EStateM.bind, outcome, ← same] at differ
      obtain ⟨inner, consults, apart⟩ := after value next operand other differ
      refine ⟨inner, fun fault stopped => ?_, apart⟩
      simp only [Bind.bind, EStateM.bind]
      rcases before.failingAt_cases operand cursor inner fault stopped with unmoved | failed
      · rw [unmoved, outcome]
        exact consults fault stopped
      · rw [failed]
  · obtain ⟨inner, consults, apart⟩ := before cursor operand other same
    refine ⟨inner, fun fault stopped => ?_, apart⟩
    simp only [Bind.bind, EStateM.bind, consults fault stopped]

theorem many {step : Parse Expr → Parse (Option α)} (each : Sequential step) (before : List α) :
    Sequential fun operand => many (fun _ => step operand) before := by
  intro cursor operand other differ
  dsimp only at differ
  induction length : cursor.remaining using Nat.strongRecOn generalizing before cursor with
  | ind length ih =>
    subst length
    by_cases same : step operand cursor = step other cursor
    · rw [Grammar.many, Grammar.many, ← same] at differ
      cases outcome : step operand cursor with
      | error fault stopped => simp only [outcome, ne_eq, not_true_eq_false] at differ
      | ok found next =>
        cases found with
        | none => simp only [outcome, ne_eq, not_true_eq_false] at differ
        | some item =>
          by_cases moved : next.remaining < cursor.remaining
          · simp only [outcome, if_pos moved] at differ
            -- the step has come to the same item, so it is the items behind it that differ
            have later : Grammar.many (fun _ => step operand) (item :: before) next ≠
                Grammar.many (fun _ => step other) (item :: before) next := fun same => differ (by rw [same])
            obtain ⟨inner, consults, apart⟩ := ih _ moved (item :: before) next later rfl
            refine ⟨inner, fun fault stopped => ?_, apart⟩
            dsimp only
            rw [Grammar.many]
            rcases each.failingAt_cases operand cursor inner fault stopped with unmoved | failed
            · have rest := consults fault stopped
              dsimp only at rest
              simp only [unmoved, outcome, if_pos moved, rest]
            · simp only [failed]
          · simp only [outcome, if_neg moved, ne_eq, not_true_eq_false] at differ
    · obtain ⟨inner, consults, apart⟩ := each cursor operand other same
      refine ⟨inner, fun fault stopped => ?_, apart⟩
      dsimp only
      rw [Grammar.many]
      simp only [consults fault stopped]

end Sequential

end Consulting

namespace Assembled

variable {production : Parse Expr → Parse α}

theorem sequential (assembled : Assembled production) : Sequential production := by
  induction assembled with
  | pure | throw | peek | advance => exact fun _ _ _ differ => absurd rfl differ
  | operand => exact fun cursor _ _ differ => ⟨cursor, fun _ _ => failingAt_self, differ⟩
  | bind _ _ before after => exact before.bind after
  | many _ before each => exact each.many before

/-- What steps and operands keep, and errors about tokens say where they are raised, the production keeps. -/
theorem keeping {P : Cursor → Prop} {Q : Error → Cursor → Prop} {operand : Parse Expr}
    (assembled : Assembled production)
    (advance : ∀ cursor, P cursor → Keeping P Q (Cursor.advance cursor))
    (raise : ∀ fault : Error, fault.IsShallow → ∀ cursor, P cursor → Q fault cursor)
    (inside : ∀ cursor, P cursor → Keeping P Q (operand cursor)) {cursor : Cursor} (holds : P cursor) :
    Keeping P Q (production operand cursor) := by
  induction assembled generalizing cursor with
  | pure | peek => exact .ok holds
  | throw shallow => exact .error (raise _ shallow _ holds)
  | advance => exact advance cursor holds
  | operand => exact inside cursor holds
  | @bind _ _ first _ _ _ before after =>
    have outcome := before holds
    simp only [Bind.bind, EStateM.bind]
    generalize first operand cursor = result at outcome ⊢
    cases outcome with
    | ok holds => exact after _ holds
    | error said => exact .error said
  | @many _ step _ before each =>
    induction length : cursor.remaining using Nat.strongRecOn generalizing before cursor with
    | ind length ih =>
      subst length
      have outcome := each holds
      dsimp only
      rw [Grammar.many]
      generalize step operand cursor = result at outcome ⊢
      cases outcome with
      | error said => exact .error said
      | @ok found next holds =>
        cases found with
        | none => exact .ok holds
        | some item =>
          dsimp only
          split
          · next moved =>
            have outcome := ih _ moved (item :: before) holds rfl
            dsimp only at outcome
            generalize Grammar.many (fun _ => step operand) (item :: before) next = result at outcome ⊢
            cases outcome with
            | ok holds => exact .ok holds
            | error said => exact .error said
          · exact .ok holds

theorem ite {condition : Prop} [Decidable condition] {first second : Parse Expr → Parse α}
    (positive : Assembled first) (negative : Assembled second) :
    Assembled fun operand => if condition then first operand else second operand := by
  by_cases holds : condition
  · simpa only [if_pos holds] using positive
  · simpa only [if_neg holds] using negative

end Assembled

/-! ## The productions of expressions -/

theorem unexpected_assembled (wanted : String) : Assembled fun _ => (unexpected wanted : Parse α) :=
  .bind .peek fun _ => .throw trivial

theorem expect_assembled (token : Token) (wanted : String) : Assembled fun _ => expect token wanted :=
  .bind .peek fun _ => .ite .advance (unexpected_assembled wanted)

theorem identifier_assembled (wanted : String) : Assembled fun _ => identifier wanted := by
  apply Assembled.bind .peek
  intro token
  cases token with
  | ident name => exact .bind .advance fun _ => .pure name
  | _ => exact unexpected_assembled wanted

/-- A production that takes the token for granted at which it stands, and steps past it. -/
def StepsIn (production : Parse Expr → Parse α) : Prop :=
  ∃ rest : Parse Expr → Parse α, Assembled rest ∧
    ∀ operand, production operand = (do Cursor.advance; rest operand)

section Productions

variable (table : OperatorTable)

theorem link?_assembled (bound : Int) : Assembled fun operand => link? table operand bound := by
  refine .bind .peek fun token => .ite (.pure none) ?_
  cases token with
  | char symbol => exact .bind .advance fun _ => .bind .operand fun _ => .pure _
  | _ => exact .throw trivial

theorem expression_assembled : Assembled (expression table) :=
  .bind .operand fun _ => .bind (.many (link?_assembled table 0) []) fun _ => .pure _

theorem nextArgument_assembled : Assembled (nextArgument table) := by
  refine .bind .peek fun _ => .ite (.pure none) (.bind .peek fun _ => .ite ?_ (unexpected_assembled _))
  exact .bind .advance fun _ => .bind (expression_assembled table) fun _ => .pure _

theorem arguments_assembled : Assembled (arguments table) := by
  refine .bind .peek fun _ => .ite (.pure []) (.bind (expression_assembled table) fun first => ?_)
  exact .bind (.many (nextArgument_assembled table) []) fun _ => .pure _

theorem step?_assembled : Assembled (step? table) := by
  refine .bind .peek fun _ => .ite ?_ (.pure none)
  exact .bind .advance fun _ => .bind (expression_assembled table) fun _ => .pure _

theorem binding_assembled : Assembled (binding table) := by
  refine .bind (identifier_assembled _) fun _ => .bind .peek fun _ => .ite ?_ (.pure _)
  exact .bind .advance fun _ => .bind (expression_assembled table) fun _ => .pure _

theorem nextBinding_assembled : Assembled (nextBinding table) := by
  refine .bind .peek fun _ => .ite ?_ (.pure none)
  exact .bind .advance fun _ => .bind (binding_assembled table) fun _ => .pure _

theorem nameOrCall_stepsIn (name : String) : StepsIn fun operand => nameOrCall table operand name := by
  refine ⟨_, ?_, fun _ => rfl⟩
  refine .bind .peek fun _ => .ite ?_ (.pure _)
  exact .bind .advance fun _ => .bind (arguments_assembled table) fun _ => .bind .advance fun _ => .pure _

theorem parenthesized_stepsIn : StepsIn (parenthesized table) := by
  refine ⟨_, ?_, fun _ => rfl⟩
  exact .bind (expression_assembled table) fun _ => .bind (expect_assembled _ _) fun _ => .pure _

theorem ifElse_stepsIn : StepsIn (ifElse table) := by
  have expression := expression_assembled table
  refine ⟨_, ?_, fun _ => rfl⟩
  refine .bind expression fun _ => .bind (expect_assembled _ _) fun _ => .bind expression fun _ => ?_
  exact .bind (expect_assembled _ _) fun _ => .bind expression fun _ => .pure _

theorem forIn_stepsIn : StepsIn (Grammar.forIn table) := by
  have expression := expression_assembled table
  refine ⟨_, ?_, fun _ => rfl⟩
  refine .bind (identifier_assembled _) fun _ => .bind (expect_assembled _ _) fun _ => .bind expression fun _ => ?_
  refine .bind (expect_assembled _ _) fun _ => .bind expression fun _ => .bind (step?_assembled table) fun _ => ?_
  exact .bind (expect_assembled _ _) fun _ => .bind expression fun _ => .pure _

theorem varIn_stepsIn : StepsIn (varIn table) := by
  refine ⟨_, ?_, fun _ => rfl⟩
  refine .bind (binding_assembled table) fun _ => .bind (.many (nextBinding_assembled table) []) fun _ => ?_
  exact .bind (expect_assembled _ _) fun _ => .bind (expression_assembled table) fun _ => .pure _

/-- From the cursor the production refuses the token there, or it goes on behind it. -/
inductive Opens (production : Parse Expr → Parse α) (cursor : Cursor) : Prop
  | refuses {fault : Error} (failed : ∀ operand, production operand cursor = .error fault cursor)
      (shallow : fault.IsShallow)
  | passes {rest : Parse Expr → Parse α} (inside : cursor.current ≠ .endOfInput) (assembled : Assembled rest)
      (goesOn : ∀ operand, production operand cursor = (do Cursor.advance; rest operand : Parse α) cursor)

theorem StepsIn.opens {production other : Parse Expr → Parse α} {cursor : Cursor} (stepsIn : StepsIn other)
    (inside : cursor.current ≠ .endOfInput) (chosen : ∀ operand, production operand cursor = other operand cursor) :
    Opens production cursor := by
  obtain ⟨rest, assembled, goesOn⟩ := stepsIn
  exact .passes inside assembled fun operand => by rw [chosen, goesOn]

theorem primary_opens (cursor : Cursor) : Opens (primary table) cursor := by
  have chosen (operand : Parse Expr) : primary table operand cursor = _ := peek_bind _
  have refused (failed : ∀ operand,
      primary table operand cursor = .error (.unknownToken cursor.current.describe) cursor) :
      Opens (primary table) cursor := .refuses failed trivial
  cases here : cursor.current with
  | ident name =>
    exact (nameOrCall_stepsIn table name).opens (here ▸ Token.noConfusion) fun operand => by rw [chosen, here]
  | number value =>
    exact .passes (here ▸ Token.noConfusion) (.pure (.number value)) fun operand => by rw [chosen, here]
  | char symbol =>
    by_cases parenthesis : symbol = '('
    · subst parenthesis
      exact (parenthesized_stepsIn table).opens (here ▸ Token.noConfusion) fun operand => by rw [chosen, here]; rfl
    · refine refused fun operand => ?_
      have refusal : primary table operand cursor =
          (throw (.unknownToken (Token.char symbol).describe) : Parse Expr) cursor := by
        simp [primary, peek_bind, here, parenthesis]
      rw [refusal, here]
      rfl
  | keyword word =>
    cases word with
    | ifWord => exact (ifElse_stepsIn table).opens (here ▸ Token.noConfusion) fun operand => by rw [chosen, here]
    | forWord => exact (forIn_stepsIn table).opens (here ▸ Token.noConfusion) fun operand => by rw [chosen, here]
    | varWord => exact (varIn_stepsIn table).opens (here ▸ Token.noConfusion) fun operand => by rw [chosen, here]
    | _ => exact refused fun operand => by rw [chosen, here]; rfl
  | endOfInput => exact refused fun operand => by rw [chosen, here]; rfl

theorem prefixed_opens (cursor : Cursor) : Opens (prefixed table) cursor := by
  have chosen (operand : Parse Expr) : prefixed table operand cursor = _ := peek_bind _
  have unprefixed (same : ∀ operand, prefixed table operand cursor = primary table operand cursor) :
      Opens (prefixed table) cursor := by
    cases primary_opens table cursor with
    | refuses failed shallow => exact .refuses (fun operand => (same operand).trans (failed operand)) shallow
    | passes inside assembled goesOn =>
      exact .passes inside assembled fun operand => (same operand).trans (goesOn operand)
  cases isSymbol : cursor.current.symbol? with
  | none => exact unprefixed fun operand => by rw [chosen, isSymbol]
  | some symbol =>
    obtain ⟨here, _⟩ := Token.symbol?_eq_some_iff.mp isSymbol
    by_cases reserved : (symbol = '(' || symbol = ',') = true
    · exact unprefixed fun operand => by rw [chosen, isSymbol]; exact congrFun (if_pos reserved) cursor
    · refine .passes (here ▸ Token.noConfusion) (.bind .operand fun expr => .pure (.unary symbol expr)) fun operand => ?_
      rw [chosen, isSymbol]
      exact congrFun (if_neg reserved) cursor

end Productions

section Opening

variable {production : Parse Expr → Parse α}

/-- From each cursor such a production is an assembled one. -/
theorem Opens.assembled {cursor : Cursor} (opens : Opens production cursor) :
    ∃ branch : Parse Expr → Parse α, Assembled branch ∧ ∀ operand, production operand cursor = branch operand cursor := by
  cases opens with
  | refuses failed shallow => exact ⟨_, .throw shallow, failed⟩
  | passes _ assembled goesOn => exact ⟨_, .bind .advance fun _ => assembled, goesOn⟩

theorem sequential_of_opens (opens : ∀ cursor, Opens production cursor) : Sequential production := by
  intro cursor operand other differ
  obtain ⟨branch, assembled, same⟩ := (opens cursor).assembled
  rw [same, same] at differ
  obtain ⟨inner, consults, apart⟩ := assembled.sequential cursor operand other differ
  exact ⟨inner, fun fault stopped => (same _).trans (consults fault stopped), apart⟩

/-- The errors that steps and tokens give, and nothing taken back: no more remains than the bound allows. -/
abbrev Calm (bound : Nat) : EStateM.Result Error Cursor α → Prop :=
  Keeping (fun next => next.remaining ≤ bound) fun fault stopped => fault.IsShallow ∧ stopped.remaining ≤ bound

theorem Calm.mono {bound wider : Nat} {outcome : EStateM.Result Error Cursor α} (calm : Calm bound outcome)
    (le : bound ≤ wider) : Calm wider outcome := by
  cases calm with
  | ok holds => exact .ok (Nat.le_trans holds le)
  | error said => exact .error ⟨said.1, Nat.le_trans said.2 le⟩

theorem calm_advance (cursor : Cursor) : Calm cursor.remaining (Cursor.advance cursor) := by
  have kept := cursor.remaining_stoppedAt_advance
  cases step : Cursor.advance cursor with
  | ok _ next =>
    rw [step] at kept
    exact .ok kept
  | error fault stopped =>
    obtain ⟨_, _, _, _, rfl, _⟩ := Cursor.advance_error step
    rw [step] at kept
    exact .error ⟨trivial, kept⟩

theorem Assembled.calm (assembled : Assembled production) {operand : Parse Expr} {cursor : Cursor} {bound : Nat}
    (inside : ∀ cursor, cursor.remaining ≤ bound → Calm bound (operand cursor)) (within : cursor.remaining ≤ bound) :
    Calm bound (production operand cursor) :=
  assembled.keeping (fun _ within => (calm_advance _).mono within) (fun _ shallow _ within => ⟨shallow, within⟩) inside
    within

theorem Opens.calm {operand : Parse Expr} {cursor : Cursor} {bound : Nat} (opens : Opens production cursor)
    (inside : ∀ cursor, cursor.remaining ≤ bound → Calm bound (operand cursor)) (within : cursor.remaining ≤ bound) :
    Calm bound (production operand cursor) := by
  obtain ⟨branch, assembled, same⟩ := opens.assembled
  rw [same]
  exact assembled.calm inside within

/-- An operand that takes nothing back is consulted behind the token at which such a production begins. -/
theorem Opens.remaining_lt {operand : Parse Expr} {cursor inner : Cursor} (opens : Opens production cursor)
    (calm : ∀ cursor, Calm cursor.remaining (operand cursor))
    (consults : Consults production operand cursor inner) : inner.remaining < cursor.remaining := by
  cases opens with
  | refuses failed =>
    -- the error is the same whatever the operand does, so it is none of the operand
    cases (failed _).symm.trans (consults (.internal "") cursor)
    cases (failed _).symm.trans (consults (.redefinition "") cursor)
  | @passes rest inside assembled goesOn =>
    have fails (fault : Error) := (goesOn _).symm.trans (consults fault inner)
    cases step : Cursor.advance cursor with
    | error fault stopped =>
      cases (bind_of_error step _).symm.trans (fails (.internal ""))
      cases (bind_of_error step _).symm.trans (fails (.redefinition ""))
    | ok _ next =>
      refine Nat.lt_of_le_of_lt ?_ ((Cursor.remaining_advance step).2 inside)
      have failed := (bind_of_ok step _).symm.trans (fails (.internal ""))
      have kept : Calm next.remaining (rest (failingAt operand inner (.internal "") inner) next) := by
        refine assembled.calm (fun here within => ?_) (Nat.le_refl _)
        by_cases same : here = inner
        · rw [same, failingAt_self]
          exact .error ⟨trivial, same ▸ within⟩
        · rw [failingAt_of_ne same]
          exact (calm here).mono within
      rw [failed] at kept
      cases kept with
      | error said => exact said.2

end Opening

end Grammar

end OpLang

import OpLang.Proofs.Crossing
import OpLang.Proofs.Phrase

/-! # Expressions are read exactly

A production is exact for a phrase if its successful runs are the phrases: it succeeds just where a phrase
stands, with the value of the phrase, and leaves the cursor on the token after it. Each production of
expressions is exact relative to an exact operand, and so operands are exact at every level.
-/

namespace OpLang

/-- The tokens over which the production succeeds are the phrases, given the token it stops on. -/
abbrev Grammar.Exact {α : Type} (production : Parse α) (phrase : Phrase α) : Prop :=
  ∀ cursor last value, production cursor = .ok value last ↔
    ∃ tokens, cursor.Crosses tokens last ∧ phrase tokens value last.current

/-- A token is an infix operator as far as the precedence that the table reports for it is not negative. -/
theorem OperatorTable.infix_iff {table : OperatorTable} {token : Token} {precedence : Int} :
    table.Infix token precedence ↔ table.precedence token = precedence ∧ 0 ≤ precedence := by
  constructor
  · rintro ⟨symbol, rfl, ascii, declared, notNegative⟩
    have isSymbol : (Token.char symbol).symbol? = some symbol :=
      Token.symbol?_eq_some_iff.mpr ⟨rfl, ascii⟩
    simp only [OperatorTable.precedence, isSymbol, declared, Option.getD_some]
    exact ⟨trivial, notNegative⟩
  · rintro ⟨reported, notNegative⟩
    cases isSymbol : token.symbol? with
    | none =>
      simp only [OperatorTable.precedence, isSymbol, noPrecedence] at reported
      omega
    | some symbol =>
      obtain ⟨here, ascii⟩ := Token.symbol?_eq_some_iff.mp isSymbol
      refine ⟨symbol, here, ascii, ?_, notNegative⟩
      cases declared : table.precedence? symbol with
      | none =>
        simp only [OperatorTable.precedence, isSymbol, declared, Option.getD_none, noPrecedence] at reported
        omega
      | some found =>
        simpa only [OperatorTable.precedence, isSymbol, declared, Option.getD_some, Option.some.injEq]
          using reported

theorem OperatorTable.forall_not_infix_iff {table : OperatorTable} {token : Token} :
    (∀ precedence, ¬ table.Infix token precedence) ↔ table.precedence token < 0 := by
  simp only [infix_iff, not_and, forall_eq', Int.not_le]

namespace Phrase.Repeated

variable {α : Type} {item : Phrase α} {ends stops : Token → Prop} {tokens : List Token} {values : List α}
  {next : Token}

theorem imp (weaker : ends next → stops next) (items : Repeated item ends tokens values next) :
    Repeated item stops tokens values next := by
  induction items with
  | nil stop => exact .nil (weaker stop)
  | cons first _ ih => exact .cons first (ih weaker)

theorem ends_next (items : Repeated item ends tokens values next) : ends next := by
  induction items with
  | nil stop => exact stop
  | cons _ _ ih => exact ih

end Phrase.Repeated

theorem Phrase.Arguments.next_eq {table : OperatorTable} {operand : Phrase Expr} {tokens : List Token}
    {args : List Expr} {next : Token} (list : Arguments table operand tokens args next) : next = .char ')' := by
  cases list <;> rfl

namespace Grammar

open Cursor

section Many

variable {α : Type} {step : List α → Parse (Option α)} {before : List α} {cursor last : Cursor}

theorem many_nil_ok_iff : many step before cursor = .ok [] last ↔ step before cursor = .ok none last := by
  rw [many]
  cases step before cursor with
  | error fault stopped => simp
  | ok found next =>
    cases found with
    | none => simp
    | some item =>
      constructor
      · intro success
        dsimp only at success
        split at success
        · split at success <;> cases success
        · cases success
      · intro success
        cases success

/-- A repetition whose step makes progress goes on after each item. -/
theorem many_cons_ok_iff {value : α} {values : List α}
    (progress : ∀ next, step before cursor = .ok (some value) next → next.remaining < cursor.remaining) :
    many step before cursor = .ok (value :: values) last ↔
      ∃ next, step before cursor = .ok (some value) next ∧
        many step (value :: before) next = .ok values last := by
  rw [many]
  cases outcome : step before cursor with
  | error fault stopped => simp
  | ok found next =>
    cases found with
    | none => simp
    | some item =>
      dsimp only
      constructor
      · intro success
        split at success
        · next moved =>
          split at success
          · next items stopped rest =>
            cases success
            exact ⟨next, rfl, rest⟩
          · cases success
        · next stuck =>
          cases success
          exact (stuck (progress last outcome)).elim
      · rintro ⟨_, same, rest⟩
        cases same
        rw [if_pos (progress next outcome), rest]

/-- A repetition is exact if its step either meets the end or reads one more item. -/
theorem many_exact {item : Phrase α} {ends : Token → Prop}
    (done : ∀ before cursor next, step before cursor = .ok none next ↔ ends cursor.current ∧ cursor = next)
    (again : ∀ before cursor next value, step before cursor = .ok (some value) next ↔
      ∃ tokens, cursor.Crosses tokens next ∧ item tokens value next.current)
    (progress : ∀ before cursor next value, step before cursor = .ok (some value) next →
      next.remaining < cursor.remaining) :
    Exact (many step before) (.Repeated item ends) := by
  intro cursor last values
  -- by induction on what is read: the recursion of the loop itself is only about what is left
  induction values generalizing before cursor with
  | nil =>
    rw [many_nil_ok_iff, done]
    constructor
    · rintro ⟨stop, rfl⟩
      exact ⟨[], .nil cursor, .nil stop⟩
    · rintro ⟨_, crossed, ⟨stop⟩⟩
      obtain rfl := Crosses.nil_iff.mp crossed
      exact ⟨stop, rfl⟩
  | cons value values ih =>
    rw [many_cons_ok_iff (fun next => progress before cursor next value)]
    simp only [again, ih]
    constructor
    · rintro ⟨next, ⟨tokens, crossed, first⟩, later, crossedLater, rest⟩
      exact ⟨tokens ++ later, crossed.append crossedLater, .cons (crossedLater.current_eq ▸ first) rest⟩
    · rintro ⟨_, crossed, phrase⟩
      cases phrase with
      | cons first rest =>
        obtain ⟨next, crossed, crossedLater⟩ := Crosses.append_iff.mp crossed
        exact ⟨next, ⟨_, crossed, crossedLater.current_eq ▸ first⟩, _, crossedLater, rest⟩

end Many

section Productions

variable (table : OperatorTable) {operand : Parse Expr} {phrase : Phrase Expr} (exact : Exact operand phrase)

include exact

theorem link?_some_iff {cursor next : Cursor} {link : Link} :
    link? table operand 0 cursor = .ok (some link) next ↔
      ∃ tokens, cursor.Crosses tokens next ∧ Phrase.Link table phrase tokens link next.current := by
  simp only [link?, peek_bind, ite_ok_iff, pure_ok_iff, reduceCtorEq, false_and, and_false, false_or, Int.not_lt]
  constructor
  · rintro ⟨notNegative, success⟩
    have operator := OperatorTable.infix_iff.mpr ⟨rfl, notNegative⟩
    cases here : cursor.current with
    | char symbol =>
      simp only [here, bind_ok_iff, advance_ok_iff, pure_ok_iff, exact _ _ _] at success operator
      obtain ⟨_, _, step, expr, _, ⟨tokens, crossed, rhs⟩, same, rfl⟩ := success
      cases same
      exact ⟨.char symbol :: tokens, step.append crossed, .mk operator rhs⟩
    | _ =>
      obtain ⟨_, absurd, _⟩ := operator
      rw [here] at absurd
      cases absurd
  · rintro ⟨_, crossed, ⟨operator, rhs⟩⟩
    obtain ⟨here, between, step, crossed⟩ := Crosses.cons_iff.mp crossed
    obtain ⟨rfl, notNegative⟩ := OperatorTable.infix_iff.mp operator
    simp only [here, bind_ok_iff, pure_ok_iff, exact _ _ _]
    exact ⟨notNegative, (), between, step, _, next, ⟨_, crossed, rhs⟩, rfl, rfl⟩

omit exact in
theorem link?_none_iff {cursor next : Cursor} :
    link? table operand 0 cursor = .ok none next ↔
      (∀ precedence, ¬ table.Infix cursor.current precedence) ∧ cursor = next := by
  rw [OperatorTable.forall_not_infix_iff]
  simp only [link?, peek_bind, ite_ok_iff, pure_ok_iff, true_and]
  constructor
  · rintro (⟨below, same⟩ | ⟨_, success⟩)
    · exact ⟨below, same⟩
    · cases here : cursor.current with
      | char symbol =>
        simp only [here, bind_ok_iff, pure_ok_iff] at success
        obtain ⟨_, _, _, _, _, _, absurd, _⟩ := success
        cases absurd
      | _ => simp only [here, throw_ok_iff] at success
  · exact .inl

theorem expression_exact : Exact (expression table operand) (.Expression table phrase) := by
  intro cursor last value
  have links : Exact (many (fun _ => link? table operand 0) [])
      (.Repeated (.Link table phrase) fun token => ∀ precedence, ¬ table.Infix token precedence) := by
    apply many_exact (fun _ _ _ => link?_none_iff table) (fun _ _ _ _ => link?_some_iff table exact)
    intro _ cursor next value step
    obtain ⟨_, crossed, ⟨_, _⟩⟩ := (link?_some_iff table exact).mp step
    exact crossed.remaining_lt Token.noConfusion
  simp only [expression, chain, bind_ok_iff, pure_ok_iff, exact _ _ _, links _ _ _]
  constructor
  · rintro ⟨first, middle, ⟨tokens, crossed, head⟩, others, _, ⟨later, crossedLater, tail⟩, shape, rfl⟩
    exact ⟨tokens ++ later, crossed.append crossedLater,
      .chain (crossedLater.current_eq ▸ head) tail (Link.splits_iff.mpr shape)⟩
  · rintro ⟨_, crossed, ⟨head, tail, shape⟩⟩
    obtain ⟨middle, crossed, crossedLater⟩ := Crosses.append_iff.mp crossed
    exact ⟨_, middle, ⟨_, crossed, crossedLater.current_eq ▸ head⟩, _, last, ⟨_, crossedLater, tail⟩,
      Link.splits_iff.mp shape, rfl⟩

end Productions

/-! ## What a character announces -/

section Announced

variable {α : Type} {item : Parse α} {itemPhrase : Phrase α} (itemExact : Exact item itemPhrase)

include itemExact

/-- Reading on after a character announces something, and doing something else where it does not stand. -/
theorem announced_ok_iff {β : Type} {mark : Char} {wrap : α → β} {otherwise : Parse β}
    {cursor last : Cursor} {result : β} :
    (do if (← peek) = .char mark then
          Cursor.advance
          return wrap (← item)
        otherwise : Parse β) cursor = .ok result last ↔
      (∃ tokens value, cursor.Crosses tokens last ∧
        Phrase.Announced mark itemPhrase tokens value last.current ∧ wrap value = result) ∨
      cursor.current ≠ .char mark ∧ otherwise cursor = .ok result last := by
  simp only [peek_bind, bind_ok_iff, ite_ok_iff, pure_ok_iff, advance_ok_iff, itemExact _ _ _]
  constructor
  · rintro (⟨here, _, _, step, value, _, ⟨tokens, crossed, body⟩, same, rfl⟩ | other)
    · exact .inl ⟨.char mark :: tokens, value, (here ▸ step).append crossed, .mk body, same⟩
    · exact .inr other
  · rintro (⟨_, value, crossed, ⟨body⟩, same⟩ | other)
    · obtain ⟨next, step, crossed⟩ := Crosses.head_iff.mp crossed
      have here := step.current_eq
      exact .inl ⟨here, (), next, here ▸ step, value, last, ⟨_, crossed, body⟩, same, rfl⟩
    · exact .inr other

/-- A list goes on where a comma announces another item, and nowhere else. -/
theorem listed_exact (ends : Token → Prop) {otherwise : Parse (Option α)}
    (done : ∀ cursor next value, cursor.current ≠ .char ',' →
      (otherwise cursor = .ok value next ↔ ends cursor.current ∧ none = value ∧ cursor = next))
    (noComma : ¬ ends (.char ',')) :
    Exact (many (fun _ => do
        if (← peek) = .char ',' then
          Cursor.advance
          return some (← item)
        otherwise) []) (.Repeated (.Announced ',' itemPhrase) ends) := by
  have announced : ∀ cursor next value, (do
        if (← peek) = .char ',' then
          Cursor.advance
          return some (← item)
        otherwise : Parse (Option α)) cursor = .ok (some value) next ↔
      ∃ tokens, cursor.Crosses tokens next ∧ Phrase.Announced ',' itemPhrase tokens value next.current := by
    intro cursor next value
    rw [announced_ok_iff itemExact]
    constructor
    · rintro (⟨tokens, _, crossed, body, same⟩ | ⟨noMark, success⟩)
      · cases same
        exact ⟨tokens, crossed, body⟩
      · cases ((done cursor next _ noMark).mp success).2.1
    · rintro ⟨tokens, crossed, body⟩
      exact .inl ⟨tokens, value, crossed, body, rfl⟩
  apply many_exact (fun _ cursor next => ?_) (fun _ => announced)
  · intro _ cursor next value read
    obtain ⟨_, crossed, ⟨_⟩⟩ := (announced cursor next value).mp read
    exact crossed.remaining_lt Token.noConfusion
  · rw [announced_ok_iff itemExact]
    constructor
    · rintro (⟨_, _, _, _, same⟩ | ⟨noMark, success⟩)
      · cases same
      · obtain ⟨stop, _, rfl⟩ := (done cursor next _ noMark).mp success
        exact ⟨stop, rfl⟩
    · rintro ⟨stop, rfl⟩
      have noMark : cursor.current ≠ .char ',' := fun here => noComma (here ▸ stop)
      exact .inr ⟨noMark, (done cursor cursor none noMark).mpr ⟨stop, rfl, rfl⟩⟩

end Announced

/-! ## The constructs -/

section Constructs

variable (table : OperatorTable) {operand : Parse Expr} {phrase : Phrase Expr} (exact : Exact operand phrase)

include exact

theorem step?_exact : Exact (step? table operand) (.Optional ',' (.Expression table phrase)) := by
  intro cursor last value
  rw [step?, announced_ok_iff (expression_exact table exact)]
  constructor
  · rintro (⟨tokens, step, crossed, body, rfl⟩ | ⟨stop, success⟩)
    · exact ⟨tokens, crossed, .present body⟩
    · obtain ⟨rfl, rfl⟩ := pure_ok_iff.mp success
      exact ⟨[], .nil cursor, .absent stop⟩
  · rintro ⟨tokens, crossed, body⟩
    cases body with
    | absent stop =>
      obtain rfl := Crosses.nil_iff.mp crossed
      exact .inr ⟨stop, rfl⟩
    | present body => exact .inl ⟨tokens, _, crossed, body, rfl⟩

theorem binding_exact : Exact (binding table operand) (.Binding table phrase) := by
  intro cursor last value
  simp only [binding, bind_ok_iff (identifier _), identifier_ok_iff,
    announced_ok_iff (expression_exact table exact)]
  constructor
  · rintro ⟨name, next, named, ⟨tokens, init, crossed, body, rfl⟩ | ⟨stop, success⟩⟩
    · exact ⟨.ident name :: tokens, named.append crossed, .mk (.present body)⟩
    · obtain ⟨rfl, rfl⟩ := pure_ok_iff.mp success
      exact ⟨[.ident name], named, .mk (.absent stop)⟩
  · rintro ⟨_, crossed, ⟨body⟩⟩
    obtain ⟨next, named, crossed⟩ := Crosses.head_iff.mp crossed
    refine ⟨_, next, named, ?_⟩
    cases body with
    | absent stop =>
      obtain rfl := Crosses.nil_iff.mp crossed
      exact .inr ⟨stop, rfl⟩
    | present body => exact .inl ⟨_, _, crossed, body, rfl⟩

omit exact in
/-- A closing parenthesis is no comma, so it does not matter which of the two is looked for first. -/
private theorem nextArgument_eq : nextArgument table operand = (do
    if (← peek) = .char ',' then
      Cursor.advance
      return some (← expression table operand)
    if (← peek) = .char ')' then return none
    unexpected "')' or ',' in argument list") := by
  funext cursor
  simp only [nextArgument, peek_bind]
  by_cases closed : cursor.current = .char ')'
  · simp [closed, peek_bind]
  · by_cases comma : cursor.current = .char ',' <;> simp [closed, comma, peek_bind]

omit exact in
private theorem noArgument_ok_iff {cursor next : Cursor} {value : Option Expr} :
    (do if (← peek) = .char ')' then return none
        unexpected "')' or ',' in argument list" : Parse (Option Expr)) cursor = .ok value next ↔
      cursor.current = .char ')' ∧ none = value ∧ cursor = next := by
  simp only [peek_bind, ite_ok_iff, pure_ok_iff, unexpected_ok_iff, and_false, or_false]

theorem arguments_exact : Exact (arguments table operand) (.Arguments table phrase) := by
  intro cursor last value
  have others := listed_exact (expression_exact table exact) (· = .char ')')
    (fun _ _ _ _ => noArgument_ok_iff) (by decide)
  rw [← nextArgument_eq] at others
  simp only [arguments, peek_bind, bind_ok_iff, ite_ok_iff, pure_ok_iff, expression_exact table exact _ _ _,
    others _ _ _]
  constructor
  · rintro (⟨here, rfl, rfl⟩ |
      ⟨notClosed, first, middle, ⟨tokens, crossed, head⟩, rest, stop, ⟨later, crossedLater, tail⟩, rfl, rfl⟩)
    · exact ⟨[], .nil cursor, here ▸ .empty⟩
    · -- the token on which the first argument begins is the one at which an empty list would have closed
      have closed : stop.current = .char ')' := tail.ends_next
      rw [crossedLater.current_eq] at head
      have whole := crossed.append crossedLater
      rw [whole.current_eq] at notClosed
      rw [closed] at head tail notClosed ⊢
      exact ⟨_, whole, .some notClosed (.mk head (tail.imp fun _ => by simp))⟩
  · rintro ⟨tokens, crossed, phrase⟩
    generalize atEnd : last.current = next at phrase
    cases phrase with
    | empty =>
      obtain rfl := Crosses.nil_iff.mp crossed
      exact .inl ⟨atEnd, rfl, rfl⟩
    | some notClosed list =>
      rw [← atEnd, ← crossed.current_eq] at notClosed
      obtain ⟨head, tail⟩ := list
      obtain ⟨middle, crossed, crossedLater⟩ := Crosses.append_iff.mp crossed
      rw [← atEnd] at head tail
      exact .inr ⟨atEnd ▸ notClosed, _, middle, ⟨_, crossed, crossedLater.current_eq ▸ head⟩, _, last,
        ⟨_, crossedLater, tail.imp fun _ => atEnd⟩, rfl, rfl⟩

theorem nameOrCall_ok_iff {name : String} {cursor last : Cursor} {value : Expr} :
    nameOrCall table operand name cursor = .ok value last ↔
      ∃ tokens, cursor.Crosses (cursor.current :: tokens) last ∧
        Phrase.Primary table phrase (.ident name :: tokens) value last.current := by
  simp only [nameOrCall, peek_bind, bind_ok_iff, ite_ok_iff, pure_ok_iff, advance_ok_iff,
    arguments_exact table exact _ _ _]
  constructor
  · rintro ⟨_, next, step, ⟨opened, _, inside, openStep, args, closing, ⟨tokens, crossed, list⟩, _, stop,
      closeStep, rfl, rfl⟩ | ⟨noCall, rfl, rfl⟩⟩
    · have closed := list.next_eq
      rw [opened] at openStep
      rw [closed] at closeStep list
      exact ⟨_, step.append (openStep.append (crossed.append closeStep)), .call list⟩
    · exact ⟨[], step, .var noCall⟩
  · rintro ⟨_, crossed, body⟩
    obtain ⟨next, step, crossed⟩ := Crosses.head_iff.mp crossed
    refine ⟨(), next, step, ?_⟩
    cases body with
    | var noCall =>
      obtain rfl := Crosses.nil_iff.mp crossed
      exact .inr ⟨noCall, rfl, rfl⟩
    | call list =>
      obtain ⟨inside, openStep, crossed⟩ := Crosses.head_iff.mp crossed
      obtain ⟨closing, crossed, closeStep⟩ := Crosses.append_iff.mp crossed
      have opened := openStep.current_eq
      have closed := closeStep.current_eq
      dsimp only [List.headD_cons] at opened closed
      rw [← opened] at openStep
      rw [← closed] at closeStep list
      exact .inl ⟨opened, (), inside, openStep, _, closing, ⟨_, crossed, list⟩, (), last, closeStep, rfl, rfl⟩

theorem parenthesized_ok_iff {cursor last : Cursor} {value : Expr} :
    parenthesized table operand cursor = .ok value last ↔
      ∃ tokens, cursor.Crosses (cursor.current :: tokens) last ∧
        Phrase.Primary table phrase (.char '(' :: tokens) value last.current := by
  simp only [parenthesized, bind_ok_iff, pure_ok_iff, advance_ok_iff, expect_ok_iff,
    expression_exact table exact _ _ _]
  constructor
  · rintro ⟨_, next, step, inner, closing, ⟨tokens, crossed, body⟩, _, stop, closeStep, rfl, rfl⟩
    rw [closeStep.current_eq] at body
    exact ⟨_, step.append (crossed.append closeStep), .parenthesized body⟩
  · rintro ⟨_, crossed, body⟩
    cases body with
    | parenthesized body =>
      obtain ⟨next, step, crossed⟩ := Crosses.head_iff.mp crossed
      obtain ⟨closing, crossed, closeStep⟩ := Crosses.append_iff.mp crossed
      exact ⟨(), next, step, _, closing, ⟨_, crossed, closeStep.current_eq ▸ body⟩, (), last, closeStep, rfl, rfl⟩

theorem ifElse_ok_iff {cursor last : Cursor} {value : Expr} :
    ifElse table operand cursor = .ok value last ↔
      ∃ tokens, cursor.Crosses (cursor.current :: tokens) last ∧
        Phrase.Primary table phrase (.keyword .ifWord :: tokens) value last.current := by
  simp only [ifElse, bind_ok_iff, pure_ok_iff, advance_ok_iff, expect_ok_iff, expression_exact table exact _ _ _]
  constructor
  · rintro ⟨_, _, step, _, _, ⟨_, crossedTest, test⟩, _, _, thenStep, _, _, ⟨_, crossedThen, positive⟩,
      _, _, elseStep, _, _, ⟨_, crossedElse, negative⟩, rfl, rfl⟩
    rw [thenStep.current_eq] at test
    rw [elseStep.current_eq] at positive
    exact ⟨_, step.append (crossedTest.append (thenStep.append (crossedThen.append
      (elseStep.append crossedElse)))), .ifElse test positive negative⟩
  · rintro ⟨_, crossed, body⟩
    cases body with
    | ifElse test positive negative =>
      obtain ⟨_, step, crossed⟩ := Crosses.head_iff.mp crossed
      obtain ⟨_, crossedTest, crossed⟩ := Crosses.append_iff.mp crossed
      obtain ⟨_, thenStep, crossed⟩ := Crosses.head_iff.mp crossed
      obtain ⟨_, crossedThen, crossed⟩ := Crosses.append_iff.mp crossed
      obtain ⟨_, elseStep, crossedElse⟩ := Crosses.head_iff.mp crossed
      exact ⟨(), _, step, _, _, ⟨_, crossedTest, thenStep.current_eq ▸ test⟩, (), _, thenStep,
        _, _, ⟨_, crossedThen, elseStep.current_eq ▸ positive⟩, (), _, elseStep,
        _, last, ⟨_, crossedElse, negative⟩, rfl, rfl⟩

theorem forIn_ok_iff {cursor last : Cursor} {value : Expr} :
    Grammar.forIn table operand cursor = .ok value last ↔
      ∃ tokens, cursor.Crosses (cursor.current :: tokens) last ∧
        Phrase.Primary table phrase (.keyword .forWord :: tokens) value last.current := by
  simp only [Grammar.forIn, bind_ok_iff, pure_ok_iff, advance_ok_iff, expect_ok_iff, identifier_ok_iff,
    expression_exact table exact _ _ _, step?_exact table exact _ _ _]
  constructor
  · rintro ⟨_, _, step, _, _, named, _, _, equals, _, _, ⟨_, crossedStart, first⟩, _, _, comma,
      _, _, ⟨_, crossedFinish, final⟩, _, _, ⟨_, crossedStep, stride⟩, _, _, inStep,
      _, _, ⟨_, crossedBody, inner⟩, rfl, rfl⟩
    rw [comma.current_eq] at first
    rw [crossedStep.current_eq, inStep.current_eq] at final
    rw [inStep.current_eq] at stride
    exact ⟨_, step.append (named.append (equals.append (crossedStart.append (comma.append
      (crossedFinish.append (crossedStep.append (inStep.append crossedBody))))))),
      .forIn first final stride inner⟩
  · rintro ⟨_, crossed, body⟩
    cases body with
    | forIn first final stride inner =>
      obtain ⟨_, step, crossed⟩ := Crosses.head_iff.mp crossed
      obtain ⟨_, named, crossed⟩ := Crosses.head_iff.mp crossed
      obtain ⟨_, equals, crossed⟩ := Crosses.head_iff.mp crossed
      obtain ⟨_, crossedStart, crossed⟩ := Crosses.append_iff.mp crossed
      obtain ⟨_, comma, crossed⟩ := Crosses.head_iff.mp crossed
      obtain ⟨_, crossedFinish, crossed⟩ := Crosses.append_iff.mp crossed
      obtain ⟨_, crossedStep, crossed⟩ := Crosses.append_iff.mp crossed
      obtain ⟨_, inStep, crossedBody⟩ := Crosses.head_iff.mp crossed
      have atIn := inStep.current_eq
      dsimp only [List.headD_cons] at atIn
      rw [← atIn] at stride final
      rw [← crossedStep.current_eq] at final
      exact ⟨(), _, step, _, _, named, (), _, equals, _, _, ⟨_, crossedStart, comma.current_eq ▸ first⟩,
        (), _, comma, _, _, ⟨_, crossedFinish, final⟩, _, _, ⟨_, crossedStep, stride⟩, (), _, inStep,
        _, last, ⟨_, crossedBody, inner⟩, rfl, rfl⟩

theorem varIn_ok_iff {cursor last : Cursor} {value : Expr} :
    varIn table operand cursor = .ok value last ↔
      ∃ tokens, cursor.Crosses (cursor.current :: tokens) last ∧
        Phrase.Primary table phrase (.keyword .varWord :: tokens) value last.current := by
  have others : Exact (many (fun _ => nextBinding table operand) [])
      (.Repeated (.Announced ',' (.Binding table phrase)) (· ≠ .char ',')) := by
    apply listed_exact (binding_exact table exact) _ _ (by simp)
    intro cursor next value noComma
    simp only [pure_ok_iff, noComma, ne_eq, not_false_eq_true, true_and]
  simp only [varIn, bind_ok_iff, pure_ok_iff, advance_ok_iff, expect_ok_iff, binding_exact table exact _ _ _,
    expression_exact table exact _ _ _, others _ _ _]
  constructor
  · rintro ⟨_, _, step, _, _, ⟨_, crossedFirst, head⟩, _, _, ⟨_, crossedLater, tail⟩, _, _, inStep,
      _, _, ⟨_, crossedBody, inner⟩, rfl, rfl⟩
    rw [crossedLater.current_eq, inStep.current_eq] at head
    rw [inStep.current_eq] at tail
    exact ⟨_, step.append ((crossedFirst.append crossedLater).append (inStep.append crossedBody)),
      .varIn (.mk head tail) inner⟩
  · rintro ⟨_, crossed, body⟩
    cases body with
    | varIn list inner =>
      obtain ⟨head, tail⟩ := list
      obtain ⟨_, step, crossed⟩ := Crosses.head_iff.mp crossed
      obtain ⟨_, crossedList, crossed⟩ := Crosses.append_iff.mp crossed
      obtain ⟨_, crossedFirst, crossedLater⟩ := Crosses.append_iff.mp crossedList
      obtain ⟨_, inStep, crossedBody⟩ := Crosses.head_iff.mp crossed
      have atIn := inStep.current_eq
      dsimp only [List.headD_cons] at atIn
      rw [← atIn] at tail head
      rw [← crossedLater.current_eq] at head
      exact ⟨(), _, step, _, _, ⟨_, crossedFirst, head⟩, _, _, ⟨_, crossedLater, tail⟩, (), _, inStep,
        _, last, ⟨_, crossedBody, inner⟩, rfl, rfl⟩

theorem primary_exact : Exact (primary table operand) (.Primary table phrase) := by
  intro cursor last value
  simp only [primary, peek_bind]
  constructor
  · intro success
    cases here : cursor.current with
    | ident name =>
      rw [here] at success
      obtain ⟨tokens, crossed, body⟩ := (nameOrCall_ok_iff table exact).mp success
      exact ⟨_, here ▸ crossed, body⟩
    | number found =>
      simp only [here, bind_ok_iff, advance_ok_iff, pure_ok_iff] at success
      obtain ⟨_, _, step, rfl, rfl⟩ := success
      exact ⟨_, step, .number⟩
    | char symbol =>
      rw [here] at success
      by_cases opened : symbol = '('
      · subst opened
        obtain ⟨tokens, crossed, body⟩ := (parenthesized_ok_iff table exact).mp success
        exact ⟨_, here ▸ crossed, body⟩
      · simp [opened, throw_ok_iff] at success
    | keyword word =>
      rw [here] at success
      cases word with
      | ifWord =>
        obtain ⟨tokens, crossed, body⟩ := (ifElse_ok_iff table exact).mp success
        exact ⟨_, here ▸ crossed, body⟩
      | forWord =>
        obtain ⟨tokens, crossed, body⟩ := (forIn_ok_iff table exact).mp success
        exact ⟨_, here ▸ crossed, body⟩
      | varWord =>
        obtain ⟨tokens, crossed, body⟩ := (varIn_ok_iff table exact).mp success
        exact ⟨_, here ▸ crossed, body⟩
      | _ => exact (throw_ok_iff.mp success).elim
    | endOfInput =>
      rw [here] at success
      exact (throw_ok_iff.mp success).elim
  · rintro ⟨tokens, crossed, body⟩
    have announces : tokens = cursor.current :: tokens.tail := by
      cases body <;> rw [crossed.current_eq] <;> rfl
    have here := crossed.current_eq
    rw [announces] at crossed
    cases body with
    | number =>
      rw [here]
      exact (bind_ok_iff _ _).mpr ⟨(), last, advance_ok_iff.mpr crossed, rfl⟩
    | var noCall =>
      rw [here]
      exact (nameOrCall_ok_iff table exact).mpr ⟨_, crossed, .var noCall⟩
    | call list =>
      rw [here]
      exact (nameOrCall_ok_iff table exact).mpr ⟨_, crossed, .call list⟩
    | parenthesized inner =>
      rw [here]
      exact (parenthesized_ok_iff table exact).mpr ⟨_, crossed, .parenthesized inner⟩
    | ifElse test positive negative =>
      rw [here]
      exact (ifElse_ok_iff table exact).mpr ⟨_, crossed, .ifElse test positive negative⟩
    | forIn first final stride inner =>
      rw [here]
      exact (forIn_ok_iff table exact).mpr ⟨_, crossed, .forIn first final stride inner⟩
    | varIn list inner =>
      rw [here]
      exact (varIn_ok_iff table exact).mpr ⟨_, crossed, .varIn list inner⟩

theorem prefixed_exact : Exact (prefixed table operand) (.Prefixed table phrase) := by
  intro cursor last value
  simp only [prefixed, peek_bind]
  cases isSymbol : cursor.current.symbol? with
  | none =>
    simp only [primary_exact table exact _ _ _]
    constructor
    · rintro ⟨tokens, crossed, body⟩
      exact ⟨tokens, crossed, .primary body⟩
    · rintro ⟨tokens, crossed, body⟩
      cases body with
      | unary ascii _ _ _ =>
        have isChar := Token.symbol?_eq_some_iff.mpr ⟨crossed.current_eq, ascii⟩
        rw [isSymbol] at isChar
        cases isChar
      | primary body => exact ⟨tokens, crossed, body⟩
  | some symbol =>
    obtain ⟨here, ascii⟩ := Token.symbol?_eq_some_iff.mp isSymbol
    simp only [ite_ok_iff, bind_ok_iff, advance_ok_iff, pure_ok_iff, exact _ _ _,
      primary_exact table exact _ _ _, Bool.or_eq_true, decide_eq_true_eq]
    constructor
    · rintro (⟨_, tokens, crossed, body⟩ | ⟨isPrefix, _, _, step, _, _, ⟨tokens, crossed, body⟩, rfl, rfl⟩)
      · exact ⟨tokens, crossed, .primary body⟩
      · exact ⟨_, (here ▸ step).append crossed, .unary ascii (isPrefix ∘ .inl) (isPrefix ∘ .inr) body⟩
    · rintro ⟨tokens, crossed, body⟩
      cases body with
      | unary _ notParenthesis notComma body =>
        cases here.symm.trans crossed.current_eq
        obtain ⟨next, step, crossed⟩ := Crosses.head_iff.mp crossed
        refine .inr ⟨fun either => either.elim notParenthesis notComma, (), next, here ▸ step, _, last,
          ⟨_, crossed, body⟩, rfl, rfl⟩
      | primary body =>
        -- of the characters that are no prefix operators only the parenthesis begins a primary
        refine .inl ⟨.inl ?_, tokens, crossed, body⟩
        have first := here.symm.trans crossed.current_eq
        cases body <;> cases first
        rfl

end Constructs

theorem operandWithin_exact (table : OperatorTable) (levels : Nat) :
    Exact (operandWithin table levels) (Phrase.Operand table levels) := by
  induction levels with
  | zero =>
    intro cursor last value
    simp only [operandWithin, throw_ok_iff, Phrase.Operand, and_false, exists_false]
  | succ levels ih => exact prefixed_exact table ih

/-- The expressions of forms are read exactly. -/
theorem body_exact (table : OperatorTable) :
    Exact (expression table (outerOperand table)) (Phrase.Body table) :=
  expression_exact table (operandWithin_exact table maxNesting)

end Grammar

end OpLang

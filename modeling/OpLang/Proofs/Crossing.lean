import OpLang.Grammar.Basic

/-! # Crossing tokens

What a successful production has done to its cursor is told by the tokens that it crossed. A cursor
crosses a token when it stands on it and steps to the next lexeme, which must not be a malformed number.
The success of a production is then a statement about tokens alone: it does not matter what lies behind
the token on which the cursor comes to stand.
-/

namespace OpLang

theorem Token.symbol?_eq_some_iff {token : Token} {symbol : Char} :
    token.symbol? = some symbol ↔ token = .char symbol ∧ symbol.toNat < 128 := by
  cases token with
  | char found =>
    simp only [symbol?, Option.ite_none_right_eq_some, Option.some.injEq, Token.char.injEq]
    constructor
    · rintro ⟨ascii, rfl⟩
      exact ⟨rfl, ascii⟩
    · rintro ⟨rfl, ascii⟩
      exact ⟨ascii, rfl⟩
  | _ => simp [symbol?]

/-! ## Successful steps -/

section Success

variable {α β : Type} {cursor next : Cursor}

theorem bind_ok_iff (first : Parse α) (second : α → Parse β) {result : β} :
    (first >>= second) cursor = .ok result next ↔
      ∃ value between, first cursor = .ok value between ∧ second value between = .ok result next := by
  simp only [bind, EStateM.bind]
  cases outcome : first cursor with
  | ok value between =>
    constructor
    · exact fun success => ⟨value, between, rfl, success⟩
    · rintro ⟨_, _, same, success⟩
      cases same
      exact success
  | error fault stopped => simp

theorem pure_ok_iff {value result : α} :
    (pure value : Parse α) cursor = .ok result next ↔ value = result ∧ cursor = next := by
  simp [pure, EStateM.pure]

theorem throw_ok_iff {fault : Error} {result : α} :
    (throw fault : Parse α) cursor = .ok result next ↔ False := by
  refine ⟨fun success => ?_, False.elim⟩
  have failed : EStateM.Result.error fault cursor = .ok result next := success
  cases failed

theorem ite_ok_iff {condition : Prop} [Decidable condition] {first second : Parse α} {result : α} :
    (if condition then first else second) cursor = .ok result next ↔
      condition ∧ first cursor = .ok result next ∨ ¬ condition ∧ second cursor = .ok result next := by
  by_cases holds : condition <;> simp [holds]

end Success

namespace Cursor

/-- The cursor gets from the first place to the second over just these tokens. -/
inductive Crosses : Cursor → List Token → Cursor → Prop
  | nil (cursor : Cursor) : Crosses cursor [] cursor
  | cons {cursor next last : Cursor} {tokens : List Token} (step : advance cursor = .ok () next)
      (rest : Crosses next tokens last) : Crosses cursor (cursor.current :: tokens) last

namespace Crosses

variable {cursor next last : Cursor} {token : Token} {tokens first second : List Token}

@[simp] theorem nil_iff : Crosses cursor [] last ↔ cursor = last := by
  constructor
  · rintro ⟨⟩
    rfl
  · rintro rfl
    exact .nil cursor

theorem cons_iff : Crosses cursor (token :: tokens) last ↔
    cursor.current = token ∧ ∃ next, advance cursor = .ok () next ∧ Crosses next tokens last := by
  constructor
  · rintro ⟨⟩
    exact ⟨rfl, _, ‹_›, ‹_›⟩
  · rintro ⟨rfl, next, step, rest⟩
    exact .cons step rest

theorem append_iff : Crosses cursor (first ++ second) last ↔
    ∃ middle, Crosses cursor first middle ∧ Crosses middle second last := by
  induction first generalizing cursor with
  | nil => simp
  | cons token first ih =>
    simp only [List.cons_append, cons_iff, ih]
    constructor
    · rintro ⟨here, next, step, middle, before, after⟩
      exact ⟨middle, ⟨here, next, step, before⟩, after⟩
    · rintro ⟨middle, ⟨here, next, step, before⟩, after⟩
      exact ⟨here, next, step, middle, before, after⟩

theorem head_iff : Crosses cursor (token :: tokens) last ↔
    ∃ next, Crosses cursor [token] next ∧ Crosses next tokens last := by
  rw [← append_iff, List.singleton_append]

theorem append {middle : Cursor} (before : Crosses cursor first middle)
    (after : Crosses middle second last) : Crosses cursor (first ++ second) last :=
  append_iff.mpr ⟨middle, before, after⟩

/-- The first token crossed is the one on which the cursor stood; if none was crossed, it has not moved. -/
theorem current_eq (crossed : Crosses cursor tokens last) :
    cursor.current = tokens.headD last.current := by
  cases crossed <;> rfl

end Crosses

theorem advance_ok_iff {cursor next : Cursor} {result : Unit} :
    advance cursor = .ok result next ↔ Crosses cursor [cursor.current] next := by
  simp [Crosses.cons_iff]

/-- A successful step leaves less to be read, unless the cursor stood behind the last token. -/
theorem remaining_advance {cursor next : Cursor} (step : advance cursor = .ok () next) :
    next.remaining ≤ cursor.remaining ∧
      (cursor.current ≠ .endOfInput → next.remaining < cursor.remaining) := by
  simp only [advance] at step
  split at step
  · next ended =>
    cases step
    simp only [remaining, ended, List.length_nil, ↓reduceIte]
    exact ⟨Nat.zero_le _, fun inside => by rw [if_neg inside]; exact Nat.one_pos⟩
  · next token place later some =>
    cases step
    simp only [remaining, some, List.length_cons]
    constructor
    · split <;> split <;> omega
    · intro here
      rw [if_neg here]
      split <;> omega
  · cases step

theorem Crosses.remaining_le {cursor last : Cursor} {tokens : List Token}
    (crossed : Crosses cursor tokens last) : last.remaining ≤ cursor.remaining := by
  induction crossed with
  | nil => exact Nat.le_refl _
  | cons step _ ih => exact Nat.le_trans ih (remaining_advance step).1

theorem Crosses.remaining_lt {cursor last : Cursor} {token : Token} {tokens : List Token}
    (crossed : Crosses cursor (token :: tokens) last) (inside : token ≠ .endOfInput) :
    last.remaining < cursor.remaining := by
  obtain ⟨rfl, next, step, rest⟩ := cons_iff.mp crossed
  exact Nat.lt_of_le_of_lt rest.remaining_le ((remaining_advance step).2 inside)

end Cursor

/-! ## Steps of the productions -/

namespace Grammar

open Cursor

variable {α : Type} {cursor last : Cursor} {wanted : String}

/-- Looking at the current token neither moves nor fails. -/
theorem peek_bind (second : Token → Parse α) : (peek >>= second) cursor = second cursor.current cursor := by
  simp [bind, EStateM.bind, peek]

theorem unexpected_ok_iff {value : α} : (unexpected wanted : Parse α) cursor = .ok value last ↔ False := by
  simp only [unexpected, peek_bind, throw_ok_iff]

theorem expect_ok_iff {token : Token} {result : Unit} :
    expect token wanted cursor = .ok result last ↔ Crosses cursor [token] last := by
  simp only [expect, peek_bind, ite_ok_iff, unexpected_ok_iff, advance_ok_iff, and_false, or_false]
  constructor
  · rintro ⟨rfl, crossed⟩
    exact crossed
  · intro crossed
    obtain ⟨rfl, _⟩ := Crosses.cons_iff.mp crossed
    exact ⟨rfl, crossed⟩

theorem identifier_ok_iff {name : String} :
    identifier wanted cursor = .ok name last ↔ Crosses cursor [.ident name] last := by
  simp only [identifier, peek_bind]
  constructor
  · intro success
    cases here : cursor.current with
    | ident found =>
      simp only [here, bind_ok_iff, pure_ok_iff, advance_ok_iff] at success
      obtain ⟨_, _, crossed, rfl, rfl⟩ := success
      exact crossed
    | _ =>
      rw [here] at success
      exact (unexpected_ok_iff.mp success).elim
  · intro crossed
    obtain ⟨here, _⟩ := Crosses.cons_iff.mp crossed
    rw [here]
    exact (bind_ok_iff _ _).mpr ⟨(), last, advance_ok_iff.mpr (here ▸ crossed), rfl⟩

theorem operator_ok_iff {symbol : Char} :
    operator wanted cursor = .ok symbol last ↔ symbol.toNat < 128 ∧ Crosses cursor [.char symbol] last := by
  simp only [operator, peek_bind]
  constructor
  · intro success
    cases isSymbol : cursor.current.symbol? with
    | some found =>
      simp only [isSymbol, bind_ok_iff, pure_ok_iff, advance_ok_iff] at success
      obtain ⟨_, _, crossed, rfl, rfl⟩ := success
      obtain ⟨here, ascii⟩ := Token.symbol?_eq_some_iff.mp isSymbol
      exact ⟨ascii, here ▸ crossed⟩
    | none =>
      rw [isSymbol] at success
      exact (unexpected_ok_iff.mp success).elim
  · rintro ⟨ascii, crossed⟩
    obtain ⟨here, _⟩ := Crosses.cons_iff.mp crossed
    rw [Token.symbol?_eq_some_iff.mpr ⟨here, ascii⟩]
    exact (bind_ok_iff _ _).mpr ⟨(), last, advance_ok_iff.mpr (here ▸ crossed), rfl⟩

end Grammar

end OpLang

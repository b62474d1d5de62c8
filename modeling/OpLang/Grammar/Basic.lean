import OpLang.Cursor

/-! # Reading tokens

The steps that the productions of the grammar are made of. Each looks at the current token, and steps
past it if it is the wanted one; otherwise it fails without a step.
-/

namespace OpLang.Grammar

/-- The current token. -/
def peek : Parse Token := fun cursor => .ok cursor.current cursor

/-- Fails because another token was needed here. -/
def unexpected {α : Type} (wanted : String) : Parse α := do
  throw (.expected wanted (← peek).describe)

/-- Steps past a token that has to stand here. -/
def expect (token : Token) (wanted : String) : Parse Unit := do
  if (← peek) = token then Cursor.advance else unexpected wanted

/-- Steps past an identifier. -/
def identifier (wanted : String) : Parse String := do
  match ← peek with
  | .ident name =>
    Cursor.advance
    return name
  | _ => unexpected wanted

/-- Steps past an operator character. -/
def operator (wanted : String) : Parse Char := do
  match (← peek).symbol? with
  | some symbol =>
    Cursor.advance
    return symbol
  | none => unexpected wanted

/-- Repeats a step for as long as it yields an item, and collects the items. The step is told the items
so far, latest first. A step that yields an item without moving the cursor ends the repetition. -/
def many {α : Type} (step : List α → Parse (Option α)) (before : List α) : Parse (List α) :=
  fun cursor =>
    match step before cursor with
    | .error error stopped => .error error stopped
    | .ok none next => .ok [] next
    | .ok (some item) next =>
      if next.remaining < cursor.remaining then
        match many step (item :: before) next with
        | .ok items last => .ok (item :: items) last
        | .error error stopped => .error error stopped
      else .ok [item] next
termination_by cursor => cursor.remaining

end OpLang.Grammar

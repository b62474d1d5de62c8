import OpLang.Error
import OpLang.Lexeme

/-! # Cursor

A cursor stands on one token of a source, the current one, with the lexemes after it unread. Stepping
forward onto a malformed number fails: the number is passed over and its place noted, and the token
before it stays current. Behind the last lexeme the end of input stays current for ever.
-/

namespace OpLang

/-- A position among the lexemes of a source, with one token of look-ahead. -/
structure Cursor where
  current : Token
  /-- Where the current token starts, or the malformed number that was passed over last. -/
  place : Position
  unread : List Lexeme
  /-- Where the source ends. -/
  finish : Position
  deriving DecidableEq

/-- A computation that moves a cursor and may fail; the cursor stays where the failure was noticed. -/
abbrev Parse := EStateM Error Cursor

namespace Cursor

/-- Before the first step the end of input is current. -/
def ofSource (source : String) : Cursor := ⟨.endOfInput, .start, lexemes source, finalPlace source⟩

/-- How many tokens and malformed numbers have not been stepped past. -/
def remaining (cursor : Cursor) : Nat :=
  cursor.unread.length + if cursor.current = .endOfInput then 0 else 1

/-- Steps to the next lexeme. -/
def advance : Parse Unit := fun cursor =>
  match cursor.unread with
  | [] => .ok () { cursor with current := .endOfInput, place := cursor.finish }
  | ⟨.token token, place⟩ :: later =>
    .ok () { cursor with current := token, place := place, unread := later }
  | ⟨.malformed run, place⟩ :: later =>
    .error (.malformedNumber run) { cursor with place := place, unread := later }

/-- Steps to the next token over any malformed numbers, each of which gives a diagnostic. -/
def advanceOver (cursor : Cursor) : List Diagnostic × Cursor :=
  go cursor.unread
where
  go : List Lexeme → List Diagnostic × Cursor
    | [] => ([], { cursor with current := .endOfInput, place := cursor.finish, unread := [] })
    | ⟨.token token, place⟩ :: later =>
      ([], { cursor with current := token, place := place, unread := later })
    | ⟨.malformed run, place⟩ :: later =>
      let (found, next) := go later
      (⟨.malformedNumber run, place⟩ :: found, next)

end Cursor

end OpLang

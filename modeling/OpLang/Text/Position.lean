/-! # Positions in a text

Lines and columns count from one, and every character is one column wide, whatever its width on screen.
-/

namespace OpLang

/-- A place in a source text. -/
structure Position where
  line : Int
  column : Int
  deriving DecidableEq

namespace Position

/-- The place of the first character of a text. -/
def start : Position := ⟨1, 1⟩

/-- The place after a character: a line feed alone begins a new line, a carriage return does not. -/
def after (place : Position) (c : Char) : Position :=
  if c = '\n' then ⟨place.line + 1, 1⟩ else ⟨place.line, place.column + 1⟩

/-- The place after a run of characters. -/
def advance (place : Position) (run : List Char) : Position := run.foldl after place

theorem advance_append (place : Position) (first second : List Char) :
    place.advance (first ++ second) = (place.advance first).advance second :=
  List.foldl_append

/-- The written form, line before column. -/
def text (place : Position) : String := toString place.line ++ ":" ++ toString place.column

end Position

end OpLang

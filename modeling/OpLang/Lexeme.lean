import OpLang.Text.Alphabetic
import OpLang.Text.Numeric
import OpLang.Text.Blank
import OpLang.Text.Position
import OpLang.Token

/-! # Lexemes

A source is a sequence of *pieces*: each is an item, a word, a run of digits and points or a single
character, together with the blanks and comments before it; what follows the last item is blanks and
comments too. Items are as long as they can be. A *lexeme* is an item with its place, read as a token,
or as a malformed number if it is a run of digits and points that is no decimal.
-/

namespace OpLang

open OpLang.Text

/-! ## Pieces -/

/-- A comment ends before a line feed or a carriage return. -/
def isLineEnd (c : Char) : Bool := c = '\n' || c = '\r'

/-- A word goes on with letters and numerals of any script. -/
def isWordChar (c : Char) : Bool := isAlphabetic c || isNumeric c

/-- Number literals are made of the ASCII digits and the point. -/
def isNumberChar (c : Char) : Bool := c.isDigit || c = '.'

/-- Splits off the longest run of blanks and comments; the flag tells whether the text starts inside a
comment. The characters that end a comment are blanks themselves. -/
def splitTrivia : Bool → List Char → List Char × List Char
  | _, [] => ([], [])
  | inComment, c :: rest =>
    if inComment && !isLineEnd c || c = '#' then
      let (trivia, source) := splitTrivia true rest
      (c :: trivia, source)
    else if isBlank c then
      let (trivia, source) := splitTrivia false rest
      (c :: trivia, source)
    else ([], c :: rest)

/-- Nothing is lost or repeated by splitting off trivia. -/
theorem splitTrivia_append (inComment : Bool) (source : List Char) :
    (splitTrivia inComment source).1 ++ (splitTrivia inComment source).2 = source := by
  induction source generalizing inComment with
  | nil => simp [splitTrivia]
  | cons c rest ih =>
    rw [splitTrivia]
    split
    · simpa using ih true
    · split
      · simpa using ih false
      · rfl

theorem length_splitTrivia_le (inComment : Bool) (source : List Char) :
    (splitTrivia inComment source).2.length ≤ source.length := by
  have whole := congrArg List.length (splitTrivia_append inComment source)
  rw [List.length_append] at whole
  omega

/-- The characters that continue an item with the given first character. -/
def continuesItem (first : Char) : Char → Bool :=
  if isAlphabetic first then isWordChar
  else if isNumberChar first then isNumberChar
  else fun _ => false

/-- An item of a source with the blanks and comments before it. -/
structure Piece where
  trivia : List Char
  first : Char
  more : List Char
  deriving DecidableEq

namespace Piece

/-- The characters of the item. -/
def item (piece : Piece) : List Char := piece.first :: piece.more

/-- All the characters of a piece. -/
def chars (piece : Piece) : List Char := piece.trivia ++ piece.item

end Piece

/-- Cuts a source into its pieces and the blanks and comments after the last item. -/
def pieces (source : List Char) : List Piece × List Char :=
  match _ : splitTrivia false source with
  | (trivia, []) => ([], trivia)
  | (trivia, first :: rest) =>
    let (later, trailing) := pieces (rest.dropWhile (continuesItem first))
    (⟨trivia, first, rest.takeWhile (continuesItem first)⟩ :: later, trailing)
termination_by source.length
decreasing_by
  rename_i split
  have bound := length_splitTrivia_le false source
  have shorter := (List.dropWhile_suffix (continuesItem first) (l := rest)).length_le
  simp only [split, List.length_cons] at bound
  omega

/-- A source of blanks and comments alone has no pieces. -/
theorem pieces_of_nil {source trivia : List Char} (cut : splitTrivia false source = (trivia, [])) :
    pieces source = ([], trivia) := by
  rw [pieces]
  split
  · next same => simp_all
  · next same => simp_all

/-- The first piece of a source ends where the class of its first character does. -/
theorem pieces_of_cons {source trivia rest : List Char} {first : Char}
    (cut : splitTrivia false source = (trivia, first :: rest)) :
    pieces source =
      (⟨trivia, first, rest.takeWhile (continuesItem first)⟩ ::
        (pieces (rest.dropWhile (continuesItem first))).1,
        (pieces (rest.dropWhile (continuesItem first))).2) := by
  rw [pieces]
  split
  · next same => simp_all
  · next same =>
    obtain ⟨rfl, rfl, rfl⟩ : trivia = _ ∧ first = _ ∧ rest = _ := by simpa [cut] using same
    rfl

/-- Nothing is lost or repeated by cutting a source into pieces. -/
theorem pieces_append (source : List Char) :
    (pieces source).1.flatMap Piece.chars ++ (pieces source).2 = source := by
  have whole := splitTrivia_append false source
  rcases cut : splitTrivia false source with ⟨trivia, _ | ⟨first, rest⟩⟩
  · simpa [pieces_of_nil cut, cut] using whole
  · have later := pieces_append (rest.dropWhile (continuesItem first))
    rw [pieces_of_cons cut]
    simp only [List.flatMap_cons, Piece.chars, Piece.item, List.append_assoc, List.cons_append, later,
      List.takeWhile_append_dropWhile]
    simpa [cut] using whole
termination_by source.length
decreasing_by
  have bound := length_splitTrivia_le false source
  have shorter := (List.dropWhile_suffix (continuesItem first) (l := rest)).length_le
  simp only [cut, List.length_cons] at bound
  omega

/-! ## Lexemes -/

/-- What an item means. -/
inductive Item where
  | token (token : Token)
  | malformed (run : String)
  deriving DecidableEq

/-- Reads a piece. -/
def Piece.read (piece : Piece) : Item :=
  if isAlphabetic piece.first then .token (.ofWord (String.ofList piece.item))
  else if isNumberChar piece.first then
    match Binary64.ofDigits? piece.item with
    | some value => .token (.number value)
    | none => .malformed (String.ofList piece.item)
  else .token (.char piece.first)

/-- An item with the place of its first character. -/
structure Lexeme where
  item : Item
  place : Position
  deriving DecidableEq

/-- Reads pieces one after the other and gives each its place, the first one's trivia starting at the
given place. -/
def locate : Position → List Piece → List Lexeme
  | _, [] => []
  | start, piece :: later =>
    let place := start.advance piece.trivia
    ⟨piece.read, place⟩ :: locate (place.advance piece.item) later

/-- The lexemes of a source. -/
def lexemes (source : String) : List Lexeme := locate .start (pieces source.toList).1

/-- The place just after a source. -/
def finalPlace (source : String) : Position := Position.start.advance source.toList

end OpLang

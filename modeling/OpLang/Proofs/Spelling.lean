import OpLang.Cursor

/-! # How tokens are spelled

Every token of a source is spelled by a run of characters that no comment or blank begins and that the
class of its first character continues: a word, a number or a single character. Conversely a run that
spells a token is read as that token wherever it is cut out of a source.
-/

namespace OpLang

open OpLang.Text

/-- The words that are no keywords. -/
def IsName (name : String) : Prop :=
  ∃ first more, name.toList = first :: more ∧ isAlphabetic first = true ∧ (∀ c ∈ more, isWordChar c = true) ∧
    Keyword.ofSpelling? name = none

/-- The characters that neither belong to words, numbers and blanks nor begin a comment. -/
structure IsPunctuation (symbol : Char) : Prop where
  notAlphabetic : isAlphabetic symbol = false
  notNumber : isNumberChar symbol = false
  notBlank : isBlank symbol = false
  noComment : symbol ≠ '#'

/-- The characters that may be operators. -/
structure IsOperator (symbol : Char) : Prop extends IsPunctuation symbol where
  ascii : symbol.toNat < 128

/-- Which runs of characters spell a token. The end of input is not spelled. -/
def Token.SpelledBy : Token → List Char → Prop
  | .keyword word, run => run = word.spelling.toList
  | .ident name, run => run = name.toList ∧ IsName name
  | .number value, run => Binary64.ofDigits? run = some value
  | .char symbol, run => run = [symbol] ∧ IsPunctuation symbol
  | .endOfInput, _ => False

/-- Tokens that a source can have. -/
def Token.Spelled (token : Token) : Prop := ∃ run, token.SpelledBy run

/-! ## Character classes -/

namespace Text

theorem mem_of_inRanges {ranges : List (Nat × Nat)} {code : Nat} (inside : inRanges ranges code = true) :
    ∃ range ∈ ranges, range.1 ≤ code ∧ code ≤ range.2 := by
  induction ranges with
  | nil => cases inside
  | cons range ranges ih =>
    rw [inRanges] at inside
    split at inside
    · cases inside
    · next low =>
      split at inside
      · next high => exact ⟨range, List.mem_cons_self .., Nat.not_lt.mp low, high⟩
      · obtain ⟨found, member, bounds⟩ := ih inside
        exact ⟨found, List.mem_cons_of_mem _ member, bounds⟩

/-- The letters begin with the capital A. -/
theorem isAlphabetic_of_lt {c : Char} (low : c.toNat < 0x41) : isAlphabetic c = false := by
  rw [isAlphabetic, alphabeticRanges, inRanges, if_pos low]

private theorem blankRanges_not_word : ∀ range ∈ blankRanges, ∀ offset ∈ List.range (range.2 + 1 - range.1),
    inRanges alphabeticRanges (range.1 + offset) = false ∧ inRanges numericRanges (range.1 + offset) = false := by
  decide +kernel

theorem isWordChar_of_isBlank {c : Char} (blank : isBlank c = true) : isWordChar c = false := by
  obtain ⟨range, member, low, high⟩ := mem_of_inRanges blank
  have other := blankRanges_not_word range member (c.toNat - range.1) (List.mem_range.mpr (by omega))
  rw [Nat.add_sub_cancel' low] at other
  rw [isWordChar, isAlphabetic, isNumeric, other.1, other.2, Bool.or_self]

theorem isBlank_of_isAlphabetic {c : Char} (letter : isAlphabetic c = true) : isBlank c = false := by
  rw [Bool.eq_false_iff]
  intro blank
  have noWord := isWordChar_of_isBlank blank
  rw [isWordChar, letter] at noWord
  cases noWord

private theorem blankRanges_not_number : ∀ range ∈ blankRanges, range.2 < 46 ∨ 57 < range.1 := by decide

end Text

/-- No character of numbers is a letter, a blank or a comment sign. -/
theorem isNumberChar_classes {c : Char} (number : isNumberChar c = true) :
    isAlphabetic c = false ∧ isBlank c = false ∧ c ≠ '#' := by
  have bounds : 46 ≤ c.toNat ∧ c.toNat ≤ 57 := by
    simp only [isNumberChar, Bool.or_eq_true, decide_eq_true_eq] at number
    rcases number with digit | rfl
    · have bounds := Char.isDigit_iff_toNat.mp digit
      simp only [Char.reduceToNat] at bounds
      omega
    · decide
  refine ⟨isAlphabetic_of_lt (by omega), ?_, ?_⟩
  · rw [Bool.eq_false_iff]
    intro blank
    obtain ⟨range, member, low, high⟩ := mem_of_inRanges blank
    have := blankRanges_not_number range member
    omega
  · rintro rfl
    exact absurd bounds (by decide)

/-! ## Numbers -/

namespace Decimal

theorem all_isNumberChar_of_ofChars? {run : List Char} {decimal : Decimal}
    (read : ofChars? run = some decimal) :
    ∀ c ∈ run, isNumberChar c = true := by
  intro c member
  rw [← List.takeWhile_append_dropWhile (p := Char.isDigit) (l := run), List.mem_append] at member
  rcases member with member | member
  · have digit := List.all_eq_true.mp (List.all_takeWhile (p := Char.isDigit) (l := run)) c member
    simp [isNumberChar, digit]
  · simp only [ofChars?] at read
    split at read
    · next none =>
      rw [none] at member
      cases member
    · next point fraction some =>
      rw [some] at member
      split at read
      · next shape =>
        simp only [Bool.and_eq_true, decide_eq_true_eq, List.all_eq_true] at shape
        rcases List.mem_cons.mp member with rfl | member
        · simp [isNumberChar, shape.1.1]
        · simp [isNumberChar, shape.1.2 c member]
      · cases read

theorem ne_nil_of_ofChars? {run : List Char} {decimal : Decimal} (read : ofChars? run = some decimal) :
    run ≠ [] := by
  rintro rfl
  cases read

end Decimal

namespace Binary64

theorem all_isNumberChar_of_ofDigits? {run : List Char} {value : Binary64}
    (read : ofDigits? run = some value) :
    ∀ c ∈ run, isNumberChar c = true := by
  obtain ⟨decimal, read, _⟩ := Option.map_eq_some_iff.mp read
  exact Decimal.all_isNumberChar_of_ofChars? read

theorem ne_nil_of_ofDigits? {run : List Char} {value : Binary64} (read : ofDigits? run = some value) :
    run ≠ [] := by
  obtain ⟨decimal, read, _⟩ := Option.map_eq_some_iff.mp read
  exact Decimal.ne_nil_of_ofChars? read

/-- Digits never spell what is not a number. -/
theorem ne_nan_of_ofDigits? {run : List Char} {value : Binary64} (read : ofDigits? run = some value) :
    value ≠ nan := by
  obtain ⟨decimal, _, rfl⟩ := Option.map_eq_some_iff.mp read
  simp only [Decimal.toBinary64, ofRatio, ofRank]
  split <;> exact Binary64.noConfusion

end Binary64

/-! ## Cutting out items -/

/-- A run that is cut out of a source as one item. -/
structure IsItem (first : Char) (more : List Char) : Prop where
  notBlank : isBlank first = false
  noComment : first ≠ '#'
  continues : ∀ c ∈ more, continuesItem first c = true

/-- What spells a token is an item. -/
theorem Token.SpelledBy.exists_item {token : Token} {run : List Char} (spelled : token.SpelledBy run) :
    ∃ first more, run = first :: more ∧ IsItem first more := by
  cases token with
  | keyword word =>
    obtain rfl : run = word.spelling.toList := spelled
    cases word <;> exact ⟨_, _, rfl, by decide, by decide, List.all_eq_true.mp (by decide)⟩
  | ident name =>
    obtain ⟨rfl, first, more, whole, letter, wordChars, _⟩ := spelled
    refine ⟨first, more, whole, isBlank_of_isAlphabetic letter, ?_, ?_⟩
    · rintro rfl
      exact absurd letter (by decide)
    · simpa only [continuesItem, letter, if_true] using wordChars
  | number value =>
    have numberChars := Binary64.all_isNumberChar_of_ofDigits? spelled
    obtain ⟨first, more, rfl⟩ := List.exists_cons_of_ne_nil (Binary64.ne_nil_of_ofDigits? spelled)
    have number := numberChars first (List.mem_cons_self ..)
    obtain ⟨notAlphabetic, notBlank, noComment⟩ := isNumberChar_classes number
    refine ⟨first, more, rfl, notBlank, noComment, fun c member => ?_⟩
    simpa [continuesItem, notAlphabetic, number] using numberChars c (List.mem_cons_of_mem _ member)
  | char symbol =>
    obtain ⟨rfl, punctuation⟩ := spelled
    exact ⟨symbol, [], rfl, punctuation.notBlank, punctuation.noComment, by simp⟩
  | endOfInput => exact spelled.elim

/-- What spells a token is read as that token. -/
theorem Token.SpelledBy.read {token : Token} {trivia more : List Char} {first : Char}
    (spelled : token.SpelledBy (first :: more)) : Piece.read ⟨trivia, first, more⟩ = .token token := by
  cases token with
  | keyword word =>
    have whole : String.ofList (first :: more) = word.spelling := by
      rw [show first :: more = word.spelling.toList from spelled, String.ofList_toList]
    have letter : isAlphabetic first = true := by
      have first : (first :: more).head? = word.spelling.toList.head? := congrArg List.head? spelled
      cases word <;> cases first <;> decide
    simp only [Piece.read, Piece.item, letter, whole, Token.ofWord, if_true,
      (Keyword.ofSpelling?_eq_some_iff _ _).mpr rfl]
  | ident name =>
    obtain ⟨whole, _, _, same, letter, _, noKeyword⟩ := spelled
    cases same.symm.trans whole.symm
    simp only [Piece.read, Piece.item, letter, whole, String.ofList_toList, Token.ofWord, noKeyword, if_true]
  | number value =>
    have number := Binary64.all_isNumberChar_of_ofDigits? spelled first (List.mem_cons_self ..)
    have read : Binary64.ofDigits? (first :: more) = some value := spelled
    simp [Piece.read, Piece.item, (isNumberChar_classes number).1, number, read]
  | char symbol =>
    obtain ⟨whole, punctuation⟩ := spelled
    cases whole
    simp [Piece.read, punctuation.notAlphabetic, punctuation.notNumber]
  | endOfInput => exact spelled.elim

/-- An item that is read as a token spells it. -/
theorem Piece.spelledBy_of_read {piece : Piece} {token : Token} (item : IsItem piece.first piece.more)
    (read : piece.read = .token token) : token.SpelledBy piece.item := by
  unfold Piece.read at read
  split at read
  · next letter =>
    cases read
    have wordChars : ∀ c ∈ piece.more, isWordChar c = true := by
      simpa only [continuesItem, letter, if_true] using item.continues
    cases reserved : Keyword.ofSpelling? (String.ofList piece.item) with
    | some word =>
      rw [Token.ofWord, reserved]
      change piece.item = word.spelling.toList
      rw [(Keyword.ofSpelling?_eq_some_iff _ _).mp reserved, String.toList_ofList]
    | none =>
      rw [Token.ofWord, reserved]
      exact ⟨String.toList_ofList.symm, _, _, String.toList_ofList, letter, wordChars, reserved⟩
  · next notAlphabetic =>
    split at read
    · split at read
      · next value digits =>
        cases read
        exact digits
      · cases read
    · next notNumber =>
      cases read
      have single : piece.more = [] := by
        cases more : piece.more with
        | nil => rfl
        | cons c rest =>
          have continued := item.continues c (more ▸ List.mem_cons_self ..)
          simp only [continuesItem, notAlphabetic, notNumber, if_false, Bool.false_eq_true] at continued
      exact ⟨by rw [Piece.item, single], Bool.eq_false_iff.mpr notAlphabetic, Bool.eq_false_iff.mpr notNumber,
        item.notBlank, item.noComment⟩

/-- Blanks and comments are split off up to the first character that may begin an item. -/
theorem splitTrivia_first {inComment : Bool} {source trivia rest : List Char} {first : Char}
    (cut : splitTrivia inComment source = (trivia, first :: rest)) : isBlank first = false ∧ first ≠ '#' := by
  induction source generalizing inComment trivia with
  | nil => cases cut
  | cons c source ih =>
    rw [splitTrivia] at cut
    split at cut
    · exact ih (Prod.ext rfl (Prod.mk.inj cut).2)
    · next outside =>
      split at cut
      · exact ih (Prod.ext rfl (Prod.mk.inj cut).2)
      · next notBlank =>
        obtain ⟨rfl, rfl⟩ := List.cons.inj (Prod.mk.inj cut).2
        exact ⟨Bool.eq_false_iff.mpr notBlank, fun sign => outside (by simp [sign])⟩

/-- Induction over the pieces of a source, backwards from what follows the last item. -/
theorem pieces_induct {motive : List Char → Prop}
    (blank : ∀ source trivia, splitTrivia false source = (trivia, []) → motive source)
    (item : ∀ source trivia first rest, splitTrivia false source = (trivia, first :: rest) →
      motive (rest.dropWhile (continuesItem first)) → motive source)
    (source : List Char) : motive source := by
  rcases cut : splitTrivia false source with ⟨trivia, _ | ⟨first, rest⟩⟩
  · exact blank source trivia cut
  · exact item source trivia first rest cut (pieces_induct blank item _)
termination_by source.length
decreasing_by
  have bound := length_splitTrivia_le false source
  have shorter := (List.dropWhile_suffix (continuesItem first) (l := rest)).length_le
  simp only [cut, List.length_cons] at bound
  omega

theorem isItem_of_mem_pieces {source : List Char} {piece : Piece} (member : piece ∈ (pieces source).1) :
    IsItem piece.first piece.more := by
  induction source using pieces_induct with
  | blank source trivia cut =>
    rw [pieces_of_nil cut] at member
    cases member
  | item source trivia first rest cut ih =>
    rw [pieces_of_cons cut] at member
    rcases List.mem_cons.mp member with rfl | member
    · obtain ⟨notBlank, noComment⟩ := splitTrivia_first cut
      exact ⟨notBlank, noComment, List.all_eq_true.mp List.all_takeWhile⟩
    · exact ih member

/-- Items that are no tokens aside, what a source consists of is spelled. -/
theorem spelled_of_mem_locate {start : Position} {cut : List Piece} {lexeme : Lexeme} {token : Token}
    (items : ∀ piece ∈ cut, IsItem piece.first piece.more) (member : lexeme ∈ locate start cut)
    (isToken : lexeme.item = .token token) : token.Spelled := by
  induction cut generalizing start with
  | nil => cases member
  | cons piece cut ih =>
    rw [locate] at member
    rcases List.mem_cons.mp member with rfl | member
    · exact ⟨_, piece.spelledBy_of_read (items piece (List.mem_cons_self ..)) isToken⟩
    · exact ih (fun other present => items other (List.mem_cons_of_mem _ present)) member

theorem spelled_of_mem_lexemes {source : String} {lexeme : Lexeme} (member : lexeme ∈ lexemes source) :
    ∀ token, lexeme.item = .token token → token.Spelled := by
  intro token isToken
  exact spelled_of_mem_locate (fun _ => isItem_of_mem_pieces) member isToken

/-! ## Spelled cursors -/

/-- The tokens on which a cursor stands and to which it will come are spelled; behind the last of them
nothing is left to be read. -/
structure Cursor.Spelled (cursor : Cursor) : Prop where
  current : cursor.current = .endOfInput ∧ cursor.unread = [] ∨ cursor.current.Spelled
  unread : ∀ lexeme ∈ cursor.unread, ∀ token, lexeme.item = .token token → token.Spelled

theorem Token.Spelled.ne_endOfInput {token : Token} (spelled : token.Spelled) : token ≠ .endOfInput := by
  rintro rfl
  exact spelled.elim fun _ absurd => absurd

theorem Token.Spelled.ne_nan {value : Binary64} (spelled : (Token.number value).Spelled) : value ≠ .nan :=
  spelled.elim fun _ digits => Binary64.ne_nan_of_ofDigits? digits

theorem Token.Spelled.isPunctuation {symbol : Char} (spelled : (Token.char symbol).Spelled) :
    IsPunctuation symbol :=
  spelled.elim fun _ by' => by'.2

end OpLang

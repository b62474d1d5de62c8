import OpLang.Proofs.Spelling

/-! # Sources side by side

Lexing has no memory at a line feed: whatever stands before it, a comment or an unfinished item included,
the text behind it is cut into the same pieces as on its own. Only places know what came before, and on a
new line all that they know is how many lines there were.
-/

namespace OpLang

open OpLang.Text

/-! ## Blanks in front -/

/-- A source cut into pieces, with more blanks and comments in front. -/
def indent (trivia : List Char) : List Piece × List Char → List Piece × List Char
  | ([], trailing) => ([], trivia ++ trailing)
  | (piece :: later, trailing) => ({ piece with trivia := trivia ++ piece.trivia } :: later, trailing)

/-- What is split off as trivia before a source goes to the trivia of its first piece. -/
theorem pieces_eq_indent {source rest trivia : List Char}
    (cut : splitTrivia false source = (trivia ++ (splitTrivia false rest).1, (splitTrivia false rest).2)) :
    pieces source = indent trivia (pieces rest) := by
  rcases atRest : splitTrivia false rest with ⟨blanks, _ | ⟨first, more⟩⟩
  · rw [atRest] at cut
    rw [pieces_of_nil cut, pieces_of_nil atRest, indent]
  · rw [atRest] at cut
    rw [pieces_of_cons cut, pieces_of_cons atRest, indent]

theorem pieces_cons_of_isBlank {c : Char} {rest : List Char} (blank : isBlank c = true)
    (noComment : c ≠ '#') :
    pieces (c :: rest) = indent [c] (pieces rest) := by
  apply pieces_eq_indent
  simp [splitTrivia, blank, noComment]

/-- A piece is read without regard to the blanks before it. -/
theorem map_read_indent (trivia : List Char) (cut : List Piece × List Char) :
    (indent trivia cut).1.map Piece.read = cut.1.map Piece.read := by
  obtain ⟨_ | ⟨piece, later⟩, trailing⟩ := cut
  · rfl
  · rfl

/-! ## Items in front -/

theorem continuesItem_eq_false {first c : Char} (noWord : isWordChar c = false)
    (noNumber : isNumberChar c = false) :
    continuesItem first c = false := by
  rw [continuesItem]
  split
  · exact noWord
  · split
    · exact noNumber
    · rfl

/-- What stands behind an item does not continue it. -/
theorem not_continues_of_head?_dropWhile {first c : Char} {more : List Char}
    (atHead : (more.dropWhile (continuesItem first)).head? = some c) : continuesItem first c = false := by
  have notInside := List.head?_dropWhile_not (continuesItem first) more
  rw [atHead] at notInside
  simpa using notInside

/-- A piece ends before a character that does not continue its item. -/
theorem pieces_eq_cons {source trivia more rest : List Char} {first : Char}
    (cut : splitTrivia false source = (trivia, first :: (more ++ rest)))
    (continues : ∀ c ∈ more, continuesItem first c = true)
    (stop : ∀ c, rest.head? = some c → continuesItem first c = false) :
    pieces source = (⟨trivia, first, more⟩ :: (pieces rest).1, (pieces rest).2) := by
  have taken : (more ++ rest).takeWhile (continuesItem first) = more := by
    rw [List.takeWhile_append_of_pos continues]
    cases rest with
    | nil => exact List.append_nil more
    | cons c rest => simp [stop c rfl]
  have dropped : (more ++ rest).dropWhile (continuesItem first) = rest := by
    rw [List.dropWhile_append_of_pos continues]
    cases rest with
    | nil => rfl
    | cons c rest => simp [stop c rfl]
  rw [pieces_of_cons cut, taken, dropped]

theorem pieces_item_append {first : Char} {more rest : List Char} (item : IsItem first more)
    (stop : ∀ c, rest.head? = some c → continuesItem first c = false) :
    pieces (first :: (more ++ rest)) = (⟨[], first, more⟩ :: (pieces rest).1, (pieces rest).2) := by
  refine pieces_eq_cons ?_ item.continues stop
  simp [splitTrivia, item.notBlank, item.noComment]

/-! ## Line feeds -/

/-- A line feed ends the blanks and comments before it, and also the last comment. -/
theorem splitTrivia_append_newline {inComment : Bool} {source : List Char} (rest : List Char)
    (only : (splitTrivia inComment source).2 = []) :
    splitTrivia inComment (source ++ '\n' :: rest) =
      (source ++ '\n' :: (splitTrivia false rest).1, (splitTrivia false rest).2) := by
  induction source generalizing inComment with
  | nil =>
    have blank : isBlank '\n' = true := by decide
    simp [splitTrivia, isLineEnd, blank]
  | cons c source ih =>
    rw [splitTrivia] at only
    rw [List.cons_append, splitTrivia]
    split at only
    · next comment => rw [if_pos comment, ih only]; rfl
    · next noComment =>
      rw [if_neg noComment]
      split at only
      · next blank => rw [if_pos blank, ih only]; rfl
      · cases only

/-- Behind the first character of an item, nothing matters for what is split off before it. -/
theorem splitTrivia_append_of_cons {inComment : Bool} {source trivia more : List Char} {first : Char}
    (rest : List Char) (cut : splitTrivia inComment source = (trivia, first :: more)) :
    splitTrivia inComment (source ++ rest) = (trivia, first :: (more ++ rest)) := by
  induction source generalizing inComment trivia with
  | nil => cases cut
  | cons c source ih =>
    rw [splitTrivia] at cut
    rw [List.cons_append, splitTrivia]
    split at cut
    · next comment =>
      obtain ⟨rfl, same⟩ := Prod.mk.inj cut
      rw [if_pos comment, ih (Prod.ext rfl same)]
    · next noComment =>
      rw [if_neg noComment]
      split at cut
      · next blank =>
        obtain ⟨rfl, same⟩ := Prod.mk.inj cut
        rw [if_pos blank, ih (Prod.ext rfl same)]
      · next notBlank =>
        obtain ⟨rfl, same⟩ := Prod.mk.inj cut
        obtain ⟨rfl, rfl⟩ := List.cons.inj same
        rw [if_neg notBlank]

/-- The pieces before and behind a line feed are cut on their own. -/
theorem pieces_append_newline (source rest : List Char) :
    pieces (source ++ '\n' :: rest) =
      ((pieces source).1 ++ (indent ((pieces source).2 ++ ['\n']) (pieces rest)).1,
        (indent ((pieces source).2 ++ ['\n']) (pieces rest)).2) := by
  induction source using pieces_induct with
  | blank source trivia cut =>
    have whole := splitTrivia_append false source
    simp only [cut, List.append_nil] at whole
    subst whole
    rw [pieces_of_nil cut]
    apply pieces_eq_indent
    rw [splitTrivia_append_newline rest (congrArg Prod.snd cut), List.append_assoc]
    rfl
  | item source trivia first more cut ih =>
    have cutWhole := splitTrivia_append_of_cons ('\n' :: rest) cut
    -- the item ends where it did before, at the line feed at the latest
    rw [← List.takeWhile_append_dropWhile (p := continuesItem first) (l := more), List.append_assoc] at cutWhole
    rw [pieces_of_cons cut, pieces_eq_cons cutWhole (List.all_eq_true.mp List.all_takeWhile), ih]
    · rfl
    · intro c atHead
      cases later : more.dropWhile (continuesItem first) with
      | nil =>
        rw [later] at atHead
        exact Option.some.inj atHead ▸ continuesItem_eq_false (by decide) (by decide)
      | cons d behind =>
        rw [later] at atHead
        obtain rfl : d = c := Option.some.inj atHead
        exact not_continues_of_head?_dropWhile (congrArg List.head? later)

/-! ## Places -/

theorem map_item_locate (start : Position) (cut : List Piece) :
    (locate start cut).map Lexeme.item = cut.map Piece.read := by
  induction cut generalizing start with
  | nil => rfl
  | cons piece cut ih => rw [locate, List.map_cons, ih, List.map_cons]

theorem locate_append (start : Position) (first second : List Piece) :
    locate start (first ++ second) =
      locate start first ++ locate (start.advance (first.flatMap Piece.chars)) second := by
  induction first generalizing start with
  | nil => rfl
  | cons piece first ih =>
    simp only [List.cons_append, locate, ih, List.flatMap_cons, Piece.chars, Position.advance_append]

theorem locate_indent (start : Position) (trivia : List Char) (cut : List Piece × List Char) :
    locate start (indent trivia cut).1 = locate (start.advance trivia) cut.1 := by
  obtain ⟨_ | ⟨piece, later⟩, trailing⟩ := cut
  · rfl
  · simp only [indent, locate, Position.advance_append]
    rfl

/-- The lexemes behind a line feed are those of the text behind it, found at the place behind it. -/
theorem locate_append_newline (start : Position) (source rest : List Char) :
    locate start (pieces (source ++ '\n' :: rest)).1 =
      locate start (pieces source).1 ++ locate (start.advance (source ++ ['\n'])) (pieces rest).1 := by
  rw [pieces_append_newline, locate_append, locate_indent, ← Position.advance_append, ← List.append_assoc,
    pieces_append]

namespace Position

/-- The place so many lines farther down. -/
def below (lines : Nat) (place : Position) : Position := ⟨place.line + lines, place.column⟩

theorem below_below (first second : Nat) (place : Position) :
    (place.below first).below second = place.below (second + first) := by
  simp only [below, mk.injEq, and_true]
  omega

theorem advance_below (lines : Nat) (place : Position) (run : List Char) :
    (place.below lines).advance run = (place.advance run).below lines := by
  induction run generalizing place with
  | nil => rfl
  | cons c run ih =>
    have here : (place.below lines).after c = (place.after c).below lines := by
      simp only [after, below]
      split
      · simp only [mk.injEq, and_true]
        omega
      · rfl
    exact (congrArg (advance · run) here).trans (ih (place.after c))

theorem line_advance (place : Position) (run : List Char) :
    (place.advance run).line = place.line + run.count '\n' := by
  induction run generalizing place with
  | nil => simp [advance]
  | cons c run ih =>
    have here : (place.after c).line = place.line + if c = '\n' then 1 else 0 := by
      rw [after]
      split <;> simp
    rw [show place.advance (c :: run) = (place.after c).advance run from rfl, ih, here, List.count_cons]
    simp only [beq_iff_eq]
    split <;> omega

/-- The place behind a line feed is the first one of its line. -/
theorem advance_newline (run : List Char) :
    start.advance (run ++ ['\n']) = start.below (run.count '\n' + 1) := by
  have line := line_advance start run
  rw [advance_append]
  simp only [advance, List.foldl_cons, List.foldl_nil, after, below, if_true, mk.injEq] at line ⊢
  exact ⟨by rw [line]; omega, rfl⟩

end Position

/-- The same item so many lines farther down. -/
def Lexeme.below (lines : Nat) (lexeme : Lexeme) : Lexeme := ⟨lexeme.item, lexeme.place.below lines⟩

theorem locate_below (lines : Nat) (start : Position) (cut : List Piece) :
    locate (start.below lines) cut = (locate start cut).map (.below lines) := by
  induction cut generalizing start with
  | nil => rfl
  | cons piece cut ih => simp only [locate, Position.advance_below, ih, List.map_cons, Lexeme.below]

/-! ## A semicolon between sources -/

/-- How many lines a source goes down when it is put behind another one and a line with a semicolon. -/
def linesBefore (first : String) : Nat := first.toList.count '\n' + 2

private theorem toList_separated (first second : String) :
    (first ++ "\n;\n" ++ second).toList = first.toList ++ '\n' :: ([';'] ++ '\n' :: second.toList) := by
  simp [String.toList_append]

private theorem advance_separator (first : String) :
    (Position.start.advance (first.toList ++ ['\n'])).advance [';', '\n'] =
      Position.start.below (linesBefore first) := by
  rw [Position.advance_newline, Position.advance_below]
  exact Position.below_below 1 _ .start

/-- The lexemes of two sources with a semicolon between them. -/
theorem lexemes_separated (first second : String) :
    ∃ place, lexemes (first ++ "\n;\n" ++ second) =
      lexemes first ++ ⟨.token (.char ';'), place⟩ :: (lexemes second).map (.below (linesBefore first)) := by
  have semicolon : pieces [';'] = ([⟨[], ';', []⟩], []) := by
    have item : IsItem ';' [] := ⟨by decide, by decide, List.forall_mem_nil _⟩
    rw [show [';'] = ';' :: ([] ++ []) from rfl, pieces_item_append item (by simp), pieces_of_nil rfl]
  refine ⟨Position.start.advance (first.toList ++ ['\n']), ?_⟩
  rw [lexemes, toList_separated, locate_append_newline, locate_append_newline, semicolon, ← lexemes]
  simp only [List.cons_append, List.nil_append, advance_separator, locate_below, locate]
  rfl

theorem finalPlace_separated (first second : String) :
    finalPlace (first ++ "\n;\n" ++ second) = (finalPlace second).below (linesBefore first) := by
  have whole : first.toList ++ '\n' :: ([';'] ++ '\n' :: second.toList) =
      (first.toList ++ ['\n']) ++ ([';', '\n'] ++ second.toList) := by simp
  rw [finalPlace, toList_separated, whole, Position.advance_append, Position.advance_append, advance_separator,
    Position.advance_below, finalPlace]

end OpLang

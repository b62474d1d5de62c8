import OpLang.Proofs.Layout
import OpLang.Proofs.Lockstep
import OpLang.Proofs.MaximalMunch

/-! # Layout between items

Blanks and comments may be put before any item, behind it, and around the whole source. What is put there continues
no item and opens no comment that it does not close, so the source is cut into the same items, each of which is only
found in another place; and a parser never looks at places.
-/

namespace OpLang

open OpLang.Text

/-- Blanks, and comments with the line feed or carriage return that ends them. -/
inductive IsLayout : List Char → Prop
  | nil : IsLayout []
  | blank {c : Char} {rest : List Char} (blank : isBlank c = true) (more : IsLayout rest) : IsLayout (c :: rest)
  | comment {body rest : List Char} {stop : Char} (inside : ∀ c ∈ body, isLineEnd c = false)
      (ends : isLineEnd stop = true) (more : IsLayout rest) : IsLayout ('#' :: (body ++ stop :: rest))

/-- Where a source may be cut in two: before an item, behind an item or at the beginning, and at the end. -/
inductive Gap (source : List Char) : List Char → List Char → Prop
  | before {earlier later : List Piece} {piece : Piece} (cut : (pieces source).1 = earlier ++ piece :: later) :
      Gap source (earlier.flatMap Piece.chars ++ piece.trivia)
        (piece.item ++ (later.flatMap Piece.chars ++ (pieces source).2))
  | behind {earlier later : List Piece} (cut : (pieces source).1 = earlier ++ later) :
      Gap source (earlier.flatMap Piece.chars) (later.flatMap Piece.chars ++ (pieces source).2)
  | ended : Gap source source []

/-! ## Layout in front -/

namespace IsLayout

variable {layout other : List Char}

theorem append (isLayout : IsLayout layout) (otherToo : IsLayout other) : IsLayout (layout ++ other) := by
  induction isLayout with
  | nil => exact otherToo
  | blank blank _ ih => exact .blank blank ih
  | comment inside ends _ ih =>
    rw [List.cons_append, List.append_assoc, List.cons_append]
    exact .comment inside ends ih

/-- Layout continues no item. -/
theorem not_continues (isLayout : IsLayout layout) {c : Char} (atHead : layout.head? = some c) (first : Char) :
    continuesItem first c = false := by
  cases isLayout with
  | nil => cases atHead
  | blank blank =>
    cases atHead
    refine continuesItem_eq_false (isWordChar_of_isBlank blank) ?_
    rw [Bool.eq_false_iff]
    intro number
    rw [(isNumberChar_classes number).2.1] at blank
    cases blank
  | comment =>
    cases atHead
    exact continuesItem_eq_false (by decide) (by decide)

end IsLayout

/-- A comment that has begun goes on as long as its line does. -/
theorem splitTrivia_comment {body : List Char} (inside : ∀ c ∈ body, isLineEnd c = false) (rest : List Char) :
    splitTrivia true (body ++ rest) = (body ++ (splitTrivia true rest).1, (splitTrivia true rest).2) := by
  induction body with
  | nil => rfl
  | cons c body ih =>
    obtain ⟨here, inside⟩ := List.forall_mem_cons.mp inside
    simp [splitTrivia, here, ih inside]

/-- A blank is split off by itself outside of comments, or if it ends one. -/
theorem splitTrivia_blank {inComment : Bool} {c : Char} (blank : isBlank c = true)
    (outside : inComment = false ∨ isLineEnd c = true) (rest : List Char) :
    splitTrivia inComment (c :: rest) = (c :: (splitTrivia false rest).1, (splitTrivia false rest).2) := by
  have noSign : c ≠ '#' := by
    rintro rfl
    exact absurd blank (by decide)
  rcases outside with rfl | ends
  · simp [splitTrivia, blank, noSign]
  · simp [splitTrivia, blank, noSign, ends]

namespace IsLayout

variable {layout : List Char}

/-- Layout is split off as a whole, with the trivia behind it. -/
theorem splitTrivia_append (isLayout : IsLayout layout) (rest : List Char) :
    splitTrivia false (layout ++ rest) = (layout ++ (splitTrivia false rest).1, (splitTrivia false rest).2) := by
  induction isLayout with
  | nil => rfl
  | blank blank _ ih => rw [List.cons_append, splitTrivia_blank blank (.inl rfl), ih, List.cons_append]
  | comment inside ends _ ih =>
    have opened (text : List Char) :
        splitTrivia false ('#' :: text) = ('#' :: (splitTrivia true text).1, (splitTrivia true text).2) := rfl
    rw [List.cons_append, List.append_assoc, List.cons_append, opened, splitTrivia_comment inside,
      splitTrivia_blank (isBlank_of_isLineEnd ends) (.inr ends), ih]
    simp only [List.cons_append, List.append_assoc]

theorem pieces_append (isLayout : IsLayout layout) (rest : List Char) :
    pieces (layout ++ rest) = indent layout (pieces rest) :=
  pieces_eq_indent (isLayout.splitTrivia_append rest)

/-- Layout leaves nothing to be read, also behind a comment that was not ended. -/
theorem splitTrivia_eq_nil (isLayout : IsLayout layout) (inComment : Bool) :
    (splitTrivia inComment layout).2 = [] := by
  induction isLayout generalizing inComment with
  | nil => rfl
  | blank blank _ ih =>
    rw [splitTrivia]
    split
    · exact ih true
    · exact ih false
  | @comment body rest stop inside ends _ ih =>
    have opened : splitTrivia inComment ('#' :: (body ++ stop :: rest)) =
        ('#' :: (splitTrivia true (body ++ stop :: rest)).1, (splitTrivia true (body ++ stop :: rest)).2) := by
      simp [splitTrivia]
    rw [opened, splitTrivia_comment inside, splitTrivia_blank (isBlank_of_isLineEnd ends) (.inr ends)]
    exact ih false

end IsLayout

/-- Layout behind trivia leaves nothing to be read either. -/
theorem splitTrivia_append_eq_nil {inComment : Bool} {text layout : List Char}
    (only : (splitTrivia inComment text).2 = []) (isLayout : IsLayout layout) :
    (splitTrivia inComment (text ++ layout)).2 = [] := by
  induction text generalizing inComment with
  | nil => exact isLayout.splitTrivia_eq_nil inComment
  | cons c text ih =>
    rw [splitTrivia] at only
    rw [List.cons_append, splitTrivia]
    split at only
    · next comment =>
      rw [if_pos comment]
      exact ih only
    · next noComment =>
      rw [if_neg noComment]
      split at only
      · next blank =>
        rw [if_pos blank]
        exact ih only
      · cases only

/-- A comment may begin one character earlier. -/
theorem IsLayout.comment_cons {c : Char} {rest : List Char} (isLayout : IsLayout ('#' :: rest))
    (goesOn : isLineEnd c = false) : IsLayout ('#' :: c :: rest) := by
  cases isLayout with
  | blank blank => exact absurd blank (by decide)
  | comment inside ends more => exact .comment (List.forall_mem_cons.mpr ⟨goesOn, inside⟩) ends more

/-- Before an item every comment has been ended, also one in which the text begins. -/
theorem isLayout_of_splitTrivia {inComment : Bool} {source trivia more : List Char} {first : Char}
    (cut : splitTrivia inComment source = (trivia, first :: more)) :
    IsLayout (if inComment then '#' :: trivia else trivia) := by
  induction source generalizing inComment trivia with
  | nil => cases cut
  | cons c source ih =>
    rw [splitTrivia] at cut
    split at cut
    · next comment =>
      obtain ⟨rfl, behind⟩ := Prod.mk.inj cut
      have opened : IsLayout ('#' :: (splitTrivia true source).1) := ih (Prod.ext rfl behind)
      cases inComment with
      | false =>
        obtain rfl : c = '#' := by simpa using comment
        exact opened
      | true =>
        refine opened.comment_cons ?_
        rcases Bool.or_eq_true_iff.mp comment with goesOn | sign
        · simpa using goesOn
        · rw [decide_eq_true_eq.mp sign]
          decide
    · next noComment =>
      split at cut
      · next blank =>
        obtain ⟨rfl, behind⟩ := Prod.mk.inj cut
        have outside : IsLayout (splitTrivia false source).1 := ih (Prod.ext rfl behind)
        cases inComment with
        | false => exact .blank blank outside
        | true => exact .comment (List.forall_mem_nil _) (by simp_all) outside
      · next notBlank =>
        obtain ⟨rfl, _⟩ := Prod.mk.inj cut
        cases inComment with
        | false => exact .nil
        | true =>
          have ends : isLineEnd c = true := by simp_all
          exact absurd (isBlank_of_isLineEnd ends) notBlank

/-! ## Items behind -/

/-- What follows some pieces of a source may be replaced, unless the new text continues the item before it. -/
theorem pieces_resume {source : List Char} {earlier later : List Piece} (cut : (pieces source).1 = earlier ++ later)
    {rest : List Char} (stop : ∀ c, rest.head? = some c →
      (later.flatMap Piece.chars ++ (pieces source).2).head? = some c ∨ ∀ first, continuesItem first c = false) :
    pieces (earlier.flatMap Piece.chars ++ rest) = (earlier ++ (pieces rest).1, (pieces rest).2) := by
  induction earlier generalizing source with
  | nil => rfl
  | cons piece earlier ih =>
    rcases split : splitTrivia false source with ⟨trivia, _ | ⟨first, more⟩⟩
    · rw [pieces_of_nil split] at cut
      cases cut
    · rw [pieces_of_cons split] at cut stop
      obtain ⟨rfl, following⟩ := List.cons.inj cut
      replace following : (pieces (more.dropWhile (continuesItem first))).1 = earlier ++ later := following
      have before : IsLayout trivia := isLayout_of_splitTrivia split
      obtain ⟨notBlank, noComment⟩ := splitTrivia_first split
      have again (text : List Char) : splitTrivia false (trivia ++ first :: text) = (trivia, first :: text) := by
        rw [before.splitTrivia_append]
        simp [splitTrivia, notBlank, noComment]
      have behind := pieces_append (more.dropWhile (continuesItem first))
      rw [following, List.flatMap_append, List.append_assoc] at behind
      -- the item ends where it did: at the next piece, or at the new text if there is none
      have ends : ∀ c, (earlier.flatMap Piece.chars ++ rest).head? = some c → continuesItem first c = false := by
        intro c atHead
        cases atEarlier : earlier.flatMap Piece.chars with
        | nil =>
          rw [atEarlier] at atHead behind
          rcases stop c atHead with same | never
          · exact not_continues_of_head?_dropWhile ((congrArg List.head? behind).symm.trans same)
          · exact never first
        | cons d text =>
          rw [atEarlier] at atHead behind
          exact not_continues_of_head?_dropWhile ((congrArg List.head? behind).symm.trans atHead)
      have whole : (⟨trivia, first, more.takeWhile (continuesItem first)⟩ :: earlier).flatMap Piece.chars ++ rest =
          trivia ++ first :: (more.takeWhile (continuesItem first) ++ (earlier.flatMap Piece.chars ++ rest)) := by
        simp [Piece.chars, Piece.item]
      rw [whole, pieces_eq_cons (again _) (List.all_eq_true.mp List.all_takeWhile) ends, ih following stop]
      rfl

/-- What is read behind some pieces of a source is what is left of it. -/
theorem pieces_behind {source : List Char} {earlier later : List Piece} (cut : (pieces source).1 = earlier ++ later) :
    pieces (later.flatMap Piece.chars ++ (pieces source).2) = (later, (pieces source).2) := by
  have resumed := pieces_resume cut fun _ atHead => .inl atHead
  have whole := pieces_append source
  rw [cut, List.flatMap_append, List.append_assoc] at whole
  rw [whole] at resumed
  have same := congrArg Prod.fst resumed
  rw [cut] at same
  exact Prod.ext (List.append_cancel_left same).symm (congrArg Prod.snd resumed).symm

/-! ## Layout in gaps -/

/-- Outside of comments layout may be put anywhere between two items. -/
theorem read_insert {source : List Char} {earlier later : List Piece} (cut : (pieces source).1 = earlier ++ later)
    {trivia after layout : List Char} (whole : later.flatMap Piece.chars ++ (pieces source).2 = trivia ++ after)
    (closed : IsLayout trivia) (isLayout : IsLayout layout) :
    (pieces (earlier.flatMap Piece.chars ++ trivia ++ (layout ++ after))).1.map Piece.read =
      (pieces source).1.map Piece.read := by
  have stop : ∀ c, (trivia ++ layout ++ after).head? = some c →
      (later.flatMap Piece.chars ++ (pieces source).2).head? = some c ∨ ∀ first, continuesItem first c = false := by
    intro c atHead
    cases between : trivia ++ layout with
    | nil =>
      -- nothing was put there, so the text goes on as before
      obtain ⟨rfl, rfl⟩ := List.append_eq_nil_iff.mp between
      exact .inl (whole ▸ atHead)
    | cons d text =>
      rw [between] at atHead
      exact .inr ((closed.append isLayout).not_continues (between ▸ atHead))
  have rest := pieces_behind cut
  rw [whole, closed.pieces_append] at rest
  have same := map_read_indent trivia (pieces after)
  rw [rest] at same
  rw [List.append_assoc, ← List.append_assoc trivia, pieces_resume cut stop, (closed.append isLayout).pieces_append,
    List.map_append, map_read_indent, ← same, cut, List.map_append]

/-- Layout behind a source adds no item. -/
theorem read_append_layout (source : List Char) {layout : List Char} (isLayout : IsLayout layout) :
    (pieces (source ++ layout)).1.map Piece.read = (pieces source).1.map Piece.read := by
  have cut : (pieces source).1 = (pieces source).1 ++ [] := (List.append_nil _).symm
  have trailing := pieces_behind cut
  -- a comment may be open at the end of the source; what is put there then belongs to it, or ends it
  have only : (splitTrivia false (pieces source).2).2 = [] := by
    rcases split : splitTrivia false (pieces source).2 with ⟨trivia, _ | ⟨first, more⟩⟩
    · rfl
    · rw [List.flatMap_nil, List.nil_append, pieces_of_cons split] at trailing
      cases trailing
  have nothing := pieces_of_nil (Prod.ext rfl (splitTrivia_append_eq_nil only isLayout))
  have stop : ∀ c, ((pieces source).2 ++ layout).head? = some c →
      (pieces source).2.head? = some c ∨ ∀ first, continuesItem first c = false := by
    intro c atHead
    cases atTrailing : (pieces source).2 with
    | nil =>
      rw [atTrailing] at atHead
      exact .inr (isLayout.not_continues atHead)
    | cons d text =>
      rw [atTrailing] at atHead
      exact .inl atHead
  have resumed := pieces_resume cut stop
  rw [← List.append_assoc, OpLang.pieces_append] at resumed
  rw [resumed, nothing, List.append_nil]

namespace Gap

variable {source before after layout : List Char}

theorem append (gap : Gap source before after) : before ++ after = source := by
  have whole := OpLang.pieces_append source
  cases gap with
  | before cut =>
    rw [cut] at whole
    simpa [Piece.chars] using whole
  | behind cut =>
    rw [cut] at whole
    simpa using whole
  | ended => exact List.append_nil source

/-- The same items are read from a source with layout in a gap. -/
theorem read (gap : Gap source before after) (isLayout : IsLayout layout) :
    (pieces (before ++ (layout ++ after))).1.map Piece.read = (pieces source).1.map Piece.read := by
  cases gap with
  | @before earlier later piece cut =>
    have rest := pieces_behind cut
    have whole : (piece :: later).flatMap Piece.chars ++ (pieces source).2 =
        piece.trivia ++ (piece.item ++ (later.flatMap Piece.chars ++ (pieces source).2)) := by
      simp [Piece.chars]
    refine read_insert cut whole ?_ isLayout
    rcases split : splitTrivia false ((piece :: later).flatMap Piece.chars ++ (pieces source).2) with
      ⟨trivia, _ | ⟨first, more⟩⟩
    · rw [pieces_of_nil split] at rest
      cases rest
    · rw [pieces_of_cons split] at rest
      obtain ⟨rfl, _⟩ := List.cons.inj (Prod.mk.inj rest).1
      exact isLayout_of_splitTrivia split
  | @behind earlier later cut =>
    have inserted := read_insert cut (List.nil_append _).symm .nil isLayout
    rwa [List.append_nil] at inserted
  | ended =>
    rw [List.append_nil]
    exact read_append_layout source isLayout

end Gap

/-! ## Cursors on the same items -/

namespace Cursor

/-- Two cursors that stand on the same token before the same items, wherever these are found. -/
def SameItems (first second : Cursor) : Prop :=
  first.current = second.current ∧ first.unread.map Lexeme.item = second.unread.map Lexeme.item

theorem Bisimulation.sameItems : Bisimulation SameItems where
  current related := related.1
  remaining related := by
    have length := congrArg List.length related.2
    rw [List.length_map, List.length_map] at length
    simp only [Cursor.remaining, related.1, length]
  advance := by
    rintro ⟨current, place, unread, finish⟩ ⟨_, placeToo, unreadToo, finishToo⟩ ⟨rfl, items⟩
    rcases unread with _ | ⟨⟨token | run, found⟩, later⟩
    · obtain rfl := List.map_eq_nil_iff.mp items.symm
      exact .ok ⟨rfl, rfl⟩
    · obtain ⟨⟨_, _⟩, laterToo, rfl, rfl, rest⟩ := List.map_eq_cons_iff.mp items.symm
      exact .ok ⟨rfl, rest.symm⟩
    · obtain ⟨⟨_, _⟩, laterToo, rfl, rfl, rest⟩ := List.map_eq_cons_iff.mp items.symm
      exact .error ⟨rfl, rest.symm⟩

theorem SameItems.after {first second : Cursor} (related : first.SameItems second) (steps : Nat) :
    (first.after steps).SameItems (second.after steps) := by
  induction steps generalizing first second with
  | zero => exact related
  | succ steps ih =>
    have outcomes := Bisimulation.sameItems.advance first second related
    rw [Cursor.after, Cursor.after]
    generalize advance first = one, advance second = other at outcomes ⊢
    cases outcomes with
    | ok related => exact ih related
    | error related => exact ih related

end Cursor

theorem resemblance_sameItems :
    Resemblance Cursor.SameItems Eq fun left right => left.error = right.error where
  bisim := .sameItems
  comparable := by
    rintro table _ rfl
    exact Cursor.Bisimulation.sameItems.comparable 0 table
  record := by
    rintro table _ rfl forms
    rfl
  diagnosed _ _ := rfl

/-- Layout never matters. If blanks and ended comments are put into a gap of a source, its lexemes are the same items
as before, and a cursor that steps through it meets them at the same steps; the listener is told the same, the same
errors are diagnosed, and the same operators are left behind. -/
theorem layout_irrelevant (table : OperatorTable) {source : String} {before after layout : List Char}
    (gap : Gap source.toList before after) (isLayout : IsLayout layout) :
    let spread := String.ofList (before ++ (layout ++ after))
    before ++ after = source.toList ∧
      (lexemes spread).map Lexeme.item = (lexemes source).map Lexeme.item ∧
      (∀ steps, Agree Cursor.SameItems (Cursor.advance ((Cursor.ofSource spread).after steps))
        (Cursor.advance ((Cursor.ofSource source).after steps))) ∧
      (parse table spread).notifications = (parse table source).notifications ∧
      (parse table spread).diagnostics.map Diagnostic.error = (parse table source).diagnostics.map Diagnostic.error ∧
      (parse table spread).table = (parse table source).table := by
  intro spread
  have items : (lexemes spread).map Lexeme.item = (lexemes source).map Lexeme.item := by
    rw [lexemes, lexemes, map_item_locate, map_item_locate, String.toList_ofList, gap.read isLayout]
  have cursors : (Cursor.ofSource spread).SameItems (.ofSource source) := ⟨rfl, items⟩
  obtain ⟨told, diagnosed, recorded⟩ := resemblance_sameItems.parse cursors (Eq.refl table)
  refine ⟨gap.append, items, fun steps => Cursor.Bisimulation.sameItems.advance _ _ (cursors.after steps), told, ?_,
    recorded⟩
  rw [← List.forall₂_eq_eq_eq, List.forall₂_map_left_iff, List.forall₂_map_right_iff]
  exact diagnosed

/-- A word that ends where a number with a leading point begins may be parted from it by a comment of points that a
carriage return ends; the malformed number behind is diagnosed as before. -/
theorem layout_irrelevant_points :
    Gap "f(ab12.5 1.2.3)".toList "f(ab12".toList ".5 1.2.3)".toList ∧ IsLayout [' ', '#', '.', '.', '\r'] ∧
      (lexemes "f(ab12 #..\r.5 1.2.3)").map Lexeme.item = (lexemes "f(ab12.5 1.2.3)").map Lexeme.item ∧
      (parse .standard "f(ab12 #..\r.5 1.2.3)").diagnostics.map Diagnostic.error =
        (parse .standard "f(ab12.5 1.2.3)").diagnostics.map Diagnostic.error ∧
      (parse .standard "f(ab12.5 1.2.3)").diagnostics.length = 3 := by
  have cut : (pieces "f(ab12.5 1.2.3)".toList).1 =
      [⟨[], 'f', []⟩, ⟨[], '(', []⟩, ⟨[], 'a', ['b', '1', '2']⟩] ++
        [⟨[], '.', ['5']⟩, ⟨[' '], '1', ['.', '2', '.', '3']⟩, ⟨[], ')', []⟩] := by decide +kernel
  have trailing : (pieces "f(ab12.5 1.2.3)".toList).2 = [] := by decide +kernel
  have gap := Gap.behind cut
  rw [trailing] at gap
  have isComment : IsLayout ('#' :: (['.', '.'] ++ '\r' :: [])) := .comment (by simp [isLineEnd]) (by decide) .nil
  have isLayout : IsLayout [' ', '#', '.', '.', '\r'] := .blank (by decide) isComment
  obtain ⟨_, items, _, _, diagnosed, _⟩ := layout_irrelevant .standard gap isLayout
  exact ⟨gap, isLayout, items, diagnosed, by decide +kernel⟩

end OpLang

import OpLang.Proofs.Progress
import OpLang.Proofs.Relocation

/-! # Recovery leaves no residue

Whenever a run looks at the current token, it might as well begin there. The lexemes that it has not read are those of
the text behind the token, found in the places behind it; no rule is open and no form waits; and the operators are
those of the table. A form that was given up leaves none of its tokens, nor the depth at which it failed, nor the
token on which it was stuck when a malformed number came up. So the rest of the run is a run on the rest of the
source, with the places counted from where the rest begins.
-/

namespace OpLang

/-! ## Places of a part -/

/-- Where a place of a text lies if the text begins at the origin: on its first line it is as far to the right as
the origin, on the lines below as far down. -/
def Position.translate (origin place : Position) : Position :=
  if place.line = 1 then ⟨origin.line, origin.column + (place.column - 1)⟩
  else ⟨origin.line + (place.line - 1), place.column⟩

namespace Position

@[simp] theorem translate_start (origin : Position) : origin.translate start = origin := by
  simp [translate, start]

theorem advance_translate (origin : Position) {place : Position} (inside : 1 ≤ place.line) (run : List Char) :
    (origin.translate place).advance run = origin.translate (place.advance run) := by
  induction run generalizing place with
  | nil => rfl
  | cons c run ih =>
    have here : (origin.translate place).after c = origin.translate (place.after c) := by
      have below : ¬ place.line + 1 = 1 := by omega
      by_cases lineFeed : c = '\n'
      · rw [after, if_pos lineFeed, after, if_pos lineFeed, translate, translate, if_neg below]
        split
        · simp only [mk.injEq, and_true]
          omega
        · simp only [mk.injEq, and_true]
          omega
      · rw [after, if_neg lineFeed, after, if_neg lineFeed, translate, translate]
        split
        · simp only [mk.injEq, true_and]
          omega
        · rfl
    have insideToo : 1 ≤ (place.after c).line := by
      rw [after]
      split
      · exact Int.le_add_one inside
      · exact inside
    exact (congrArg (advance · run) here).trans (ih insideToo)

theorem advance_eq_translate (origin : Position) (run : List Char) :
    origin.advance run = origin.translate (start.advance run) := by
  have moved := advance_translate origin (Int.le_refl start.line) run
  rwa [translate_start] at moved

end Position

theorem locate_translate (origin : Position) {place : Position} (inside : 1 ≤ place.line) (cut : List Piece) :
    locate (origin.translate place) cut = (locate place cut).map (.relocate origin.translate) := by
  induction cut generalizing place with
  | nil => rfl
  | cons piece cut ih =>
    have line (run : List Char) : 1 ≤ (place.advance run).line := by
      rw [Position.line_advance]
      omega
    have further := ih (line (piece.trivia ++ piece.item))
    simp only [locate, List.map_cons, Lexeme.relocate, Position.advance_translate origin inside]
    rw [Position.advance_translate origin (line _), ← Position.advance_append, further]

/-! ## Cursors in their source -/

namespace Cursor

/-- What the cursor has not read are the lexemes of some rest of the source. -/
def Within (source : List Char) (cursor : Cursor) : Prop :=
  ∃ behind rest, source = behind ++ rest ∧
    cursor.unread = locate (Position.start.advance behind) (pieces rest).1 ∧
    cursor.finish = Position.start.advance source

/-- The cursor stands on an item of the source with all of the rest unread, or at its end. -/
inductive On (source : List Char) : Cursor → Prop
  | token {before more rest : List Char} {first : Char} {token : Token}
      (whole : source = before ++ first :: (more ++ rest)) (item : IsItem first more)
      (stop : ∀ c, rest.head? = some c → continuesItem first c = false)
      (read : Piece.read ⟨[], first, more⟩ = .token token) :
      On source ⟨token, Position.start.advance before,
        locate (Position.start.advance (before ++ first :: more)) (pieces rest).1, Position.start.advance source⟩
  | ended : On source ⟨.endOfInput, Position.start.advance source, [], Position.start.advance source⟩

variable {source : List Char} {cursor next : Cursor}

theorem On.within (on : cursor.On source) : cursor.Within source := by
  cases on with
  | @token before more rest first _ whole =>
    exact ⟨before ++ first :: more, rest, by rw [whole, List.append_assoc, List.cons_append], rfl, rfl⟩
  | ended => exact ⟨source, [], (List.append_nil source).symm, by rw [pieces_of_nil rfl]; rfl, rfl⟩

theorem Within.finish (within : cursor.Within source) : cursor.finish = Position.start.advance source := by
  obtain ⟨_, _, _, _, finish⟩ := within
  exact finish

/-- The next lexeme is the first item of the rest, and behind it another rest begins. -/
theorem Within.unread_eq (within : cursor.Within source) :
    cursor.unread = [] ∨ ∃ before more rest first,
      source = before ++ first :: (more ++ rest) ∧ IsItem first more ∧
      (∀ c, rest.head? = some c → continuesItem first c = false) ∧
      cursor.unread = ⟨Piece.read ⟨[], first, more⟩, Position.start.advance before⟩ ::
        locate (Position.start.advance (before ++ first :: more)) (pieces rest).1 := by
  obtain ⟨behind, rest, rfl, unread, _⟩ := within
  rcases cut : splitTrivia false rest with ⟨trivia, _ | ⟨first, more⟩⟩
  · rw [pieces_of_nil cut] at unread
    exact .inl unread
  · have left := List.takeWhile_append_dropWhile (p := continuesItem first) (l := more)
    have whole := splitTrivia_append false rest
    obtain ⟨notBlank, noComment⟩ := splitTrivia_first cut
    rw [pieces_of_cons cut] at unread
    rw [cut] at whole
    refine .inr ⟨behind ++ trivia, more.takeWhile (continuesItem first), more.dropWhile (continuesItem first), first,
      ?_, ⟨notBlank, noComment, List.all_eq_true.mp List.all_takeWhile⟩,
      fun c => not_continues_of_head?_dropWhile, ?_⟩
    · rw [left, List.append_assoc, whole]
    · rw [unread, locate, ← Position.advance_append, ← Position.advance_append]
      rfl

theorem Within.advance_ok (within : cursor.Within source) (step : advance cursor = .ok () next) :
    next.On source := by
  rcases within.unread_eq with nothing | ⟨before, more, rest, first, whole, item, stop, unread⟩
  · simp only [advance, nothing, within.finish] at step
    cases step
    exact .ended
  · cases read : Piece.read ⟨[], first, more⟩ with
    | malformed run =>
      rw [read] at unread
      simp only [advance, unread] at step
      cases step
    | token token =>
      rw [read] at unread
      simp only [advance, unread, within.finish] at step
      cases step
      exact .token whole item stop read

theorem Within.stoppedAt_advance (within : cursor.Within source) : (stoppedAt (advance cursor)).Within source := by
  cases step : advance cursor with
  | ok _ next => exact (within.advance_ok step).within
  | error fault next =>
    obtain ⟨run, place, later, unread, _, rfl⟩ := advance_error step
    rcases within.unread_eq with nothing | ⟨before, more, rest, first, whole, _, _, same⟩
    · rw [nothing] at unread
      cases unread
    · obtain ⟨_, rfl⟩ := List.cons.inj (unread.symm.trans same)
      exact ⟨before ++ first :: more, rest, by rw [whole, List.append_assoc, List.cons_append], rfl, within.finish⟩

theorem Within.advanceOver (within : cursor.Within source) : cursor.advanceOver.2.On source := by
  induction cursor using advanceOver_induct with
  | ok step => exact within.advance_ok step
  | error step ih =>
    have behind := within.stoppedAt_advance
    rw [step] at behind
    exact ih behind

theorem Crosses.on {tokens : List Token} {last : Cursor} (crossed : Crosses cursor tokens last)
    (on : cursor.On source) : last.On source := by
  induction crossed with
  | nil => exact on
  | cons step _ ih => exact ih (on.within.advance_ok step)

/-- A cursor in its source is the first cursor of the text that begins with its token, in another place. -/
theorem On.eq_relocate {source : String} {cursor : Cursor} (on : cursor.On source.toList) :
    ∃ before suffix first, source = before ++ suffix ∧
      (cursor.current = .endOfInput ∧ suffix = "" ∨
        ∃ later, lexemes suffix = ⟨.token cursor.current, .start⟩ :: later) ∧
      (ofSource suffix).advanceOver = ([], first) ∧ first.place = .start ∧
      cursor = first.relocate (Position.start.advance before.toList).translate := by
  generalize text : source.toList = chars at on
  obtain rfl : source = String.ofList chars := by rw [← text, String.ofList_toList]
  cases on with
  | @token before more rest first token whole item stop read =>
    have lexed : lexemes (String.ofList (first :: (more ++ rest))) = ⟨.token token, .start⟩ ::
        locate (Position.start.advance (first :: more)) (pieces rest).1 := by
      rw [lexemes, String.toList_ofList, pieces_item_append item stop, locate, ← read]
      rfl
    refine ⟨String.ofList before, String.ofList (first :: (more ++ rest)), _, by rw [whole, String.ofList_append],
      .inr ⟨_, lexed⟩, by rw [advanceOver, ofSource, lexed]; rfl, rfl, ?_⟩
    have inside : 1 ≤ (Position.start.advance (first :: more)).line := by
      have line : Position.start.line = 1 := rfl
      rw [Position.line_advance, line]
      omega
    simp only [relocate, Position.translate_start, String.toList_ofList, finalPlace, ← Position.advance_eq_translate,
      ← locate_translate _ inside, ← Position.advance_append, whole]
  | ended =>
    have lexed : lexemes "" = [] := by
      rw [lexemes, String.toList_empty, pieces_of_nil rfl]
      rfl
    refine ⟨String.ofList chars, "", _, by rw [String.append_empty], .inl ⟨rfl, rfl⟩,
      by rw [advanceOver, ofSource, lexed]; rfl, rfl, ?_⟩
    have here : Position.start.advance [] = .start := rfl
    simp only [relocate, finalPlace, String.toList_empty, String.toList_ofList, here, Position.translate_start,
      List.map_nil]

end Cursor

/-! ## Runs in their source -/

namespace Parser

variable {table : OperatorTable} {source : String} {parser : Parser}

/-- Whenever a run looks at the current token, nothing that was given up is left of the text before it. -/
theorem Visits.on (visited : (ofSource table source).withListener.Visits parser) :
    parser.cursor.On source.toList := by
  induction visited with
  | start =>
    have within : (Cursor.ofSource source).Within source.toList := ⟨[], source.toList, rfl, rfl, rfl⟩
    exact within.advanceOver
  | @step parser before inside ih =>
    have ready := before.ready (ready_ofSource table source)
    by_cases separator : parser.cursor.current = .char ';'
    · rw [separator]
      exact ih.within.advanceOver
    · rw [step_of_ne separator, process_eq ready.idle]
      cases read : Grammar.form parser.table (.announcedBy parser.cursor.current) parser.cursor with
      | ok form last =>
        obtain ⟨tokens, crossed, _⟩ := (Grammar.form_ok_iff ready.spelled separator).mp read
        exact crossed.on ih
      | error fault last =>
        have bisim : Cursor.Bisimulation fun first second => first = second ∧ first.Within source.toList :=
          .ofInvariant fun _ within => within.stoppedAt_advance
        have stopped := (Grammar.form_blind bisim parser.table
          (.announcedBy parser.cursor.current)).invariant ih.within
        rw [read] at stopped
        exact stopped.advanceOver

theorem Visits.listening (visited : (ofSource table source).withListener.Visits parser) :
    parser.delivery.listener = some () := by
  induction visited with
  | start => rfl
  | @step parser before inside ih =>
    obtain ⟨forms, _, told, _⟩ := step_record (before.ready (ready_ofSource table source))
    rw [told, Delivery.tell, ih]

end Parser

/-- Whenever a run looks at the current token, the rest of the run is a run of its own on the rest of the source,
which begins with that token or is empty at the end: it hands out the same forms, gives the same diagnostics, found
where the rest begins, and leaves the same table. -/
theorem run_resumes_afresh {table : OperatorTable} {source : String} {parser : Parser}
    (visited : (Parser.ofSource table source).withListener.Visits parser) :
    ∃ before suffix, source = before ++ suffix ∧
      (parser.cursor.current = .endOfInput ∧ suffix = "" ∨
        ∃ later, lexemes suffix = ⟨.token parser.cursor.current, .start⟩ :: later) ∧
      parser.cursor.place = Position.start.advance before.toList ∧
      parser.run.notifications = parser.notifications ++ (parse parser.table suffix).notifications ∧
      parser.run.diagnostics = parser.diagnostics ++
        (parse parser.table suffix).diagnostics.map (.relocate parser.cursor.place.translate) ∧
      parser.run.table = (parse parser.table suffix).table := by
  obtain ⟨before, suffix, first, whole, begins, skipped, atStart, cursor⟩ := visited.on.eq_relocate
  have ready := visited.ready (Parser.ready_ofSource table source)
  have place : parser.cursor.place = Position.start.advance before.toList := by
    rw [cursor, Cursor.relocate, atStart, Position.translate_start]
  -- all that a run depends on is as at a beginning; what was handed out and diagnosed before stays in front
  have same : parser = (Parser.ofSource parser.table suffix).withListener.relocate parser.cursor.place.translate
      parser.delivery.delivered parser.diagnostics := by
    have listening := visited.listening
    obtain ⟨noRule, noForm⟩ := ready.idle
    rw [← place] at cursor
    simp only [Parser.ofSource, Parser.skip, skipped, Parser.withListener, Parser.relocate, Delivery.attach,
      List.append_nil, List.map_nil]
    rw [← cursor]
    obtain ⟨_, _, ⟨_, _, _, _⟩, _⟩ := parser
    cases noRule
    cases noForm
    cases listening
    rfl
  have runs := congrArg Parser.run same
  rw [Parser.run_relocate (Parser.ready_ofSource parser.table suffix)] at runs
  refine ⟨before, suffix, whole, begins, place, ?_, ?_, ?_⟩
  · rw [runs]
    exact List.map_append
  · rw [runs]
    rfl
  · rw [runs]
    rfl

/-- After an unfinished prototype and a malformed number a run stands on the second line, and what is still to be
diagnosed there is what the rest of the text gives by itself, two columns to the left and one line higher. -/
theorem run_resumes_afresh_line :
    ∃ parser before suffix,
      (Parser.ofSource .standard "def f( ; 1 + 2.3.4\n  5 ) then").withListener.Visits parser ∧
      parser.diagnostics.length = 2 ∧ parser.cursor.place = ⟨2, 3⟩ ∧
      "def f( ; 1 + 2.3.4\n  5 ) then" = before ++ suffix ∧
      parser.run.diagnostics = parser.diagnostics ++
        (parse parser.table suffix).diagnostics.map (.relocate (Position.translate ⟨2, 3⟩)) := by
  let first := (Parser.ofSource .standard "def f( ; 1 + 2.3.4\n  5 ) then").withListener
  let second := first.step first.cursor.current
  have visited : first.Visits (second.step second.cursor.current) :=
    .step (.step .start (by decide +kernel)) (by decide +kernel)
  have place : (second.step second.cursor.current).cursor.place = ⟨2, 3⟩ := by decide +kernel
  obtain ⟨before, suffix, whole, _, _, _, diagnosed, _⟩ := run_resumes_afresh visited
  rw [place] at diagnosed
  exact ⟨_, before, suffix, visited, by decide +kernel, place, whole, diagnosed⟩

end OpLang

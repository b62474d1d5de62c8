import OpLang.Proofs.Recovery
import OpLang.Proofs.Transaction

/-! # The order of diagnostics

Reports come from forms that fail and from malformed numbers that are passed over. Every report is about one of the
lexemes of the source or about its end, and the next report is about a later one: a failed form is given up by a step
from the lexeme that was reported, and what it had crossed before were tokens. So diagnostics stand in the order of
their lexemes, no lexeme is reported twice, and no malformed number is left out.
-/

namespace OpLang

/-! ## Places in order -/

namespace Position

/-- Farther up, or on the same line farther to the left. -/
def Before (first second : Position) : Prop :=
  first.line < second.line ∨ first.line = second.line ∧ first.column < second.column

theorem Before.trans {first second third : Position} (before : first.Before second) (later : second.Before third) :
    first.Before third := by
  unfold Before at *
  omega

theorem Before.ne {first second : Position} (before : first.Before second) : first ≠ second := by
  rintro rfl
  unfold Before at before
  omega

theorem before_after (place : Position) (c : Char) : place.Before (place.after c) := by
  unfold after Before
  split
  · exact .inl (Int.lt_succ _)
  · exact .inr ⟨rfl, Int.lt_succ _⟩

/-- The place behind a text is farther on, unless the text is empty. -/
theorem advance_eq_or_before (place : Position) (run : List Char) :
    place.advance run = place ∨ place.Before (place.advance run) := by
  induction run generalizing place with
  | nil => exact .inl rfl
  | cons c run ih =>
    have here := place.before_after c
    rcases ih (place.after c) with same | before
    · exact .inr (same.symm ▸ here : place.Before ((place.after c).advance run))
    · exact .inr (here.trans before)

theorem before_advance_cons (place : Position) (c : Char) (run : List Char) :
    place.Before (place.advance (c :: run)) := by
  have here := place.before_after c
  rcases (place.after c).advance_eq_or_before run with same | before
  · exact (same.symm ▸ here : place.Before ((place.after c).advance run))
  · exact here.trans before

theorem Before.advance {first second : Position} (before : first.Before second) (run : List Char) :
    first.Before (second.advance run) := by
  rcases second.advance_eq_or_before run with same | later
  · exact same.symm ▸ before
  · exact before.trans later

end Position

/-- Pieces are found one behind the other, all of them before the place behind the source. -/
theorem pairwise_locate {start : Position} {cut : List Piece} {trailing : List Char} {places : List Position}
    (all : places = (locate start cut).map Lexeme.place ++ [start.advance (cut.flatMap Piece.chars ++ trailing)]) :
    places.Pairwise Position.Before ∧
      ∀ place ∈ places, ∀ earlier : Position, earlier.Before start → earlier.Before place := by
  subst all
  induction cut generalizing start with
  | nil =>
    refine ⟨List.pairwise_singleton _ _, fun place member earlier before => ?_⟩
    rw [List.mem_singleton.mp member]
    exact before.advance _
  | cons piece cut ih =>
    obtain ⟨inOrder, behind⟩ := @ih ((start.advance piece.trivia).advance piece.item)
    have finish : start.advance ((piece :: cut).flatMap Piece.chars ++ trailing) =
        ((start.advance piece.trivia).advance piece.item).advance (cut.flatMap Piece.chars ++ trailing) := by
      simp only [List.flatMap_cons, Piece.chars, List.append_assoc, Position.advance_append]
    have here : (start.advance piece.trivia).Before ((start.advance piece.trivia).advance piece.item) :=
      Position.before_advance_cons _ piece.first piece.more
    rw [finish, locate, List.map_cons, List.cons_append]
    refine ⟨List.pairwise_cons.mpr ⟨fun place member => behind place member _ here, inOrder⟩, ?_⟩
    intro place member earlier before
    rcases List.mem_cons.mp member with rfl | member
    · exact before.advance piece.trivia
    · exact behind place member earlier ((before.advance piece.trivia).trans here)

/-- The lexemes of a source and its end as the last of them. -/
def landmarks (source : String) : List Lexeme := lexemes source ++ [⟨.token .endOfInput, finalPlace source⟩]

theorem pairwise_landmarks (source : String) : ((landmarks source).map Lexeme.place).Pairwise Position.Before := by
  have all : (landmarks source).map Lexeme.place = (locate .start (pieces source.toList).1).map Lexeme.place ++
      [Position.start.advance ((pieces source.toList).1.flatMap Piece.chars ++ (pieces source.toList).2)] := by
    rw [pieces_append, landmarks, List.map_append]
    rfl
  exact (pairwise_locate all).1

/-! ## Reports -/

/-- The malformed number of a lexeme, with its place. -/
def Lexeme.malformed? (lexeme : Lexeme) : Option (String × Position) :=
  match lexeme.item with
  | .malformed run => some (run, lexeme.place)
  | .token _ => none

/-- The malformed number of a diagnostic, with its place. -/
def Diagnostic.malformed? (diagnostic : Diagnostic) : Option (String × Position) :=
  match diagnostic.error with
  | .malformedNumber run => some (run, diagnostic.place)
  | _ => none

theorem Lexeme.malformed?_eq_some_iff {lexeme : Lexeme} {number : String × Position} :
    lexeme.malformed? = some number ↔ lexeme = .malformedAt number := by
  obtain ⟨token | run, place⟩ := lexeme
  · simp [malformed?, malformedAt]
  · obtain ⟨other, found⟩ := number
    simp [malformed?, malformedAt]

theorem Diagnostic.malformed?_eq_some_iff {diagnostic : Diagnostic} {number : String × Position} :
    diagnostic.malformed? = some number ↔ diagnostic = .malformedAt number := by
  obtain ⟨fault, place⟩ := diagnostic
  obtain ⟨run, found⟩ := number
  cases fault <;> simp [malformed?, malformedAt]

/-- The diagnostics that were made while some lexemes were passed: each is about another one of them, in their order,
and each malformed number among them has been reported. -/
structure Reports (passed : List Lexeme) (diagnostics : List Diagnostic) : Prop where
  places : (diagnostics.map Diagnostic.place).Sublist (passed.map Lexeme.place)
  malformed : diagnostics.filterMap Diagnostic.malformed? = passed.filterMap Lexeme.malformed?

theorem Error.IsGrammatical.malformed? {fault : Error} (isGrammatical : fault.IsGrammatical) (place : Position) :
    Diagnostic.malformed? ⟨fault, place⟩ = none := by
  cases fault with
  | malformedNumber => exact isGrammatical.elim
  | _ => rfl

namespace Reports

variable {passed : List Lexeme} {diagnostics : List Diagnostic}

/-- Tokens may be passed without a report. -/
theorem pass (reports : Reports passed diagnostics) {tokens : List Lexeme}
    (only : tokens.filterMap Lexeme.malformed? = []) : Reports (passed ++ tokens) diagnostics where
  places := by
    rw [List.map_append]
    exact reports.places.trans (List.sublist_append_left ..)
  malformed := by rw [List.filterMap_append, only, List.append_nil, reports.malformed]

theorem report (reports : Reports passed diagnostics) {lexeme : Lexeme} {diagnostic : Diagnostic}
    (place : lexeme.place = diagnostic.place) (same : lexeme.malformed? = diagnostic.malformed?) :
    Reports (passed ++ [lexeme]) (diagnostics ++ [diagnostic]) where
  places := by
    rw [List.map_append, List.map_append, List.map_singleton, List.map_singleton, place]
    exact reports.places.append_right _
  malformed := by
    rw [List.filterMap_append, List.filterMap_append, reports.malformed]
    simp only [List.filterMap_cons, List.filterMap_nil, same]

theorem report_malformed (reports : Reports passed diagnostics) (skipped : List (String × Position)) :
    Reports (passed ++ skipped.map .malformedAt) (diagnostics ++ skipped.map .malformedAt) := by
  induction skipped generalizing passed diagnostics with
  | nil => simpa using reports
  | cons number skipped ih =>
    have first : Reports (passed ++ [.malformedAt number]) (diagnostics ++ [.malformedAt number]) :=
      reports.report rfl rfl
    simpa using ih first

end Reports

/-! ## Cursors among the landmarks -/

namespace Cursor

/-- The landmarks that lie behind the cursor: what it has not read and the end, or nothing if it stands at the end. -/
inductive Precedes (cursor : Cursor) : List Lexeme → Prop
  | inside : Precedes cursor (cursor.unread ++ [⟨.token .endOfInput, cursor.finish⟩])
  | ended (current : cursor.current = .endOfInput) (place : cursor.place = cursor.finish)
      (nothing : cursor.unread = []) : Precedes cursor []

/-- The landmark that stands at the cursor. -/
def landmark (cursor : Cursor) : Lexeme := ⟨.token cursor.current, cursor.place⟩

/-- From the landmarks ahead the cursor has come to one of them over tokens. -/
inductive Passes (ahead : List Lexeme) (cursor : Cursor) : Prop
  | intro {crossed behind : List Lexeme} (split : ahead = crossed ++ cursor.landmark :: behind)
      (only : crossed.filterMap Lexeme.malformed? = []) (precedes : cursor.Precedes behind)

/-- An error has been noticed about one of the landmarks ahead, behind tokens; if it is about a malformed number,
this is the one that it is about. -/
inductive Notices (ahead : List Lexeme) (fault : Error) (stopped : Cursor) : Prop
  | intro {crossed behind : List Lexeme} {lexeme : Lexeme} (split : ahead = crossed ++ lexeme :: behind)
      (only : crossed.filterMap Lexeme.malformed? = []) (place : lexeme.place = stopped.place)
      (same : lexeme.malformed? = Diagnostic.malformed? ⟨fault, stopped.place⟩) (precedes : stopped.Precedes behind)

variable {ahead : List Lexeme} {cursor : Cursor}

/-- A step comes to the next landmark, or notices that it is a malformed number. -/
theorem Passes.advance (passes : cursor.Passes ahead) : Keeping (Passes ahead) (Notices ahead) (advance cursor) := by
  obtain @⟨crossed, behind, split, only, precedes⟩ := passes
  obtain ⟨current, place, unread, finish⟩ := cursor
  cases precedes with
  | ended atEnd atFinish nothing =>
    -- at the end a step does not move
    cases atEnd
    cases atFinish
    cases nothing
    exact .ok (.intro split only (.ended rfl rfl rfl))
  | inside =>
    have onlyTokens : (crossed ++ [(⟨.token current, place⟩ : Lexeme)]).filterMap Lexeme.malformed? = [] := by
      rw [List.filterMap_append, only]
      rfl
    rw [List.append_cons, landmark] at split
    rcases unread with _ | ⟨⟨token | run, found⟩, later⟩
    · exact .ok (.intro split onlyTokens (.ended rfl rfl rfl))
    · exact .ok (.intro split onlyTokens .inside)
    · exact .error (.intro split onlyTokens rfl rfl .inside)

/-- An error about the tokens is noticed where the cursor stands. -/
theorem Passes.raise (passes : cursor.Passes ahead) {fault : Error} (isGrammatical : fault.IsGrammatical) :
    cursor.Notices ahead fault := by
  obtain ⟨split, only, precedes⟩ := passes
  exact .intro split only rfl (isGrammatical.malformed? cursor.place).symm precedes

/-- Behind the malformed numbers that are passed over lies the next landmark, unless the cursor stood at the end. -/
theorem Precedes.resumes {behind : List Lexeme} (precedes : cursor.Precedes behind)
    {skipped : List (String × Position)} {next : Cursor} (resumes : cursor.Resumes skipped next) :
    (∃ farther, behind = skipped.map .malformedAt ++ next.landmark :: farther ∧ next.Precedes farther) ∨
      next.current = .endOfInput ∧ behind = skipped.map .malformedAt := by
  cases resumes with
  | token ahead =>
    cases precedes with
    | inside =>
      refine .inl ⟨_, ?_, .inside⟩
      rw [ahead, List.append_assoc, List.cons_append]
      rfl
    | ended _ _ nothing => simp [nothing] at ahead
  | ended ahead =>
    cases precedes with
    | inside =>
      rw [ahead]
      exact .inl ⟨[], rfl, .ended rfl rfl rfl⟩
    | ended _ _ nothing => exact .inr ⟨rfl, nothing.symm.trans ahead⟩

end Cursor

/-- Reading a form comes to a landmark over tokens, or notices an error about one. -/
theorem Grammar.form_passes (table : OperatorTable) (kind : FormKind) {ahead : List Lexeme} {cursor : Cursor}
    (passes : cursor.Passes ahead) :
    Keeping (Cursor.Passes ahead) (fun fault stopped => stopped.Notices ahead fault) (form table kind cursor) := by
  have parallel : Cursor.Parallel (fun left right => left = right ∧ left.Passes ahead)
      fun fault left _ => left.Notices ahead fault :=
    .ofKeeping (fun _ passes => passes.advance) fun _ isGrammatical _ passes => passes.raise isGrammatical
  exact (form_alike parallel (.refl parallel 0 table) kind).keeping passes

/-! ## Runs among the landmarks -/

namespace Parser

/-- All that was passed has been reported. The cursor stands at the next landmark, or at the end after a report about
the end. -/
inductive Settled (source : String) (parser : Parser) : Prop
  | inside {passed behind : List Lexeme} (whole : landmarks source = passed ++ parser.cursor.landmark :: behind)
      (reports : Reports passed parser.diagnostics) (precedes : parser.cursor.Precedes behind)
  | ended (current : parser.cursor.current = .endOfInput) (reports : Reports (landmarks source) parser.diagnostics)

variable {source : String} {parser : Parser}

/-- Passing over the current token reports the malformed numbers behind it. -/
theorem settled_skip {passed behind : List Lexeme} (whole : landmarks source = passed ++ behind)
    (reports : Reports passed parser.diagnostics) (precedes : parser.cursor.Precedes behind) :
    parser.skip.Settled source := by
  obtain ⟨skipped, resumes, found⟩ := parser.cursor.advanceOver_resumes
  have reported : Reports (passed ++ skipped.map .malformedAt) parser.skip.diagnostics := by
    change Reports _ (parser.diagnostics ++ parser.cursor.advanceOver.1)
    rw [found]
    exact reports.report_malformed skipped
  rcases precedes.resumes resumes with ⟨farther, rfl, precedesFarther⟩ | ⟨atEnd, rfl⟩
  · rw [← List.append_assoc] at whole
    exact .inside whole reported precedesFarther
  · exact .ended atEnd (whole ▸ reported)

theorem settled_ofSource (table : OperatorTable) (source : String) : (ofSource table source).Settled source :=
  settled_skip (List.nil_append _).symm ⟨.slnil, rfl⟩ .inside

theorem Settled.process (settled : parser.Settled source) (inside : parser.cursor.current ≠ .endOfInput)
    (idle : parser.delivery.Idle) (kind : FormKind) : (parser.process kind).Settled source := by
  cases settled with
  | ended current => exact absurd current inside
  | @inside passed behind whole reports precedes =>
    have outcome := Grammar.form_passes parser.table kind (.intro (List.nil_append _).symm rfl precedes)
    rw [process_eq idle]
    generalize Grammar.form parser.table kind parser.cursor = result at outcome ⊢
    cases outcome with
    | ok passes =>
      obtain ⟨split, only, precedesToo⟩ := passes
      rw [split, ← List.append_assoc] at whole
      exact .inside whole (reports.pass only) precedesToo
    | error notices =>
      -- the report is about the landmark that was noticed; what was crossed before it are tokens
      obtain ⟨split, only, place, same, precedesToo⟩ := notices
      rw [split, ← List.append_assoc, List.append_cons] at whole
      exact settled_skip whole ((reports.pass only).report place same) precedesToo

theorem Settled.step (settled : parser.Settled source) (inside : parser.cursor.current ≠ .endOfInput)
    (idle : parser.delivery.Idle) : (parser.step parser.cursor.current).Settled source := by
  by_cases separator : parser.cursor.current = .char ';'
  · rw [separator]
    cases settled with
    | ended current => exact absurd current inside
    | inside whole reports precedes =>
      rw [List.append_cons] at whole
      exact settled_skip whole (reports.pass rfl) precedes
  · rw [step_of_ne separator]
    exact settled.process inside idle _

/-- At the end of a run everything has been reported. -/
theorem Settled.run (settled : parser.Settled source) (ready : parser.Ready) :
    Reports (landmarks source) parser.run.diagnostics := by
  induction parser, ready using Ready.induct with
  | ended parser ready ended =>
    rw [run_of_ended ended]
    cases settled with
    | ended _ reports => exact reports
    | @inside passed behind whole reports precedes =>
      rw [whole]
      refine reports.pass ?_
      have nothing : parser.cursor.unread = [] :=
        ready.spelled.current.elim And.right fun spelled => absurd ended spelled.ne_endOfInput
      cases precedes with
      | inside => rw [nothing]; rfl
      | ended => rfl
  | step parser ready inside ih =>
    rw [ready.run_eq inside]
    exact ih (settled.step inside ready.idle)

end Parser

/-- Of entries with different keys only one has the key of an entry. -/
theorem filter_eq_singleton {α β : Type} [DecidableEq β] {key : α → β} {entries : List α}
    (distinct : entries.Pairwise fun first second => key first ≠ key second) {entry : α} (member : entry ∈ entries) :
    entries.filter (fun other => key other = key entry) = [entry] := by
  obtain ⟨before, after, rfl⟩ := List.append_of_mem member
  obtain ⟨_, behind, between⟩ := List.pairwise_append.mp distinct
  have noneBefore : before.filter (fun other => key other = key entry) = [] := by
    rw [List.filter_eq_nil_iff]
    intro other inside same
    exact between other inside entry (List.mem_cons_self ..) (decide_eq_true_eq.mp same)
  have noneBehind : after.filter (fun other => key other = key entry) = [] := by
    rw [List.filter_eq_nil_iff]
    intro other inside same
    exact List.rel_of_pairwise_cons behind inside (decide_eq_true_eq.mp same).symm
  simp [List.filter_append, noneBefore, noneBehind]

/-- Diagnostics are ordered and never duplicated. Their places are farther and farther on, and each is the place of a
lexeme or of the end of the source. The malformed numbers that are diagnosed are those of the source, each where it
stands and in their order, and no other diagnostic stands in the place of one. -/
theorem diagnostics_in_order (table : OperatorTable) (source : String) :
    ((parse table source).diagnostics.map Diagnostic.place).Pairwise Position.Before ∧
      (∀ diagnostic ∈ (parse table source).diagnostics,
        diagnostic.place = finalPlace source ∨ ∃ lexeme ∈ lexemes source, diagnostic.place = lexeme.place) ∧
      (∀ diagnostic ∈ (parse table source).diagnostics, ∀ run, diagnostic.error = .malformedNumber run →
        ⟨.malformed run, diagnostic.place⟩ ∈ lexemes source) ∧
      (∀ run place, ⟨.malformed run, place⟩ ∈ lexemes source →
        (parse table source).diagnostics.filter (fun diagnostic => diagnostic.place = place) =
          [⟨.malformedNumber run, place⟩]) ∧
      (parse table source).diagnostics.filterMap Diagnostic.malformed? =
        (lexemes source).filterMap Lexeme.malformed? := by
  have settled : (Parser.ofSource table source).withListener.Settled source := by
    cases Parser.settled_ofSource table source with
    | inside whole reports precedes => exact .inside whole reports precedes
    | ended current reports => exact .ended current reports
  have reports : Reports (landmarks source) (parse table source).diagnostics :=
    settled.run (Parser.ready_ofSource table source)
  have inOrder := (pairwise_landmarks source).sublist reports.places
  have malformed : (parse table source).diagnostics.filterMap Diagnostic.malformed? =
      (lexemes source).filterMap Lexeme.malformed? := by
    rw [reports.malformed, landmarks, List.filterMap_append]
    exact List.append_nil _
  have reported (number : String × Position) :
      .malformedAt number ∈ (parse table source).diagnostics ↔ .malformedAt number ∈ lexemes source := by
    have same : number ∈ (parse table source).diagnostics.filterMap Diagnostic.malformed? ↔
        number ∈ (lexemes source).filterMap Lexeme.malformed? := by rw [malformed]
    simpa [List.mem_filterMap, Diagnostic.malformed?_eq_some_iff, Lexeme.malformed?_eq_some_iff] using same
  refine ⟨inOrder, fun diagnostic member => ?_, fun diagnostic member run isMalformed => ?_, fun run place member => ?_,
    malformed⟩
  · have place := reports.places.subset (List.mem_map_of_mem member)
    rw [landmarks, List.map_append, List.mem_append, List.mem_map] at place
    rcases place with ⟨lexeme, inside, same⟩ | atEnd
    · exact .inr ⟨lexeme, inside, same.symm⟩
    · exact .inl (List.mem_singleton.mp atEnd)
  · obtain ⟨fault, place⟩ := diagnostic
    cases isMalformed
    exact (reported (run, place)).mp member
  · have distinct := (List.pairwise_map.mp inOrder).imp Position.Before.ne
    exact filter_eq_singleton distinct ((reported (run, place)).mpr member)

/-- Malformed numbers in a prototype and behind an operand make forms fail, a third one is passed over as a form is given
up, and the last form fails at the end of the source. -/
theorem diagnostics_in_order_recovered :
    let source := "def f(1.2.3 x) 7 ..\n+ then 4..5 ("
    ⟨.malformed "..", ⟨1, 18⟩⟩ ∈ lexemes source ∧
      (parse .standard source).diagnostics.filter (fun diagnostic => diagnostic.place = ⟨1, 18⟩) =
        [⟨.malformedNumber "..", ⟨1, 18⟩⟩] ∧
      (parse .standard source).diagnostics.map Diagnostic.place = [⟨1, 7⟩, ⟨1, 18⟩, ⟨2, 3⟩, ⟨2, 8⟩, ⟨2, 14⟩] ∧
      finalPlace source = ⟨2, 14⟩ := by
  intro source
  obtain ⟨_, _, _, reported, _⟩ := diagnostics_in_order .standard source
  have found : ⟨.malformed "..", ⟨1, 18⟩⟩ ∈ lexemes source := by decide +kernel
  exact ⟨found, reported _ _ found, by decide +kernel, by decide +kernel⟩

end OpLang

import OpLang.Proofs.Run

/-! # Programs are read exactly

A source gives no diagnostics just if its lexemes are the tokens of a program, and then its forms are those
of the program. The grammar says which tokens these are; no other sources pass and none is read as another
program.
-/

namespace OpLang

/-! ## What is still to be read -/

namespace Cursor

/-- The items from the current token on. -/
def upcoming (cursor : Cursor) : List Item :=
  if cursor.current = .endOfInput then [] else .token cursor.current :: cursor.unread.map Lexeme.item

/-- A step brings the first unread item under the cursor. -/
theorem upcoming_advance {cursor next : Cursor}
    (spelled : ∀ lexeme ∈ cursor.unread, ∀ token, lexeme.item = .token token → token.Spelled)
    (step : advance cursor = .ok () next) : next.upcoming = cursor.unread.map Lexeme.item := by
  simp only [advance] at step
  split at step
  · next ended =>
    cases step
    simp [upcoming, ended]
  · next token place later some =>
    cases step
    have here : token.Spelled := spelled ⟨.token token, place⟩ (some ▸ List.mem_cons_self ..) token rfl
    rw [upcoming, if_neg here.ne_endOfInput, some, List.map_cons]
  · cases step

theorem upcoming_of_crosses {cursor last : Cursor} {tokens : List Token}
    (crossed : Crosses cursor tokens last)
    (spelled : cursor.Spelled) (inner : .endOfInput ∉ tokens) :
    cursor.upcoming = tokens.map .token ++ last.upcoming := by
  induction crossed with
  | nil => rfl
  | cons step _ ih =>
    rw [List.mem_cons, not_or] at inner
    have later := ih (spelled.advance_ok step) inner.2
    rw [upcoming, if_neg (Ne.symm inner.1), ← upcoming_advance spelled.unread step, later, List.map_cons,
      List.cons_append]

/-- Unread tokens can be crossed up to where a step succeeds. -/
theorem crosses_unread {cursor last : Cursor} {lexed later : List Lexeme} {tokens : List Token}
    (only : lexed.map Lexeme.item = tokens.map .token) (unread : cursor.unread = lexed ++ later)
    (stop : ∀ current place, advance ⟨current, place, later, cursor.finish⟩ = .ok () last) :
    Crosses cursor (cursor.current :: tokens) last := by
  induction tokens generalizing cursor lexed with
  | nil =>
    obtain rfl := List.map_eq_nil_iff.mp only
    obtain ⟨current, place, _, finish⟩ := cursor
    subst unread
    exact .cons (stop current place) (.nil last)
  | cons token tokens ih =>
    rw [List.map_cons, List.map_eq_cons_iff] at only
    obtain ⟨⟨_, place⟩, lexed, rfl, rfl, only⟩ := only
    have step : advance cursor =
        .ok () { cursor with current := token, place := place, unread := lexed ++ later } := by
      simp only [advance, unread, List.cons_append]
    exact .cons step (ih only rfl stop)

/-- Stepping over malformed numbers finds none just if the step succeeds. -/
theorem advanceOver_eq_nil_iff {cursor next : Cursor} :
    cursor.advanceOver = ([], next) ↔ advance cursor = .ok () next := by
  obtain ⟨current, place, unread, finish⟩ := cursor
  cases unread with
  | nil => simp [advanceOver, advanceOver.go, advance]
  | cons lexeme later =>
    obtain ⟨token | run, place⟩ := lexeme <;> simp [advanceOver, advanceOver.go, advance]

end Cursor

/-! ## Runs -/

namespace Parser

open Cursor

variable {parser : Parser}

/-- A step may add diagnostics, and takes none back. -/
theorem step_diagnostics (ready : parser.Ready) (token : Token) :
    ∃ found, (parser.step token).diagnostics = parser.diagnostics ++ found := by
  by_cases separator : token = .char ';'
  · subst separator
    exact ⟨_, rfl⟩
  · rw [step_of_ne separator, process_eq ready.idle]
    split
    · exact ⟨[], (List.append_nil _).symm⟩
    · exact ⟨_, List.append_assoc ..⟩

theorem run_diagnostics (ready : parser.Ready) :
    ∃ found, parser.run.diagnostics = parser.diagnostics ++ found := by
  induction parser, ready using Ready.induct with
  | ended parser ready ended => exact ⟨[], by rw [run_of_ended ended, List.append_nil]⟩
  | step parser ready inside ih =>
    obtain ⟨first, atStep⟩ := step_diagnostics ready parser.cursor.current
    obtain ⟨later, atEnd⟩ := ih
    exact ⟨first ++ later, by rw [ready.run_eq inside, atEnd, atStep, List.append_assoc]⟩

/-- A program is read form by form, and the run goes on behind it. -/
theorem run_of_program {table : OperatorTable} {tokens : List Token} {forms : List Form} {next : Token}
    (program : Phrase.Program table tokens forms next) {last : Cursor} (ready : parser.Ready)
    (same : parser.table = table) (crossed : Crosses parser.cursor tokens last) (atNext : last.current = next) :
    parser.run = (parser.accept forms last).run := by
  induction program generalizing parser with
  | nil =>
    obtain rfl := Crosses.nil_iff.mp crossed
    rw [accept_nil]
  | separator _ ih =>
    obtain ⟨here, middle, step, crossed⟩ := Crosses.cons_iff.mp crossed
    have skipped : parser.step parser.cursor.current = { parser with cursor := middle } := by
      rw [here]
      simp [Parser.step, skip, advanceOver_eq_nil_iff.mpr step]
    rw [ready.run_eq (here ▸ Token.noConfusion), skipped]
    exact ih ⟨ready.spelled.advance_ok step, ready.idle⟩ same crossed atNext
  | form first _ ih =>
    subst same
    obtain ⟨middle, crossed, crossedLater⟩ := Crosses.append_iff.mp crossed
    rw [← atNext, ← crossedLater.current_eq] at first
    obtain ⟨token, later, rfl, inside, noSeparator, _⟩ := first.exists_cons
    have here : parser.cursor.current = token := crossed.current_eq
    rw [← here] at inside noSeparator
    have read := (Grammar.form_ok_iff ready.spelled noSeparator).mpr ⟨_, crossed, first⟩
    rw [ready.run_eq inside, step_of_ne noSeparator, process_eq ready.idle, read]
    dsimp only
    rw [ih (ready.accept _ (crossed.spelled ready.spelled)) rfl crossedLater atNext, accept_accept]
    rfl

/-- A step without diagnostics has crossed a separator or a form. -/
theorem crosses_of_step (ready : parser.Ready)
    (clean : (parser.step parser.cursor.current).diagnostics = parser.diagnostics) :
    ∃ tokens forms middle, Crosses parser.cursor tokens middle ∧
      parser.step parser.cursor.current = parser.accept forms middle ∧
      (tokens = [.char ';'] ∧ forms = [] ∨
        ∃ form, forms = [form] ∧ Phrase.OfForm parser.table tokens form middle.current) := by
  by_cases separator : parser.cursor.current = .char ';'
  · rw [separator] at clean ⊢
    have nothing : parser.cursor.advanceOver.1 = [] := List.append_right_eq_self.mp clean
    have step : advance parser.cursor = .ok () parser.cursor.advanceOver.2 :=
      advanceOver_eq_nil_iff.mp (Prod.ext nothing rfl)
    refine ⟨[.char ';'], [], _, separator ▸ advance_ok_iff.mp step, ?_, .inl ⟨rfl, rfl⟩⟩
    simp [Parser.step, skip, nothing, accept]
  · rw [step_of_ne separator, process_eq ready.idle] at clean ⊢
    cases read : Grammar.form parser.table (.announcedBy parser.cursor.current) parser.cursor with
    | error fault stopped => simp [read, recover, diagnose, skip] at clean
    | ok form middle =>
      obtain ⟨tokens, crossed, phrase⟩ := (Grammar.form_ok_iff ready.spelled separator).mp read
      exact ⟨tokens, [form], middle, crossed, rfl, .inr ⟨form, rfl, phrase⟩⟩

/-- A run without diagnostics has read a program. -/
theorem program_of_run (ready : parser.Ready) (clean : parser.run.diagnostics = parser.diagnostics) :
    ∃ tokens forms last, Crosses parser.cursor tokens last ∧ last.current = .endOfInput ∧
      Phrase.Program parser.table tokens forms .endOfInput ∧ parser.run = parser.accept forms last := by
  induction parser, ready using Ready.induct with
  | ended parser ready ended =>
    exact ⟨[], [], parser.cursor, .nil _, ended, .nil, by rw [run_of_ended ended, accept_nil]⟩
  | step parser ready inside ih =>
    obtain ⟨first, atStep⟩ := step_diagnostics ready parser.cursor.current
    obtain ⟨later, atEnd⟩ := run_diagnostics (ready.step inside).1
    rw [ready.run_eq inside] at clean ⊢
    rw [atEnd, atStep, List.append_assoc, List.append_right_eq_self, List.append_eq_nil_iff] at clean
    rw [clean.1, List.append_nil] at atStep
    rw [clean.2, List.append_nil] at atEnd
    obtain ⟨tokens, forms, middle, crossed, stepped, one⟩ := crosses_of_step ready atStep
    obtain ⟨laterTokens, laterForms, last, crossedLater, ended, program, run⟩ := ih atEnd
    rw [stepped] at crossedLater program
    refine ⟨tokens ++ laterTokens, forms ++ laterForms, last, crossed.append crossedLater, ended, ?_, ?_⟩
    · rcases one with ⟨rfl, rfl⟩ | ⟨form, rfl, phrase⟩
      · exact .separator program
      · exact .form (ended ▸ crossedLater.current_eq ▸ phrase) program
    · rw [run, stepped, accept_accept]

end Parser

/-! ## Sources -/

/-- The outcome of a source that was read without diagnostics. -/
def Outcome.ofForms (table : OperatorTable) (forms : List Form) : Outcome :=
  ⟨forms.flatMap Notification.ofForm, [], table.record forms⟩

@[simp] theorem Outcome.forms_ofForms (table : OperatorTable) (forms : List Form) :
    (Outcome.ofForms table forms).forms = forms := forms_of_notifications forms

theorem Parser.ofSource_eq {source : String} {first : Cursor} (table : OperatorTable)
    (step : Cursor.advance (.ofSource source) = .ok () first) :
    ofSource table source = { cursor := first, table := table } := by
  simp [ofSource, skip, Cursor.advanceOver_eq_nil_iff.mpr step]

/-- The parser of a source accepts forms and stops. -/
theorem parse_of_run {table : OperatorTable} {source : String} {first last : Cursor} {forms : List Form}
    (step : Cursor.advance (.ofSource source) = .ok () first)
    (run : (Parser.ofSource table source).withListener.run =
      (Parser.ofSource table source).withListener.accept forms last) :
    parse table source = .ofForms table forms := by
  have heard := notifications_tell (Parser.ofSource table source).withListener forms rfl
  rw [parse, run]
  simp only [Parser.ofSource_eq table step] at heard ⊢
  exact congrArg (Outcome.mk · [] (table.record forms)) heard

/-- The tokens of a source without malformed numbers are crossed up to its end. -/
theorem crosses_source {source : String} {tokens : List Token}
    (lexed : (lexemes source).map Lexeme.item = tokens.map .token) :
    ∃ first, Cursor.advance (.ofSource source) = .ok () first ∧
      first.Crosses tokens ⟨.endOfInput, finalPlace source, [], finalPlace source⟩ := by
  have whole : (Cursor.ofSource source).unread = lexemes source ++ [] := (List.append_nil _).symm
  have crossed : Cursor.Crosses (.ofSource source) (.endOfInput :: tokens)
      ⟨.endOfInput, finalPlace source, [], finalPlace source⟩ := Cursor.crosses_unread lexed whole fun _ _ => rfl
  exact (Cursor.Crosses.cons_iff.mp crossed).2

/-- The tokens of a program give its forms and no diagnostics. -/
theorem parse_of_program {table : OperatorTable} {source : String} {tokens : List Token} {forms : List Form}
    (lexed : (lexemes source).map Lexeme.item = tokens.map .token)
    (program : Phrase.Program table tokens forms .endOfInput) : parse table source = .ofForms table forms := by
  obtain ⟨first, step, crossed⟩ := crosses_source lexed
  have ready := Parser.ready_ofSource table source
  rw [Parser.ofSource_eq table step] at ready
  have run := (Parser.run_of_program program ready rfl crossed rfl).trans (Parser.run_of_ended rfl)
  rw [← Parser.ofSource_eq table step] at run
  exact parse_of_run step run

/-- Where a source gives no diagnostics, its lexemes are the tokens of a program. -/
theorem program_of_parse {table : OperatorTable} {source : String}
    (clean : (parse table source).diagnostics = []) :
    ∃ tokens forms, (lexemes source).map Lexeme.item = tokens.map .token ∧
      Phrase.Program table tokens forms .endOfInput ∧ parse table source = .ofForms table forms := by
  have ready := Parser.ready_ofSource table source
  obtain ⟨found, atEnd⟩ := Parser.run_diagnostics ready
  rw [show (Parser.run _).diagnostics = [] from clean, eq_comm, List.append_eq_nil_iff] at atEnd
  have step : Cursor.advance (.ofSource source) = .ok () (Cursor.advanceOver (.ofSource source)).2 :=
    Cursor.advanceOver_eq_nil_iff.mp (Prod.ext atEnd.1 rfl)
  obtain ⟨tokens, forms, last, crossed, ended, program, run⟩ :=
    Parser.program_of_run ready (show (Parser.run _).diagnostics = _ from clean.trans atEnd.1.symm)
  refine ⟨tokens, forms, ?_, program, parse_of_run step run⟩
  have only := Cursor.upcoming_advance (fun _ => spelled_of_mem_lexemes) step
  have whole := Cursor.upcoming_of_crosses crossed ready.spelled (Phrase.Program.inner _ _ _ _ program)
  rw [Cursor.upcoming.eq_def last, if_pos ended, List.append_nil] at whole
  exact only.symm.trans whole

/-- A source gives no diagnostics just if its lexemes are the tokens of a program, and its forms are then
those of the program; the listener is told of every form from first to last. The table under which a form of a
program is read gives an operator the precedence that the last infix prototype in front of the form gives it, and
the initial one if none of them names it. -/
theorem parse_eq_iff_program (table : OperatorTable) (source : String) (forms : List Form) :
    ((parse table source).diagnostics = [] ∧ (parse table source).forms = forms ↔
      ∃ tokens, (lexemes source).map Lexeme.item = tokens.map .token ∧
        Phrase.Program table tokens forms .endOfInput) ∧
      (parse table source).notifications =
        (parse table source).forms.flatMap (fun form => [.entered form, .exited form]) ∧
      (∀ before symbol, (table.record before).precedence? symbol =
        ((before.filterMap Form.operator?).reverse.lookup symbol).or (table.precedence? symbol)) ∧
      ∀ (form : Form) (entry : Char × Int), form.operator? = some entry ↔ ∃ proto, form.prototype? = some proto ∧
        proto.kind = .infixOp ∧ proto.name.toList.getLast? = some entry.1 ∧ proto.precedence = entry.2 := by
  refine ⟨⟨?_, ?_⟩, (parse_record table source).2.1, table.precedence?_record, Form.operator?_eq_some_iff⟩
  · rintro ⟨clean, rfl⟩
    obtain ⟨tokens, forms, lexed, program, outcome⟩ := program_of_parse clean
    rw [outcome, Outcome.forms_ofForms]
    exact ⟨tokens, lexed, program⟩
  · rintro ⟨tokens, lexed, program⟩
    rw [parse_of_program lexed program]
    exact ⟨rfl, Outcome.forms_ofForms table forms⟩

/-- An operator does not continue the body of its own definition: behind it, it begins the next form. In the form after
that it groups its operands by the precedence that was declared. -/
theorem parse_eq_iff_program_declared :
    ∃ tokens, (lexemes "def binary | 5 (a b) a | b; x | y + z").map Lexeme.item = tokens.map .token ∧
      Phrase.Program .standard tokens
        [.definition ⟨⟨"binary|", ["a", "b"], .infixOp, 5⟩, .var "a"⟩,
          .expression (.anonymous (.unary '|' (.var "b"))),
          .expression (.anonymous (.binary '|' (.var "x") (.binary '+' (.var "y") (.var "z"))))] .endOfInput ∧
      (OperatorTable.standard.record
        [.definition ⟨⟨"binary|", ["a", "b"], .infixOp, 5⟩, .var "a"⟩]).precedence? '|' = some 5 := by
  have read := parse_eq_iff_program .standard "def binary | 5 (a b) a | b; x | y + z"
    [.definition ⟨⟨"binary|", ["a", "b"], .infixOp, 5⟩, .var "a"⟩,
      .expression (.anonymous (.unary '|' (.var "b"))),
      .expression (.anonymous (.binary '|' (.var "x") (.binary '+' (.var "y") (.var "z"))))]
  obtain ⟨exactly, _, override, _⟩ := read
  obtain ⟨tokens, lexed, program⟩ := exactly.mp (by decide +kernel)
  refine ⟨tokens, lexed, program, ?_⟩
  rw [override]
  decide

end OpLang

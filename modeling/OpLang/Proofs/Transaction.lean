import OpLang.Proofs.Calls

/-! # Forms as transactions

Whatever was called before, reading a form either succeeds as a whole or has no effect but diagnostics. In the one
case the listener is told of the form from first to last and its operator is declared; in the other nothing is told
or declared, the error of the form is diagnosed and after it the malformed numbers before the next token, on which
the cursor comes to stand. A production by itself never gives a diagnostic.
-/

namespace OpLang

/-- The malformed number of a run of characters at a place. -/
def Lexeme.malformedAt (number : String × Position) : Lexeme := ⟨.malformed number.1, number.2⟩

/-- The diagnostic of a malformed number that was stepped over. -/
def Diagnostic.malformedAt (number : String × Position) : Diagnostic := ⟨.malformedNumber number.1, number.2⟩

namespace Cursor

/-- From one cursor the next token lies behind the given malformed numbers, and the other cursor stands on it. -/
inductive Resumes (cursor : Cursor) : List (String × Position) → Cursor → Prop
  | token {skipped : List (String × Position)} {token : Token} {place : Position} {later : List Lexeme}
      (ahead : cursor.unread = skipped.map .malformedAt ++ ⟨.token token, place⟩ :: later) :
      Resumes cursor skipped ⟨token, place, later, cursor.finish⟩
  | ended {skipped : List (String × Position)} (ahead : cursor.unread = skipped.map .malformedAt) :
      Resumes cursor skipped ⟨.endOfInput, cursor.finish, [], cursor.finish⟩

theorem advanceOver_resumes (cursor : Cursor) :
    ∃ skipped, cursor.Resumes skipped cursor.advanceOver.2 ∧ cursor.advanceOver.1 = skipped.map .malformedAt := by
  induction cursor using advanceOver_induct with
  | @ok cursor next step =>
    obtain ⟨current, place, unread, finish⟩ := cursor
    rcases unread with _ | ⟨⟨token | run, found⟩, later⟩
    · cases step
      exact ⟨[], .ended rfl, rfl⟩
    · cases step
      exact ⟨[], .token rfl, rfl⟩
    · cases step
  | @error cursor stopped fault step ih =>
    obtain ⟨run, place, later, unread, rfl, rfl⟩ := advance_error step
    obtain ⟨skipped, resumes, found⟩ := ih
    refine ⟨(run, place) :: skipped, ?_, congrArg (_ :: ·) found⟩
    generalize Cursor.advanceOver _ = next at resumes ⊢
    obtain ⟨_, next⟩ := next
    cases resumes with
    | token ahead => exact .token (unread.trans (congrArg (_ :: ·) ahead))
    | ended ahead => exact .ended (unread.trans (congrArg (_ :: ·) ahead))

end Cursor

namespace Parser

/-- One form of the kind has been read: the listener, if there is one, was told of its beginning and its end,
and its operator was declared, if it has one. -/
inductive Delivers (before : Parser) (kind : FormKind) (after : Parser) : Prop
  | intro (form : Form) (ofKind : form.kind = kind) (read : (before.form kind).1 = .ok form)
      (notifications : after.notifications = before.notifications ++
        if before.delivery.listener.isSome then [.entered form, .exited form] else [])
      (diagnostics : after.diagnostics = before.diagnostics)
      (table : after.table = before.table.declareAll form.operator?.toList)

/-- A form of the kind could not be read: its error was diagnosed where it was noticed, then the malformed numbers
that were stepped over. -/
inductive GivesUp (before : Parser) (kind : FormKind) (after : Parser) : Prop
  | intro (fault : Error) (stopped : Cursor) (skipped : List (String × Position))
      (failed : before.form kind = (.error fault, { before with cursor := stopped }))
      (delivery : after.delivery = before.delivery)
      (table : after.table = before.table)
      (diagnostics : after.diagnostics =
        before.diagnostics ++ ⟨fault, stopped.place⟩ :: skipped.map .malformedAt)
      (resumes : stopped.Resumes skipped after.cursor)

variable {parser : Parser} {kind : FormKind}

theorem Delivers.not_givesUp {after : Parser} (delivers : parser.Delivers kind after) :
    ¬ parser.GivesUp kind after := by
  rintro ⟨fault, stopped, skipped, failed, _, _, _, _⟩
  obtain ⟨form, _, read, _, _, _⟩ := delivers
  rw [failed] at read
  cases read

theorem delivers_or_givesUp (idle : parser.delivery.Idle) (kind : FormKind) :
    parser.Delivers kind (parser.process kind) ∨ parser.GivesUp kind (parser.process kind) := by
  rw [process_eq idle]
  have outcome := parser.form_eq kind
  cases read : Grammar.form parser.table kind parser.cursor with
  | ok form last =>
    simp only [read] at outcome
    refine .inl (.intro form (Grammar.kind_of_form read) (by rw [outcome]) ?_ rfl ?_)
    · obtain ⟨cursor, table, ⟨openRules, pending, listener, delivered⟩, diagnostics⟩ := parser
      cases listener with
      | none => simp [accept, notifications, Delivery.tell]
      | some listener => simp [accept, notifications, Delivery.tell, Notification.ofForm]
    · simp only [accept, OperatorTable.record, List.filterMap_cons, List.filterMap_nil]
      cases form.operator? <;> rfl
  | error fault last =>
    simp only [read] at outcome
    obtain ⟨skipped, resumes, found⟩ := last.advanceOver_resumes
    refine .inr (.intro fault last skipped outcome rfl rfl ?_ resumes)
    simp only [recover, diagnose, skip, found, List.append_assoc, List.singleton_append]

/-- A production by itself gives no diagnostic, and one that fails leaves the table alone. -/
theorem call_frame (parser : Parser) {α : Type} (production : Production α) :
    (parser.call production).2.diagnostics = parser.diagnostics ∧
      (parser.call production).2.delivery = parser.delivery ∧
      ∀ fault, (parser.call production).1 = .error fault → (parser.call production).2.table = parser.table := by
  rw [call_eq]
  cases production.parse parser.table parser.cursor with
  | ok value last => exact ⟨rfl, rfl, fun fault absurd => by cases absurd⟩
  | error fault last => exact ⟨rfl, rfl, fun _ _ => rfl⟩

end Parser

/-- After calls in any order and with any outcomes a machine is inside of no operand, no rule is open and no form
waits. From there a form of any kind is delivered or given up, and never both; every production has an outcome, gives
no diagnostic and leaves the table alone if it fails; and a run ends. -/
theorem calls_transactional {table : OperatorTable} {source : String} (fits : table.Fits) {machine : Machine}
    (reachable : machine.Reachable table source) :
    (machine.nesting = 0 ∧ machine.parser.delivery.openRules = [] ∧ machine.parser.delivery.pending = []) ∧
      (∀ kind, ∃ after, machine.process kind = some ⟨after, 0⟩ ∧ machine.parser.process kind = after ∧
        (machine.parser.Delivers kind after ∨ machine.parser.GivesUp kind after) ∧
        ¬ (machine.parser.Delivers kind after ∧ machine.parser.GivesUp kind after)) ∧
      (∀ {α : Type} (production : Production α), ∃ result after,
        machine.call production = some (result, ⟨after, 0⟩) ∧
        machine.parser.call production = (result, after) ∧
        after.diagnostics = machine.parser.diagnostics ∧ after.delivery = machine.parser.delivery ∧
        ∀ fault, result = .error fault → after.table = machine.parser.table) ∧
      machine.run = some ⟨machine.parser.run, 0⟩ := by
  obtain ⟨parser, nesting⟩ := machine
  obtain ⟨rfl, ready, fits⟩ := reachable.rests fits
  refine ⟨⟨rfl, ready.idle⟩, fun kind => ?_, fun production => ?_, Machine.run_eq fits ready⟩
  · exact ⟨parser.process kind, Machine.process_eq fits kind, rfl, Parser.delivers_or_givesUp ready.idle kind,
      fun both => both.1.not_givesUp both.2⟩
  · exact ⟨_, _, Machine.call_eq fits production, rfl, parser.call_frame production⟩

/-- A number that was read up to a malformed one is still current, and may be read again: as an expression it is
delivered, and as a definition it is given up. -/
theorem calls_transactional_stale :
    OperatorTable.standard.Fits ∧ ∃ parser, Machine.Reachable .standard "1 2.3.4 5" ⟨parser, 0⟩ ∧
      parser.cursor.unread.length = 1 ∧ parser.Delivers .expression (parser.process .expression) ∧
        parser.GivesUp .definition (parser.process .definition) := by
  have fits : OperatorTable.standard.Fits := by
    unfold OperatorTable.Fits
    decide
  let start := (Parser.ofSource .standard "1 2.3.4 5").withListener
  have reachable : Machine.Reachable .standard "1 2.3.4 5" ⟨(start.call .primary).2, 0⟩ :=
    .call (.listen .start) (Machine.call_eq fits .primary)
  obtain ⟨_, forms, _, _⟩ := calls_transactional fits reachable
  refine ⟨fits, _, reachable, by decide +kernel, ?_, ?_⟩
  · obtain ⟨_, _, rfl, either, _⟩ := forms .expression
    refine either.resolve_right fun ⟨fault, stopped, _, failed, _, _, _, _⟩ => ?_
    have succeeds : ((start.call .primary).2.form .expression).1.isOk = true := by decide +kernel
    rw [failed] at succeeds
    cases succeeds
  · obtain ⟨_, _, rfl, either, _⟩ := forms .definition
    refine either.resolve_left fun ⟨form, _, read, _, _, _⟩ => ?_
    have fails : ((start.call .primary).2.form .definition).1.isOk = false := by decide +kernel
    rw [read] at fails
    cases fails

end OpLang

import OpLang.Parser
import OpLang.Proofs.Bisimulation
import OpLang.Proofs.DeclarationExact
import OpLang.Proofs.Lookahead

/-! # Reading form after form

Between two forms no rule is open, no form waits to be handed out, and the cursor stands on a token of the
source or at its end. From there each form is either read, recorded and handed out at once, or given up
with the table as it was; in both cases less of the source is left, so a run ends at the end of the source.
-/

namespace OpLang

namespace OperatorTable

@[simp] theorem record_nil (table : OperatorTable) : table.record [] = table := rfl

theorem record_append (table : OperatorTable) (first second : List Form) :
    table.record (first ++ second) = (table.record first).record second := by
  simp only [record, declareAll, List.filterMap_append, List.foldl_append]

/-- Forms override the precedences of the operators that they declare, a later one those of an earlier one. -/
theorem precedence?_record (table : OperatorTable) (forms : List Form) (symbol : Char) :
    (table.record forms).precedence? symbol =
      ((forms.filterMap Form.operator?).reverse.lookup symbol).or (table.precedence? symbol) :=
  precedence?_declareAll ..

/-- The library declares the operator of a prototype, which is that of the form it belongs to. -/
theorem declarePrototype_eq_record {table : OperatorTable} {form : Form} {proto : Prototype}
    (known : form.prototype? = some proto) : table.declarePrototype proto = table.record [form] := by
  obtain ⟨name, params, kind, precedence⟩ := proto
  have same : form.operator? = Prototype.declared? ⟨name, params, kind, precedence⟩ := by
    simp only [Form.operator?, known, Prototype.declared?, Prototype.operator?]
    cases kind <;> rfl
  simp only [declarePrototype, record, same, List.filterMap_cons, List.filterMap_nil]
  cases Prototype.declared? ⟨name, params, kind, precedence⟩ <;> rfl

end OperatorTable

/-! ## Forms -/

/-- Reads a form of the given kind, taking the token that announces it for granted. -/
def Grammar.form (table : OperatorTable) : FormKind → Parse Form
  | .definition => do return .definition (← definition table)
  | .external => do return .external (← external)
  | .expression => do return .expression (← topLevel table)

theorem Grammar.form_alike {R : Cursor → Cursor → Prop} {E : Error → Cursor → Cursor → Prop}
    (parallel : Cursor.Parallel R E) {table other : OperatorTable} (comparable : table.Comparable R 0 other)
    (kind : FormKind) : Alike R E (form table kind) (form other kind) := by
  cases kind with
  | definition => exact .bind (definition_alike parallel comparable) fun _ => .pure _
  | external => exact .bind (external_alike parallel) fun _ => .pure _
  | expression => exact .bind (topLevel_alike parallel comparable) fun _ => .pure _

theorem Grammar.form_blind {R : Cursor → Cursor → Prop} (bisim : Cursor.Bisimulation R)
    (table : OperatorTable) (kind : FormKind) : Blind R (form table kind) :=
  (form_alike bisim.parallel (bisim.comparable 0 table) kind).blind

theorem Grammar.kind_of_form {table : OperatorTable} {kind : FormKind} {cursor last : Cursor}
    {result : Form} (read : form table kind cursor = .ok result last) : result.kind = kind := by
  cases kind
  all_goals
    simp only [form, bind_ok_iff, pure_ok_iff] at read
    obtain ⟨_, _, _, rfl, _⟩ := read
    rfl

/-- Where no separator stands, forms are read exactly. -/
theorem Grammar.form_ok_iff {table : OperatorTable} {cursor last : Cursor} {result : Form}
    (spelled : cursor.Spelled) (noSeparator : cursor.current ≠ .char ';') :
    form table (.announcedBy cursor.current) cursor = .ok result last ↔
      ∃ tokens, cursor.Crosses tokens last ∧ Phrase.OfForm table tokens result last.current := by
  constructor
  · intro read
    cases kind : FormKind.announcedBy cursor.current with
    | definition =>
      simp only [kind, form, bind_ok_iff, pure_ok_iff, definition_ok_iff table spelled] at read
      obtain ⟨function, _, ⟨tokens, crossed, phrase⟩, rfl, rfl⟩ := read
      exact ⟨_, FormKind.announcedBy_eq_definition kind ▸ crossed, phrase⟩
    | external =>
      simp only [kind, form, bind_ok_iff, pure_ok_iff, external_ok_iff table spelled] at read
      obtain ⟨function, _, ⟨tokens, crossed, phrase⟩, rfl, rfl⟩ := read
      exact ⟨_, FormKind.announcedBy_eq_external kind ▸ crossed, phrase⟩
    | expression =>
      simp only [kind, form, bind_ok_iff, pure_ok_iff, topLevel_ok_iff] at read
      obtain ⟨_, _, ⟨tokens, body, crossed, inner, rfl⟩, rfl, rfl⟩ := read
      exact ⟨tokens, crossed, .expression (crossed.current_eq ▸ noSeparator) inner⟩
  · rintro ⟨tokens, crossed, phrase⟩
    obtain ⟨token, later, whole, _, _, kind⟩ := phrase.exists_cons
    have here := crossed.current_eq
    rw [whole, List.headD_cons] at here
    rw [here, kind]
    cases phrase with
    | definition signature inner =>
      cases whole
      have read := (definition_ok_iff table spelled).mpr ⟨_, here.symm ▸ crossed, .definition signature inner⟩
      exact (bind_ok_iff _ _).mpr ⟨_, last, read, rfl⟩
    | external signature =>
      cases whole
      have read := (external_ok_iff table spelled).mpr ⟨_, here.symm ▸ crossed, .external signature⟩
      exact (bind_ok_iff _ _).mpr ⟨_, last, read, rfl⟩
    | expression _ inner =>
      have read := (topLevel_ok_iff table).mpr ⟨tokens, _, crossed, inner, rfl⟩
      exact (bind_ok_iff _ _).mpr ⟨_, last, read, rfl⟩

/-- A form that a source can contain: under some table it is a phrase of tokens that can be spelled. -/
def Form.Written (form : Form) : Prop :=
  ∃ table tokens next, Phrase.OfForm table tokens form next ∧ ∀ token ∈ tokens, token.Spelled

/-- A form that a source can contain under the given operators. -/
def Form.WrittenUnder (table : OperatorTable) (form : Form) : Prop :=
  ∃ tokens next, Phrase.OfForm table tokens form next ∧ ∀ token ∈ tokens, token.Spelled

/-- Forms that a source can contain one after the other, each under the operators declared before it. -/
inductive WrittenInTurn : OperatorTable → List Form → Prop
  | nil {table : OperatorTable} : WrittenInTurn table []
  | cons {table : OperatorTable} {form : Form} {forms : List Form} (first : form.WrittenUnder table)
      (rest : WrittenInTurn (table.record [form]) forms) : WrittenInTurn table (form :: forms)

namespace WrittenInTurn

variable {table : OperatorTable} {before after : List Form}

theorem append (written : WrittenInTurn table before) (later : WrittenInTurn (table.record before) after) :
    WrittenInTurn table (before ++ after) := by
  induction written with
  | nil => exact later
  | cons first _ ih =>
    rw [← List.singleton_append, OperatorTable.record_append] at later
    exact .cons first (ih later)

theorem of_append (written : WrittenInTurn table (before ++ after)) : WrittenInTurn table before := by
  induction before generalizing table with
  | nil => exact .nil
  | cons earlier before ih =>
    cases written with
    | cons first rest => exact .cons first (ih rest)

/-- Every form is read under what the forms before it have made of the table. -/
theorem under {form : Form} (written : WrittenInTurn table (before ++ form :: after)) :
    form.WrittenUnder (table.record before) := by
  induction before generalizing table with
  | nil =>
    cases written with
    | cons first => exact first
  | cons earlier before ih =>
    cases written with
    | cons _ rest =>
      rw [← List.singleton_append, OperatorTable.record_append]
      exact ih rest

theorem of_mem {forms : List Form} (written : WrittenInTurn table forms) {form : Form} (member : form ∈ forms) :
    form.Written := by
  obtain ⟨before, after, rfl⟩ := List.append_of_mem member
  exact ⟨_, written.under⟩

end WrittenInTurn

/-! ## Delivery -/

namespace Delivery

variable {ι : Type}

/-- No rule is open and no form waits. -/
def Idle (delivery : Delivery ι) : Prop := delivery.openRules = [] ∧ delivery.pending = []

/-- The delivery after the listener, if there is one, has been told of forms. -/
def tell (delivery : Delivery ι) (forms : List Form) : Delivery ι :=
  match delivery.listener with
  | none => delivery
  | some listener =>
    let told := forms.flatMap Notification.ofForm
    { delivery with delivered := delivery.delivered ++ told.map fun notification => (listener, notification) }

@[simp] theorem tell_nil (delivery : Delivery ι) : delivery.tell [] = delivery := by
  unfold tell
  split <;> simp

theorem tell_append (delivery : Delivery ι) (first second : List Form) :
    delivery.tell (first ++ second) = (delivery.tell first).tell second := by
  simp only [tell]
  cases listener : delivery.listener <;> simp [listener]

theorem Idle.tell {delivery : Delivery ι} (idle : delivery.Idle) (forms : List Form) :
    (delivery.tell forms).Idle := by
  unfold Delivery.tell
  split <;> exact idle

/-- A form that closes a rule of its own kind is handed out at once. -/
theorem closeRule_openRule {delivery : Delivery ι} (idle : delivery.Idle) (form : Form) :
    ∃ closed, closeRule (some form) (delivery.openRule form.kind) = .ok () closed ∧
      closed.handOut = delivery.tell [form] := by
  obtain ⟨openRules, pending, listener, delivered⟩ := delivery
  obtain ⟨rfl, rfl⟩ := idle
  refine ⟨_, by simp only [closeRule, openRule, ↓reduceIte]; rfl, ?_⟩
  cases listener <;> simp [handOut, Delivery.tell]

end Delivery

/-! ## One form -/

namespace Parser

/-- The parser once it has read forms up to the given cursor. -/
def accept (parser : Parser) (forms : List Form) (cursor : Cursor) : Parser :=
  { parser with
    cursor := cursor
    table := parser.table.record forms
    delivery := parser.delivery.tell forms }

theorem accept_accept (parser : Parser) (first second : List Form) (middle last : Cursor) :
    (parser.accept first middle).accept second last = parser.accept (first ++ second) last := by
  simp only [accept, OperatorTable.record_append, Delivery.tell_append]

@[simp] theorem accept_nil (parser : Parser) : parser.accept [] parser.cursor = parser := by
  simp only [accept, OperatorTable.record_nil, Delivery.tell_nil]

theorem form_eq (parser : Parser) (kind : FormKind) :
    parser.form kind =
      match Grammar.form parser.table kind parser.cursor with
      | .ok form cursor => (.ok form, { parser with cursor := cursor, table := parser.table.record [form] })
      | .error fault cursor => (.error fault, { parser with cursor := cursor }) := by
  cases kind with
  | definition =>
    simp only [form, definition, read, Grammar.form, bind, EStateM.bind]
    cases Grammar.definition parser.table parser.cursor with
    | ok function cursor =>
      have known : (Form.definition function).prototype? = some function.proto := rfl
      simp only [declare, Except.map, OperatorTable.declarePrototype_eq_record known]
      rfl
    | error => rfl
  | external =>
    simp only [form, external, read, Grammar.form, bind, EStateM.bind]
    cases Grammar.external parser.cursor with
    | ok proto cursor =>
      have known : (Form.external proto).prototype? = some proto := rfl
      simp only [declare, Except.map, OperatorTable.declarePrototype_eq_record known]
      rfl
    | error => rfl
  | expression =>
    simp only [form, topLevel, read, Grammar.form, bind, EStateM.bind]
    cases Grammar.topLevel parser.table parser.cursor <;> rfl

/-- Reading one form: it is recorded and handed out, or the parser recovers from its error. -/
theorem process_eq {parser : Parser} (idle : parser.delivery.Idle) (kind : FormKind) :
    parser.process kind =
      match Grammar.form parser.table kind parser.cursor with
      | .ok form cursor => parser.accept [form] cursor
      | .error fault cursor => recover { parser with cursor := cursor } fault := by
  simp only [process, form_eq]
  cases read : Grammar.form parser.table kind parser.cursor with
  | ok form cursor =>
    obtain rfl := Grammar.kind_of_form read
    obtain ⟨closed, closes, told⟩ := Delivery.closeRule_openRule idle form
    simp only [close, closes, told, accept]
  | error fault cursor =>
    obtain ⟨cursor', table, ⟨openRules, pending, listener, delivered⟩, diagnostics⟩ := parser
    obtain ⟨rfl, rfl⟩ := idle
    rfl

theorem step_of_ne {parser : Parser} {token : Token} (noSeparator : token ≠ .char ';') :
    parser.step token = parser.process (.announcedBy token) := by
  cases token with
  | char symbol =>
    have other : symbol ≠ ';' := fun same => noSeparator (same ▸ rfl)
    simp [step, FormKind.announcedBy]
  | keyword word => cases word <;> rfl
  | _ => rfl

end Parser

/-! ## Progress -/

namespace Cursor

/-- A step fails at a malformed number only; it passes the number over and keeps the current token. -/
theorem advance_error {cursor next : Cursor} {fault : Error} (step : advance cursor = .error fault next) :
    ∃ run place later, cursor.unread = ⟨.malformed run, place⟩ :: later ∧ fault = .malformedNumber run ∧
      next = { cursor with place := place, unread := later } := by
  simp only [advance] at step
  split at step
  · cases step
  · cases step
  · next run place later some =>
    cases step
    exact ⟨run, place, later, some, rfl, rfl⟩

/-- Stepping over malformed numbers only asks where the source ends, not where the cursor was before. -/
theorem go_advanceOver_congr (first second : Cursor) (finish : first.finish = second.finish) (unread : List Lexeme) :
    advanceOver.go first unread = advanceOver.go second unread := by
  induction unread with
  | nil => simp only [advanceOver.go, finish]
  | cons lexeme later ih =>
    obtain ⟨token | run, place⟩ := lexeme
    · simp only [advanceOver.go, finish]
    · simp only [advanceOver.go, ih]

theorem advanceOver_of_ok {cursor next : Cursor} (step : advance cursor = .ok () next) :
    cursor.advanceOver = ([], next) := by
  obtain ⟨current, place, unread, finish⟩ := cursor
  rcases unread with _ | ⟨⟨token | run, found⟩, later⟩
  · cases step
    rfl
  · cases step
    rfl
  · cases step

theorem advanceOver_of_error {cursor stopped : Cursor} {fault : Error} (step : advance cursor = .error fault stopped) :
    cursor.advanceOver = (⟨fault, stopped.place⟩ :: stopped.advanceOver.1, stopped.advanceOver.2) ∧
      stopped.unread.length < cursor.unread.length := by
  obtain ⟨run, place, later, unread, rfl, rfl⟩ := advance_error step
  have same := go_advanceOver_congr cursor { cursor with place := place, unread := later } rfl later
  simp only [advanceOver, unread, advanceOver.go, same, List.length_cons, Nat.lt_succ_self, and_self]

/-- Stepping over malformed numbers is stepping until a step succeeds, with a diagnostic for each that fails. -/
theorem advanceOver_induct {motive : Cursor → List Diagnostic × Cursor → Prop}
    (ok : ∀ {cursor next}, advance cursor = .ok () next → motive cursor ([], next))
    (error : ∀ {cursor stopped fault}, advance cursor = .error fault stopped → motive stopped stopped.advanceOver →
      motive cursor (⟨fault, stopped.place⟩ :: stopped.advanceOver.1, stopped.advanceOver.2))
    (cursor : Cursor) : motive cursor cursor.advanceOver := by
  cases step : advance cursor with
  | ok _ next =>
    rw [advanceOver_of_ok step]
    exact ok step
  | error fault stopped =>
    obtain ⟨same, shorter⟩ := advanceOver_of_error step
    rw [same]
    exact error step (advanceOver_induct ok error stopped)
termination_by cursor.unread.length

theorem spelled_advance {cursor : Cursor} (spelled : cursor.Spelled) :
    (stoppedAt (advance cursor)).Spelled := by
  cases step : advance cursor with
  | ok _ next => exact spelled.advance_ok step
  | error fault next =>
    obtain ⟨run, place, later, some, rfl, rfl⟩ := advance_error step
    refine ⟨.inr (spelled.current.resolve_left fun ended => ?_), fun lexeme member => ?_⟩
    · rw [ended.2] at some
      cases some
    · exact spelled.unread lexeme (some ▸ List.mem_cons_of_mem _ member)

theorem remaining_stoppedAt_advance (cursor : Cursor) :
    (stoppedAt (advance cursor)).remaining ≤ cursor.remaining := by
  cases step : advance cursor with
  | ok _ next => exact (remaining_advance step).1
  | error fault next =>
    obtain ⟨run, place, later, some, rfl, rfl⟩ := advance_error step
    simp only [stoppedAt, remaining, some, List.length_cons]
    exact Nat.add_le_add_right (Nat.le_succ _) _

/-- Stepping over malformed numbers ends behind them on a token, or at the end of the source. -/
theorem go_advanceOver (cursor : Cursor) (unread : List Lexeme)
    (spelled : ∀ lexeme ∈ unread, ∀ token, lexeme.item = .token token → token.Spelled) :
    (advanceOver.go cursor unread).2.Spelled ∧ (advanceOver.go cursor unread).2.remaining ≤ unread.length := by
  induction unread with
  | nil => exact ⟨⟨.inl ⟨rfl, rfl⟩, List.forall_mem_nil _⟩, Nat.le_refl 0⟩
  | cons lexeme later ih =>
    obtain ⟨token | run, place⟩ := lexeme
    · have here := spelled _ (List.mem_cons_self ..) token rfl
      refine ⟨⟨.inr here, fun other member => spelled other (List.mem_cons_of_mem _ member)⟩, ?_⟩
      exact Nat.add_le_add_left (Nat.le_of_eq (if_neg here.ne_endOfInput)) _
    · obtain ⟨spelled, bound⟩ := ih fun other member => spelled other (List.mem_cons_of_mem _ member)
      exact ⟨spelled, Nat.le_succ_of_le bound⟩

theorem Spelled.advanceOver {cursor : Cursor} (spelled : cursor.Spelled) : cursor.advanceOver.2.Spelled :=
  (go_advanceOver cursor cursor.unread spelled.unread).1

/-- Stepping over malformed numbers leaves less to be read, unless nothing was left. -/
theorem Spelled.remaining_advanceOver {cursor : Cursor} (spelled : cursor.Spelled) {bound : Nat}
    (below : cursor.remaining ≤ bound) (positive : 0 < bound) : cursor.advanceOver.2.remaining < bound := by
  have after := (go_advanceOver cursor cursor.unread spelled.unread).2
  change cursor.advanceOver.2.remaining ≤ cursor.unread.length at after
  rcases spelled.current with ⟨_, nothing⟩ | here
  · rw [nothing, List.length_nil] at after
    omega
  · rw [remaining, if_neg here.ne_endOfInput] at below
    omega

end Cursor

namespace Parser

/-- What holds of a parser whenever it looks for a form. -/
structure Ready (parser : Parser) : Prop where
  spelled : parser.cursor.Spelled
  idle : parser.delivery.Idle

theorem Ready.skip {parser : Parser} (ready : parser.Ready) : parser.skip.Ready :=
  ⟨ready.spelled.advanceOver, ready.idle⟩

theorem Ready.accept {parser : Parser} (ready : parser.Ready) (forms : List Form) {cursor : Cursor}
    (spelled : cursor.Spelled) : (parser.accept forms cursor).Ready :=
  ⟨spelled, ready.idle.tell forms⟩

end Parser

/-- Reading a form, with success or not, leaves the cursor on what the source spells and no farther back. -/
theorem Grammar.form_stoppedAt (table : OperatorTable) (kind : FormKind) {cursor : Cursor}
    (spelled : cursor.Spelled) : (stoppedAt (form table kind cursor)).Spelled ∧
      (stoppedAt (form table kind cursor)).remaining ≤ cursor.remaining := by
  have bisim : Cursor.Bisimulation fun first second =>
      first = second ∧ (first.Spelled ∧ first.remaining ≤ cursor.remaining) :=
    .ofInvariant fun here ⟨spelled, bound⟩ =>
      ⟨Cursor.spelled_advance spelled, Nat.le_trans here.remaining_stoppedAt_advance bound⟩
  exact (form_blind bisim table kind).invariant ⟨spelled, Nat.le_refl _⟩

namespace Parser

variable {parser : Parser}

theorem Ready.recover (ready : parser.Ready) (fault : Error) {cursor : Cursor} (spelled : cursor.Spelled) :
    (recover { parser with cursor := cursor } fault).Ready :=
  ⟨spelled.advanceOver, ready.idle⟩

/-- Reading a form leaves the parser ready and the cursor farther on. -/
theorem Ready.process (ready : parser.Ready) (noSeparator : parser.cursor.current ≠ .char ';')
    (inside : parser.cursor.current ≠ .endOfInput) :
    (parser.process (.announcedBy parser.cursor.current)).Ready ∧
      (parser.process (.announcedBy parser.cursor.current)).cursor.remaining < parser.cursor.remaining := by
  rw [process_eq ready.idle]
  have stopped := Grammar.form_stoppedAt parser.table (.announcedBy parser.cursor.current) ready.spelled
  cases read : Grammar.form parser.table (.announcedBy parser.cursor.current) parser.cursor with
  | ok form last =>
    obtain ⟨tokens, crossed, phrase⟩ := (Grammar.form_ok_iff ready.spelled noSeparator).mp read
    obtain ⟨token, later, rfl, inside, _⟩ := phrase.exists_cons
    exact ⟨ready.accept [form] (crossed.spelled ready.spelled), crossed.remaining_lt inside⟩
  | error fault last =>
    rw [read] at stopped
    have positive : 0 < parser.cursor.remaining := by
      rw [Cursor.remaining, if_neg inside]
      omega
    exact ⟨ready.recover fault stopped.1, stopped.1.remaining_advanceOver stopped.2 positive⟩

/-- One step of a run leaves the parser ready and the cursor farther on. -/
theorem Ready.step (ready : parser.Ready) (inside : parser.cursor.current ≠ .endOfInput) :
    (parser.step parser.cursor.current).Ready ∧
      (parser.step parser.cursor.current).cursor.remaining < parser.cursor.remaining := by
  by_cases separator : parser.cursor.current = .char ';'
  · have positive : 0 < parser.cursor.remaining := by
      rw [Cursor.remaining, if_neg inside]
      omega
    -- the semicolon itself is passed over, whatever is wrong with what follows it
    rw [separator]
    exact ⟨ready.skip, ready.spelled.remaining_advanceOver (Nat.le_refl _) positive⟩
  · rw [step_of_ne separator]
    exact ready.process separator inside

theorem run_of_ended (ended : parser.cursor.current = .endOfInput) : parser.run = parser := by
  rw [run, if_pos ended]

/-- A run goes on after every step. -/
theorem Ready.run_eq (ready : parser.Ready) (inside : parser.cursor.current ≠ .endOfInput) :
    parser.run = (parser.step parser.cursor.current).run := by
  rw [run, if_neg inside]
  exact if_pos (ready.step inside).2

/-- Induction over the steps of a run, backwards from its end. -/
theorem Ready.induct {motive : (parser : Parser) → parser.Ready → Prop}
    (ended : ∀ parser ready, parser.cursor.current = .endOfInput → motive parser ready)
    (step : ∀ parser (ready : parser.Ready) (inside : parser.cursor.current ≠ .endOfInput),
      motive (parser.step parser.cursor.current) (ready.step inside).1 → motive parser ready)
    (parser : Parser) (ready : parser.Ready) : motive parser ready := by
  by_cases inside : parser.cursor.current = .endOfInput
  · exact ended parser ready inside
  · exact step parser ready inside (Ready.induct ended step _ (ready.step inside).1)
termination_by parser.cursor.remaining
decreasing_by exact (ready.step inside).2

/-! ## What a run leaves behind -/

/-- A run has recorded and handed out the same forms, each of which stands in the source. -/
theorem step_record (ready : parser.Ready) :
    ∃ forms, (parser.step parser.cursor.current).table = parser.table.record forms ∧
      (parser.step parser.cursor.current).delivery = parser.delivery.tell forms ∧
      WrittenInTurn parser.table forms := by
  by_cases separator : parser.cursor.current = .char ';'
  · rw [separator]
    exact ⟨[], rfl, (Delivery.tell_nil _).symm, .nil⟩
  · rw [step_of_ne separator, process_eq ready.idle]
    cases read : Grammar.form parser.table (.announcedBy parser.cursor.current) parser.cursor with
    | error fault last => exact ⟨[], rfl, (Delivery.tell_nil _).symm, .nil⟩
    | ok form last =>
      obtain ⟨tokens, crossed, phrase⟩ := (Grammar.form_ok_iff ready.spelled separator).mp read
      refine ⟨[form], rfl, rfl, .cons ⟨tokens, _, phrase, fun token inside => ?_⟩ .nil⟩
      exact (crossed.spelled_of_mem ready.spelled inside).resolve_left fun ended =>
        Phrase.OfForm.inner _ _ _ _ phrase (ended ▸ inside)

theorem run_record (ready : parser.Ready) :
    ∃ forms, parser.run.table = parser.table.record forms ∧
      parser.run.delivery = parser.delivery.tell forms ∧ WrittenInTurn parser.table forms := by
  induction parser, ready using Ready.induct with
  | ended parser ready ended =>
    rw [run_of_ended ended]
    exact ⟨[], rfl, (Delivery.tell_nil _).symm, .nil⟩
  | step parser ready inside ih =>
    obtain ⟨first, table, told, written⟩ := step_record ready
    obtain ⟨later, tableAfter, toldAfter, writtenAfter⟩ := ih
    rw [ready.run_eq inside]
    refine ⟨first ++ later, ?_, ?_, written.append (table ▸ writtenAfter)⟩
    · rw [tableAfter, table, OperatorTable.record_append]
    · rw [toldAfter, told, Delivery.tell_append]

/-- A parser is ready on the first token of a source. -/
theorem ready_ofSource (table : OperatorTable) (source : String) :
    (ofSource table source).withListener.Ready := by
  exact ⟨(Cursor.go_advanceOver _ _ fun _ => spelled_of_mem_lexemes).1, rfl, rfl⟩

end Parser

/-! ## Sources -/

/-- What a listener hears of forms from the beginning. -/
theorem forms_of_notifications (forms : List Form) :
    (forms.flatMap Notification.ofForm).filterMap Notification.completed? = forms := by
  induction forms with
  | nil => rfl
  | cons form forms ih =>
    rw [List.flatMap_cons, List.filterMap_append, ih]
    rfl

theorem notifications_tell (parser : Parser) (forms : List Form)
    (fresh : parser.delivery.listener = some ()) :
    (parser.delivery.tell forms).delivered.map Prod.snd =
      parser.notifications ++ forms.flatMap Notification.ofForm := by
  simp [Delivery.tell, fresh, Parser.notifications, Function.comp_def]

/-- The listener hears of each form once from first to last, and the table is the record of what it heard. -/
theorem parse_in_turn (table : OperatorTable) (source : String) :
    (parse table source).table = table.record (parse table source).forms ∧
      (parse table source).notifications = (parse table source).forms.flatMap Notification.ofForm ∧
      WrittenInTurn table (parse table source).forms := by
  obtain ⟨forms, tableAfter, toldAfter, written⟩ := Parser.run_record (Parser.ready_ofSource table source)
  have heard : (parse table source).notifications = forms.flatMap Notification.ofForm := by
    change (Parser.run _).delivery.delivered.map Prod.snd = _
    rw [toldAfter, notifications_tell _ _ rfl]
    rfl
  have same : (parse table source).forms = forms := by
    rw [Outcome.forms, heard, forms_of_notifications]
  rw [same]
  exact ⟨tableAfter, heard, written⟩

theorem parse_record (table : OperatorTable) (source : String) :
    (parse table source).table = table.record (parse table source).forms ∧
      (parse table source).notifications = (parse table source).forms.flatMap Notification.ofForm ∧
      ∀ form ∈ (parse table source).forms, form.Written := by
  obtain ⟨recorded, heard, written⟩ := parse_in_turn table source
  exact ⟨recorded, heard, fun _ => written.of_mem⟩

end OpLang

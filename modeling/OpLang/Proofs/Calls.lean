import OpLang.Proofs.Descent
import OpLang.Proofs.OperatorRecord

/-! # Calls on a parser

Whoever holds a parser may do more with it than run it: read a single production, wherever the cursor stands and
whatever has gone wrong before, or a form of any kind, or let the parser run for the rest of the source. A machine
does all this by descent and carries the count of operands from one call into the next.

Between two calls the count is zero. So every call of the machine has the outcome that the parser has, no matter
what was called before, and none of them goes on for ever.
-/

namespace OpLang

/-! ## Productions -/

/-- What can be read by itself. -/
inductive Production : Type → Type
  | primary : Production Expr
  | operand : Production Expr
  | chain (bound : Int) (first : Expr) : Production Expr
  | expression : Production Expr
  | ifElse : Production Expr
  | forIn : Production Expr
  | varIn : Production Expr
  | prototype : Production Prototype
  | definition : Production Function
  | external : Production Prototype
  | topLevel : Production Function

/-- Reads a production from the current token. -/
def Parser.call {α : Type} (parser : Parser) : Production α → Except Error α × Parser
  | .primary => parser.primary
  | .operand => parser.operand
  | .chain bound first => parser.chain bound first
  | .expression => parser.expression
  | .ifElse => parser.ifElse
  | .forIn => parser.forIn
  | .varIn => parser.varIn
  | .prototype => parser.prototype
  | .definition => parser.definition
  | .external => parser.external
  | .topLevel => parser.topLevel

namespace Production

open Grammar (outerOperand)

/-- The production as the grammar has it. -/
def parse (table : OperatorTable) {α : Type} : Production α → Parse α
  | .primary => Grammar.primary table (outerOperand table)
  | .operand => outerOperand table
  | .chain bound first => Grammar.chain table (outerOperand table) bound first
  | .expression => Grammar.expression table (outerOperand table)
  | .ifElse => Grammar.ifElse table (outerOperand table)
  | .forIn => Grammar.forIn table (outerOperand table)
  | .varIn => Grammar.varIn table (outerOperand table)
  | .prototype => Grammar.prototype
  | .definition => Grammar.definition table
  | .external => Grammar.external
  | .topLevel => Grammar.topLevel table

/-- The production by descent. -/
def reading (reader : Descent) {α : Type} : Production α → Descent.Reading α
  | .primary => reader.primary
  | .operand => reader.operand
  | .chain bound first => reader.climb bound first
  | .expression => reader.expression
  | .ifElse => reader.ifElse
  | .forIn => reader.forIn
  | .varIn => reader.varIn
  | .prototype => reader.prototype
  | .definition => reader.definition
  | .external => reader.external
  | .topLevel => reader.topLevel

/-- The form that has been read with the production, if it is one for forms. -/
def form? {α : Type} : Production α → α → Option Form
  | .definition, function => some (.definition function)
  | .external, proto => some (.external proto)
  | .topLevel, function => some (.expression function)
  | _, _ => none

theorem parse_blind {R : Cursor → Cursor → Prop} (bisim : Cursor.Bisimulation R) (table : OperatorTable)
    {α : Type} (production : Production α) : Blind R (production.parse table) := by
  have parallel := bisim.parallel
  have comparable := bisim.comparable 0 table
  have operand := Grammar.operandWithin_alike parallel comparable Grammar.maxNesting
  apply Alike.blind
  cases production with
  | primary => exact Grammar.primary_alike parallel operand comparable
  | operand => exact operand
  | chain bound first =>
    exact Grammar.chain_alike parallel operand (bisim.comparable bound table) (.inr fun _ _ _ related => related) first
  | expression => exact Grammar.body_alike parallel comparable
  | ifElse => exact Grammar.ifElse_alike parallel operand comparable
  | forIn => exact Grammar.forIn_alike parallel operand comparable
  | varIn => exact Grammar.varIn_alike parallel operand comparable
  | prototype => exact Grammar.prototype_alike parallel
  | definition => exact Grammar.definition_alike parallel comparable
  | external => exact Grammar.external_alike parallel
  | topLevel => exact Grammar.topLevel_alike parallel comparable

theorem reading_follows (reader : Descent) (fits : reader.table.Fits) {α : Type} (production : Production α) :
    Descent.Follows 0 (production.reading reader) (production.parse reader.table) := by
  have operand := Descent.outerOperand_follows fits
  cases production with
  | primary => exact Descent.primary_follows fits operand
  | operand => exact operand
  | chain bound first => exact Descent.climb_follows fits operand bound first
  | expression => exact Descent.body_follows fits
  | ifElse => exact Descent.ifElse_follows fits operand
  | forIn => exact Descent.forIn_follows fits operand
  | varIn => exact Descent.varIn_follows fits operand
  | prototype => exact reader.prototype_follows 0
  | definition => exact Descent.definition_follows fits
  | external => exact reader.external_follows 0
  | topLevel => exact Descent.topLevel_follows fits

/-- What has been read as a form declares precedences in the range that programs may declare. -/
theorem bounds_of_form (table : OperatorTable) {α : Type} (production : Production α) {value : α} {form : Form}
    (whole : production.form? value = some form) {cursor last : Cursor} (spelled : cursor.Spelled)
    (read : production.parse table cursor = .ok value last) {entry : Char × Int}
    (declared : form.operator? = some entry) :
    minPrecedence ≤ entry.2 ∧ entry.2 ≤ maxPrecedence := by
  cases production with
  | definition =>
    obtain rfl := Option.some.inj whole
    obtain ⟨tokens, _, phrase⟩ := (Grammar.definition_ok_iff table spelled).mp read
    exact phrase.operator?_bounds declared
  | external =>
    obtain rfl := Option.some.inj whole
    obtain ⟨tokens, _, phrase⟩ := (Grammar.external_ok_iff table spelled).mp read
    exact phrase.operator?_bounds declared
  | topLevel =>
    obtain rfl := Option.some.inj whole
    cases declared
  | _ => cases whole

end Production

namespace OperatorTable

/-- The entries that programs may declare fit into any table that fits. -/
theorem Fits.record {table : OperatorTable} (fits : table.Fits) {forms : List Form}
    (bounded : ∀ form ∈ forms, ∀ entry, form.operator? = some entry →
      minPrecedence ≤ entry.2 ∧ entry.2 ≤ maxPrecedence) : (table.record forms).Fits := by
  intro entry member
  rw [OperatorTable.record, entries_declareAll, List.mem_append, List.mem_reverse] at member
  rcases member with added | kept
  · obtain ⟨form, inside, declared⟩ := List.mem_filterMap.mp added
    obtain ⟨least, most⟩ := bounded form inside entry declared
    have low : minInt32 ≤ minPrecedence := by decide
    have high : maxPrecedence ≤ maxInt32 := by decide
    exact ⟨Int.le_trans low least, Int.le_trans most high⟩
  · exact fits entry kept

end OperatorTable

namespace Parser

variable {parser : Parser}

/-- A call moves the cursor, and a form is recorded; nothing else becomes of a call. -/
theorem call_eq (parser : Parser) {α : Type} (production : Production α) :
    parser.call production =
      match production.parse parser.table parser.cursor with
      | .ok value cursor =>
        (.ok value, { parser with cursor := cursor, table := parser.table.record (production.form? value).toList })
      | .error fault cursor => (.error fault, { parser with cursor := cursor }) := by
  cases production with
  | definition =>
    simp only [call, definition, read, Production.parse]
    cases Grammar.definition parser.table parser.cursor with
    | ok function cursor =>
      have known : (Form.definition function).prototype? = some function.proto := rfl
      simp only [declare, OperatorTable.declarePrototype_eq_record known]
      rfl
    | error => rfl
  | external =>
    simp only [call, external, read, Production.parse]
    cases Grammar.external parser.cursor with
    | ok proto cursor =>
      have known : (Form.external proto).prototype? = some proto := rfl
      simp only [declare, OperatorTable.declarePrototype_eq_record known]
      rfl
    | error => rfl
  | topLevel =>
    simp only [call, topLevel, read, Production.parse]
    cases Grammar.topLevel parser.table parser.cursor <;> rfl
  | _ => rfl

theorem Ready.call (ready : parser.Ready) {α : Type} (production : Production α) :
    (parser.call production).2.Ready := by
  have bisim : Cursor.Bisimulation fun first second => first = second ∧ first.Spelled :=
    .ofInvariant fun _ spelled => Cursor.spelled_advance spelled
  have stopped := (production.parse_blind bisim parser.table).invariant ready.spelled
  rw [call_eq]
  cases read : production.parse parser.table parser.cursor with
  | ok value last => exact ⟨by rwa [read] at stopped, ready.idle⟩
  | error fault last => exact ⟨by rwa [read] at stopped, ready.idle⟩

theorem Ready.fits_call (ready : parser.Ready) (fits : parser.table.Fits) {α : Type}
    (production : Production α) : (parser.call production).2.table.Fits := by
  rw [call_eq]
  cases read : production.parse parser.table parser.cursor with
  | ok value last =>
    refine fits.record fun form member entry declared => ?_
    exact production.bounds_of_form parser.table (Option.mem_toList.mp member) ready.spelled read declared
  | error fault last => exact fits

/-- A form of any kind may be asked for on any token. -/
theorem Ready.process_kind (ready : parser.Ready) (kind : FormKind) : (parser.process kind).Ready := by
  have stopped := (Grammar.form_stoppedAt parser.table kind ready.spelled).1
  rw [process_eq ready.idle]
  cases read : Grammar.form parser.table kind parser.cursor with
  | ok form last => exact ready.accept [form] (by rwa [read] at stopped)
  | error fault last => exact ready.recover fault (by rwa [read] at stopped)

theorem Ready.fits_process (ready : parser.Ready) (fits : parser.table.Fits) (kind : FormKind) :
    (parser.process kind).table.Fits := by
  rw [process_eq ready.idle]
  cases read : Grammar.form parser.table kind parser.cursor with
  | error fault last => exact fits
  | ok form last =>
    refine fits.record fun other member entry declared => ?_
    obtain rfl := List.mem_singleton.mp member
    cases kind
    all_goals
      simp only [Grammar.form, bind_ok_iff, pure_ok_iff] at read
      obtain ⟨value, _, read, rfl, _⟩ := read
    · exact Production.definition.bounds_of_form parser.table rfl ready.spelled read declared
    · exact Production.external.bounds_of_form parser.table rfl ready.spelled read declared
    · exact Production.topLevel.bounds_of_form parser.table rfl ready.spelled read declared

theorem Ready.fits_step (ready : parser.Ready) (fits : parser.table.Fits) (token : Token) :
    (parser.step token).table.Fits := by
  by_cases separator : token = .char ';'
  · subst separator
    exact fits
  · rw [step_of_ne separator]
    exact ready.fits_process fits _

theorem Ready.run (ready : parser.Ready) (fits : parser.table.Fits) :
    parser.run.Ready ∧ parser.run.table.Fits := by
  induction parser, ready using Ready.induct with
  | ended parser ready ended =>
    rw [run_of_ended ended]
    exact ⟨ready, fits⟩
  | step parser ready inside ih =>
    rw [ready.run_eq inside]
    exact ih (ready.fits_step fits _)

end Parser

/-! ## Machines -/

/-- A parser that reads by descent, with its count of operands. -/
structure Machine where
  parser : Parser
  nesting : Nat

namespace Machine

def ofSource (table : OperatorTable) (source : String) : Machine := ⟨.ofSource table source, 0⟩

/-- From now on somebody listens. -/
def withListener (machine : Machine) : Machine := { machine with parser := machine.parser.withListener }

/-- Reads a production by descent, from the current token and with the present count. -/
def call {α : Type} (machine : Machine) (production : Production α) : Option (Except Error α × Machine) := do
  let parser := machine.parser
  let (result, last) ← production.reading ⟨parser.table⟩ ⟨parser.cursor, machine.nesting⟩
  let next := { parser with cursor := last.cursor }
  match result with
  | .ok value =>
    let table := next.table.record (production.form? value).toList
    return (.ok value, ⟨{ next with table := table }, last.nesting⟩)
  | .error fault => return (.error fault, ⟨next, last.nesting⟩)

/-- Reads a form of the given kind by descent. -/
def form (machine : Machine) : FormKind → Option (Except Error Form × Machine)
  | .definition => (machine.call .definition).map fun (result, next) => (result.map .definition, next)
  | .external => (machine.call .external).map fun (result, next) => (result.map .external, next)
  | .expression => (machine.call .topLevel).map fun (result, next) => (result.map .expression, next)

/-- Reads a form of the given kind under a rule of its own, and hands it out or recovers. -/
def process (machine : Machine) (kind : FormKind) : Option Machine := do
  let opened := { machine.parser with delivery := machine.parser.delivery.openRule kind }
  let (result, next) ← form { machine with parser := opened } kind
  return { next with parser := next.parser.close result }

/-- Reads what starts with the given token. -/
def step (machine : Machine) : Token → Option Machine
  | .char ';' => some { machine with parser := machine.parser.skip }
  | .keyword .defWord => machine.process .definition
  | .keyword .externWord => machine.process .external
  | _ => machine.process .expression

/-- Reads forms for as long as the end of input has not been reached. -/
def run (machine : Machine) : Option Machine :=
  if machine.parser.cursor.current = .endOfInput then some machine
  else do
    let next ← machine.step machine.parser.cursor.current
    next |>.run
partial_fixpoint

variable {parser : Parser} (fits : parser.table.Fits)

include fits

/-- A machine that is inside of no operand calls as the parser does, and is inside of none afterwards. -/
theorem call_eq {α : Type} (production : Production α) :
    call ⟨parser, 0⟩ production =
      some ((parser.call production).1, ⟨(parser.call production).2, 0⟩) := by
  have follows := production.reading_follows ⟨parser.table⟩ fits parser.cursor
  rw [Descent.FollowsAt, Descent.lift] at follows
  rw [call, Parser.call_eq]
  simp only [follows]
  cases production.parse parser.table parser.cursor <;> rfl

theorem form_eq (kind : FormKind) :
    form ⟨parser, 0⟩ kind = some ((parser.form kind).1, ⟨(parser.form kind).2, 0⟩) := by
  cases kind with
  | definition => rw [form, call_eq fits]; rfl
  | external => rw [form, call_eq fits]; rfl
  | expression => rw [form, call_eq fits]; rfl

theorem process_eq (kind : FormKind) : process ⟨parser, 0⟩ kind = some ⟨parser.process kind, 0⟩ := by
  have opened : OperatorTable.Fits { parser with delivery := parser.delivery.openRule kind }.table := fits
  simp only [process, form_eq opened]
  rfl

theorem step_eq (token : Token) : step ⟨parser, 0⟩ token = some ⟨parser.step token, 0⟩ := by
  by_cases separator : token = .char ';'
  · subst separator
    rfl
  · rw [Parser.step_of_ne separator, ← process_eq fits]
    cases token with
    | char symbol => simp [step, FormKind.announcedBy]
    | keyword word => cases word <;> rfl
    | _ => rfl

/-- The loop of a machine ends without a look at whether the cursor moves. -/
theorem run_eq (ready : parser.Ready) : run ⟨parser, 0⟩ = some ⟨parser.run, 0⟩ := by
  induction parser, ready using Parser.Ready.induct with
  | ended parser ready ended =>
    rw [Parser.run_of_ended ended, run]
    exact if_pos ended
  | step parser ready inside ih =>
    rw [ready.run_eq inside, run]
    simp only [if_neg inside, step_eq fits]
    exact ih (ready.fits_step fits _)

end Machine

/-! ## Sequences of calls -/

/-- What becomes of a machine for a source by calls in any order, whatever their outcomes. -/
inductive Machine.Reachable (table : OperatorTable) (source : String) : Machine → Prop
  | start : Reachable table source (.ofSource table source)
  | listen {machine : Machine} (before : Reachable table source machine) :
      Reachable table source machine.withListener
  | call {machine next : Machine} {α : Type} {production : Production α} {result : Except Error α}
      (before : Reachable table source machine) (called : machine.call production = some (result, next)) :
      Reachable table source next
  | process {machine next : Machine} {kind : FormKind} (before : Reachable table source machine)
      (processed : machine.process kind = some next) : Reachable table source next
  | run {machine next : Machine} (before : Reachable table source machine)
      (ran : machine.run = some next) : Reachable table source next

/-- Between two calls a machine is inside of no operand, and its parser is ready. -/
structure Machine.Rests (machine : Machine) : Prop where
  nesting : machine.nesting = 0
  ready : machine.parser.Ready
  fits : machine.parser.table.Fits

namespace Machine

theorem Reachable.rests {table : OperatorTable} {source : String} (fits : table.Fits) {machine : Machine}
    (reachable : Reachable table source machine) : machine.Rests := by
  induction reachable with
  | start => exact ⟨rfl, ⟨(Parser.ready_ofSource table source).spelled, rfl, rfl⟩, fits⟩
  | listen _ ih => exact ⟨ih.nesting, ⟨ih.ready.spelled, ih.ready.idle⟩, ih.fits⟩
  | @call machine _ _ production _ _ called ih =>
    obtain ⟨parser, nesting⟩ := machine
    obtain ⟨rfl, ready, fits⟩ := ih
    rw [call_eq fits] at called
    cases called
    exact ⟨rfl, ready.call production, ready.fits_call fits production⟩
  | @process machine _ kind _ processed ih =>
    obtain ⟨parser, nesting⟩ := machine
    obtain ⟨rfl, ready, fits⟩ := ih
    rw [process_eq fits] at processed
    cases processed
    exact ⟨rfl, ready.process_kind kind, ready.fits_process fits kind⟩
  | @run machine _ _ ran ih =>
    obtain ⟨parser, nesting⟩ := machine
    obtain ⟨rfl, ready, fits⟩ := ih
    rw [run_eq fits ready] at ran
    cases ran
    exact ⟨rfl, (ready.run fits).1, (ready.run fits).2⟩

end Machine

end OpLang

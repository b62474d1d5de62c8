import Mathlib.Data.List.Forall2
import OpLang.Proofs.Run

/-! # Runs side by side

Two parsers run in lockstep if they cannot be told apart by what a run looks at: their cursors by productions, their
tables where they stand by comparisons with precedences that are not negative, and their deliveries not at all. What
is kept by reading a form, by giving one up and by passing over a token is then kept by whole runs, and both runs
have the same steps.
-/

namespace OpLang

namespace Parser

/-- A relation of parsers that is kept by all that a step of a run may do, whatever the step is. -/
structure Lockstep (R : Cursor → Cursor → Prop) (S : Parser → Parser → Prop) : Prop where
  bisim : Cursor.Bisimulation R
  cursors {first second : Parser} (related : S first second) : R first.cursor second.cursor
  comparable {first second : Parser} (related : S first second) : first.table.Comparable R 0 second.table
  accept {first second : Parser} (related : S first second) (form : Form) {left right : Cursor}
    (stopped : R left right) : S (first.accept [form] left) (second.accept [form] right)
  recover {first second : Parser} (related : S first second) (fault : Error) {left right : Cursor}
    (stopped : R left right) :
    S (recover { first with cursor := left } fault) (recover { second with cursor := right } fault)
  skip {first second : Parser} (related : S first second) : S first.skip second.skip

namespace Lockstep

variable {R : Cursor → Cursor → Prop} {S : Parser → Parser → Prop} {first second : Parser}

theorem process (lockstep : Lockstep R S) (related : S first second) (idle : first.delivery.Idle)
    (idleToo : second.delivery.Idle) (kind : FormKind) : S (first.process kind) (second.process kind) := by
  have alike := Grammar.form_alike lockstep.bisim.parallel (lockstep.comparable related) kind
  have outcomes := alike _ _ (lockstep.cursors related)
  rw [process_eq idle, process_eq idleToo]
  generalize Grammar.form first.table kind first.cursor = one, Grammar.form second.table kind second.cursor = other
    at outcomes ⊢
  cases outcomes with
  | ok stopped => exact lockstep.accept related _ stopped
  | error stopped => exact lockstep.recover related _ stopped

theorem step (lockstep : Lockstep R S) (related : S first second) (idle : first.delivery.Idle)
    (idleToo : second.delivery.Idle) (token : Token) : S (first.step token) (second.step token) := by
  by_cases separator : token = .char ';'
  · subst separator
    exact lockstep.skip related
  · rw [step_of_ne separator, step_of_ne separator]
    exact lockstep.process related idle idleToo _

/-- Parsers in lockstep end their runs in lockstep. -/
theorem run (lockstep : Lockstep R S) (related : S first second) (ready : first.Ready) (readyToo : second.Ready) :
    S first.run second.run := by
  induction first, ready using Ready.induct generalizing second with
  | ended first ready ended =>
    have endedToo : second.cursor.current = .endOfInput :=
      (lockstep.bisim.current (lockstep.cursors related)).symm.trans ended
    rwa [run_of_ended ended, run_of_ended endedToo]
  | step first ready inside ih =>
    have here := lockstep.bisim.current (lockstep.cursors related)
    have insideToo : second.cursor.current ≠ .endOfInput := here ▸ inside
    have after := lockstep.step related ready.idle readyToo.idle first.cursor.current
    rw [ready.run_eq inside, readyToo.run_eq insideToo, ← here]
    exact ih after (here ▸ (readyToo.step insideToo).1)

end Lockstep

end Parser

/-! ## Sources side by side -/

/-- What makes runs on two sources the same but for the places of their diagnostics: cursors that `R` relates look
alike, tables that `T` relates compare alike and go on to do so with the same declarations, and diagnostics made at
related cursors are related by `D`. -/
structure Resemblance (R : Cursor → Cursor → Prop) (T : OperatorTable → OperatorTable → Prop)
    (D : Diagnostic → Diagnostic → Prop) : Prop where
  bisim : Cursor.Bisimulation R
  comparable {table other : OperatorTable} (related : T table other) : table.Comparable R 0 other
  record {table other : OperatorTable} (related : T table other) (forms : List Form) :
    T (table.record forms) (other.record forms)
  diagnosed {left right : Cursor} (related : R left right) (fault : Error) :
    D ⟨fault, left.place⟩ ⟨fault, right.place⟩

section Resemblance

variable {R : Cursor → Cursor → Prop} {T : OperatorTable → OperatorTable → Prop} {D : Diagnostic → Diagnostic → Prop}

/-- Malformed numbers in the same order lie before the tokens on which related cursors come to stand. -/
theorem Resemblance.advanceOver (resembles : Resemblance R T D) {left right : Cursor} (related : R left right) :
    List.Forall₂ D left.advanceOver.1 right.advanceOver.1 ∧ R left.advanceOver.2 right.advanceOver.2 := by
  induction left using Cursor.advanceOver_induct generalizing right with
  | @ok left next step =>
    have outcomes := resembles.bisim.advance left right related
    rw [step] at outcomes
    generalize stepToo : Cursor.advance right = other at outcomes
    cases outcomes with
    | ok after =>
      rw [Cursor.advanceOver_of_ok stepToo]
      exact ⟨.nil, after⟩
  | @error left stopped fault step ih =>
    have outcomes := resembles.bisim.advance left right related
    rw [step] at outcomes
    generalize stepToo : Cursor.advance right = other at outcomes
    cases outcomes with
    | error after =>
      obtain ⟨found, behind⟩ := ih after
      rw [(Cursor.advanceOver_of_error stepToo).1]
      exact ⟨.cons (resembles.diagnosed after fault) found, behind⟩

/-- Two parsers that have done the same so far and have the same before them. -/
structure Parser.Abreast (R : Cursor → Cursor → Prop) (T : OperatorTable → OperatorTable → Prop)
    (D : Diagnostic → Diagnostic → Prop) (first second : Parser) : Prop where
  cursors : R first.cursor second.cursor
  tables : T first.table second.table
  delivery : first.delivery = second.delivery
  diagnoses : List.Forall₂ D first.diagnostics second.diagnostics

namespace Resemblance

theorem skip (resembles : Resemblance R T D) {first second : Parser} (abreast : first.Abreast R T D second) :
    first.skip.Abreast R T D second.skip := by
  obtain ⟨found, behind⟩ := resembles.advanceOver abreast.cursors
  exact ⟨behind, abreast.tables, abreast.delivery, List.rel_append abreast.diagnoses found⟩

theorem lockstep (resembles : Resemblance R T D) : Parser.Lockstep R (Parser.Abreast R T D) where
  bisim := resembles.bisim
  cursors abreast := abreast.cursors
  comparable abreast := resembles.comparable abreast.tables
  accept abreast form _ _ stopped :=
    ⟨stopped, resembles.record abreast.tables [form], congrArg (Delivery.tell · [form]) abreast.delivery,
      abreast.diagnoses⟩
  recover abreast fault _ _ stopped :=
    resembles.skip ⟨stopped, abreast.tables, abreast.delivery,
      List.rel_append abreast.diagnoses (.cons (resembles.diagnosed stopped fault) .nil)⟩
  skip abreast := resembles.skip abreast

/-- Sources that look alike are parsed alike. -/
theorem parse (resembles : Resemblance R T D) {source other : String} {table otherTable : OperatorTable}
    (cursors : R (.ofSource source) (.ofSource other)) (tables : T table otherTable) :
    (parse table source).notifications = (parse otherTable other).notifications ∧
      List.Forall₂ D (parse table source).diagnostics (parse otherTable other).diagnostics ∧
      T (parse table source).table (parse otherTable other).table := by
  have start : Parser.Abreast R T D (.ofSource table source) (.ofSource otherTable other) :=
    resembles.skip ⟨cursors, tables, rfl, .nil⟩
  have listening : (Parser.ofSource table source).withListener.Abreast R T D
      (Parser.ofSource otherTable other).withListener :=
    ⟨start.cursors, start.tables, congrArg (Delivery.attach · ()) start.delivery, start.diagnoses⟩
  have ended := resembles.lockstep.run listening (Parser.ready_ofSource table source)
    (Parser.ready_ofSource otherTable other)
  exact ⟨congrArg (fun delivery => delivery.delivered.map Prod.snd) ended.delivery, ended.diagnoses, ended.tables⟩

end Resemblance

end Resemblance

end OpLang

import OpLang.Proofs.Run

/-! # What can be wrong with a source

Reading tokens has few ways to fail: a malformed number, a token that is wanted and does not stand there, a token
with which no expression starts, and what a prototype or the depth of an expression has against it. No invariant of
the library itself is ever found broken. In particular a chain that is read with a bound that is not negative never
takes a token for an operator that is none, and no rule is closed that is not open or is of another kind.
-/

namespace OpLang

/-- Whether an error is about the text of a source, and neither about the meaning of names nor about the library. -/
def Error.IsSyntactic : Error → Prop
  | .malformedNumber _ => True
  | .expected _ _ => True
  | .unknownToken _ => True
  | .invalidPrecedence _ => True
  | .operatorArity _ _ _ => True
  | .duplicateParameter _ _ => True
  | .nestingTooDeep _ => True
  | _ => False

theorem Error.IsGrammatical.isSyntactic {fault : Error} (isGrammatical : fault.IsGrammatical) : fault.IsSyntactic := by
  cases fault <;> trivial

/-- A production that fails with syntactic errors only. -/
def Syntactic {α : Type} (production : Parse α) : Prop :=
  ∀ cursor fault stopped, production cursor = .error fault stopped → fault.IsSyntactic

/-- A step fails at malformed numbers only. -/
theorem Syntactic.advance : Syntactic Cursor.advance := by
  intro cursor fault stopped failed
  obtain ⟨run, _, _, _, rfl, _⟩ := Cursor.advance_error failed
  trivial

/-- Productions are read with nothing but syntactic errors, whatever holds where they begin. -/
theorem Cursor.parallel_syntactic :
    Cursor.Parallel (fun left right => left = right ∧ True) fun fault _ _ => fault.IsSyntactic := by
  refine .ofKeeping (fun cursor _ => ?_) fun _ isGrammatical _ _ => isGrammatical.isSyntactic
  cases step : Cursor.advance cursor with
  | ok _ next => exact .ok trivial
  | error fault stopped => exact .error (Syntactic.advance cursor fault stopped step)

/-- No form fails for a fault of the library. -/
theorem Grammar.form_syntactic (table : OperatorTable) (kind : FormKind) : Syntactic (form table kind) := by
  intro cursor fault stopped failed
  have alike := form_alike Cursor.parallel_syntactic (.refl Cursor.parallel_syntactic 0 table) kind
  have outcome : Keeping (fun _ => True) (fun fault _ => fault.IsSyntactic) (form table kind cursor) :=
    alike.keeping trivial
  rw [failed] at outcome
  cases outcome with
  | error isSyntactic => exact isSyntactic

/-! ## Diagnostics of a run -/

/-- Stepping over malformed numbers diagnoses them and nothing else. -/
theorem Cursor.isSyntactic_of_advanceOver (cursor : Cursor) :
    ∀ diagnostic ∈ cursor.advanceOver.1, diagnostic.error.IsSyntactic := by
  induction cursor using advanceOver_induct with
  | ok => exact List.forall_mem_nil _
  | error step ih => exact List.forall_mem_cons.mpr ⟨Syntactic.advance _ _ _ step, ih⟩

namespace Parser

variable {parser : Parser}

/-- All that has been diagnosed is about the text of the source. -/
def Sound (parser : Parser) : Prop := ∀ diagnostic ∈ parser.diagnostics, diagnostic.error.IsSyntactic

theorem Sound.skip (sound : parser.Sound) : parser.skip.Sound :=
  List.forall_mem_append.mpr ⟨sound, Cursor.isSyntactic_of_advanceOver _⟩

theorem Sound.diagnose (sound : parser.Sound) {fault : Error} (isSyntactic : fault.IsSyntactic) :
    (parser.diagnose fault).Sound :=
  List.forall_mem_append.mpr ⟨sound, List.forall_mem_singleton.mpr isSyntactic⟩

theorem Sound.process (sound : parser.Sound) (idle : parser.delivery.Idle) (kind : FormKind) :
    (parser.process kind).Sound := by
  rw [process_eq idle]
  cases read : Grammar.form parser.table kind parser.cursor with
  | ok form last => exact sound
  | error fault last =>
    have isSyntactic := Grammar.form_syntactic parser.table kind _ _ _ read
    have stopped : Sound { parser with cursor := last } := sound
    exact (stopped.diagnose isSyntactic).skip

theorem Sound.step (sound : parser.Sound) (idle : parser.delivery.Idle) (token : Token) :
    (parser.step token).Sound := by
  by_cases separator : token = .char ';'
  · subst separator
    exact sound.skip
  · rw [step_of_ne separator]
    exact sound.process idle _

theorem Sound.run (sound : parser.Sound) (ready : parser.Ready) : parser.run.Sound := by
  induction parser, ready using Ready.induct with
  | ended parser ready ended =>
    rw [run_of_ended ended]
    exact sound
  | step parser ready inside ih =>
    rw [ready.run_eq inside]
    exact ih (sound.step ready.idle _)

theorem sound_ofSource (table : OperatorTable) (source : String) : (ofSource table source).Sound :=
  Cursor.isSyntactic_of_advanceOver _

end Parser

end OpLang

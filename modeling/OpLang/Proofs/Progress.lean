import OpLang.Proofs.Calls
import OpLang.Proofs.SyntaxErrors

/-! # Every run ends

A run looks at the current token, reads what starts there and looks again, until it stands at the end of the source.
A form may fail without a step, and a malformed number is passed over while the token before it stays current; yet
between two looks the run always gets on, since giving up a form steps past at least one token. So the loop ends by
itself, whatever the precedences are, and nothing in it is a fault of the library.
-/

namespace OpLang

namespace Parser

/-- The parsers whose cursor a run looks at, one after the other. -/
inductive Visits (start : Parser) : Parser → Prop
  | start : Visits start start
  | step {parser : Parser} (before : Visits start parser) (inside : parser.cursor.current ≠ .endOfInput) :
      Visits start (parser.step parser.cursor.current)

variable {start parser : Parser}

theorem Visits.ready (visited : start.Visits parser) (ready : start.Ready) : parser.Ready := by
  induction visited with
  | start => exact ready
  | step _ inside ih => exact (ih.step inside).1

theorem Visits.fits (visited : start.Visits parser) (ready : start.Ready) (fits : start.table.Fits) :
    parser.table.Fits := by
  induction visited with
  | start => exact fits
  | step before inside ih => exact (before.ready ready).fits_step ih _

theorem Ready.run_ended (ready : parser.Ready) : parser.run.cursor.current = .endOfInput := by
  induction parser, ready using Ready.induct with
  | ended parser ready ended => rwa [run_of_ended ended]
  | step parser ready inside ih => rwa [ready.run_eq inside]

/-- One step of a run reaches the end of the source or leaves fewer lexemes unread. -/
theorem Ready.length_unread_step (ready : parser.Ready) (inside : parser.cursor.current ≠ .endOfInput) :
    (parser.step parser.cursor.current).cursor.current = .endOfInput ∨
      (parser.step parser.cursor.current).cursor.unread.length < parser.cursor.unread.length := by
  have farther := (ready.step inside).2
  by_cases ended : (parser.step parser.cursor.current).cursor.current = .endOfInput
  · exact .inl ended
  · rw [Cursor.remaining, Cursor.remaining, if_neg inside, if_neg ended] at farther
    exact .inr (Nat.lt_of_add_lt_add_right farther)

end Parser

/-- A run ends at the end of the source, also as a loop that nothing stops and in which every precedence whose
successor is asked for has one among the numbers of 32 bits. Each of its steps reaches the end or leaves fewer
lexemes unread, and no diagnostic is an internal error. -/
theorem run_terminates {table : OperatorTable} {source : String} (fits : table.Fits) {start : Parser}
    (fresh : start = .ofSource table source ∨ start = (Parser.ofSource table source).withListener) :
    start.run.cursor.current = .endOfInput ∧
      Machine.run ⟨start, 0⟩ = some ⟨start.run, 0⟩ ∧
      (∀ parser, start.Visits parser → parser.cursor.current ≠ .endOfInput →
        ∃ next, Machine.step ⟨parser, 0⟩ parser.cursor.current = some ⟨next, 0⟩ ∧
          parser.step parser.cursor.current = next ∧
          (next.cursor.current = .endOfInput ∨ next.cursor.unread.length < parser.cursor.unread.length)) ∧
      ∀ diagnostic ∈ start.run.diagnostics, ∀ fault, diagnostic.error ≠ .internal fault := by
  have ready : start.Ready := by
    have listening := Parser.ready_ofSource table source
    rcases fresh with rfl | rfl
    · exact ⟨listening.spelled, rfl, rfl⟩
    · exact listening
  have sound : start.Sound := by
    rcases fresh with rfl | rfl
    · exact Parser.sound_ofSource table source
    · exact Parser.sound_ofSource table source
  have fits : start.table.Fits := by
    rcases fresh with rfl | rfl
    · exact fits
    · exact fits
  refine ⟨ready.run_ended, Machine.run_eq fits ready, ?_, ?_⟩
  · intro parser visited inside
    have readyThere := visited.ready ready
    exact ⟨_, Machine.step_eq (visited.fits ready fits) _, rfl, readyThere.length_unread_step inside⟩
  · intro diagnostic member fault internal
    have isSyntactic := sound.run ready diagnostic member
    rw [internal] at isSyntactic
    exact isSyntactic

/-- The first operator is asked for a successor of its precedence, which is the greatest there is; the operators of
that precedence are asked for none, the operator of negative precedence is none, and the malformed number and the
missing operand are diagnosed. -/
theorem run_terminates_extreme :
    OperatorTable.Fits ⟨[('+', 2147483647), ('*', 2147483646), ('-', -2147483648)]⟩ ∧
      ∃ parser : Parser, parser = .ofSource ⟨[('+', 2147483647), ('*', 2147483646), ('-', -2147483648)]⟩
          "1 * 2 + 3 + 4 - 5 6..7 )" ∧
        Machine.run ⟨parser, 0⟩ = some ⟨parser.run, 0⟩ ∧
        parser.run.diagnostics.map Diagnostic.error = [.malformedNumber "6..7", .unknownToken "end of input"] := by
  have fits : OperatorTable.Fits ⟨[('+', 2147483647), ('*', 2147483646), ('-', -2147483648)]⟩ := by
    unfold OperatorTable.Fits
    decide
  exact ⟨fits, _, rfl, (run_terminates fits (.inl rfl)).2.1, by decide +kernel⟩

end OpLang

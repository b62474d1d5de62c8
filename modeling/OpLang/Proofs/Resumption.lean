import OpLang.Proofs.OperatorRecord
import OpLang.Proofs.Relocation

/-! # Sources read in parts

A source that gives no diagnostics can be read first and the rest afterwards: the end of input and a
semicolon say the same to whatever comes before them, unless the semicolon is an operator. What remains is
the rest of the source farther down, read by a parser that has been busy before. Neither is visible to the
parser, which never looks at places nor at what it has handed out.
-/

namespace OpLang

/-! ## Farther down -/

/-- The same diagnostic so many lines farther down. -/
def Diagnostic.below (lines : Nat) (diagnostic : Diagnostic) : Diagnostic :=
  ⟨diagnostic.error, diagnostic.place.below lines⟩

namespace Cursor

/-- The same cursor so many lines farther down. -/
def below (lines : Nat) (cursor : Cursor) : Cursor :=
  ⟨cursor.current, cursor.place.below lines, cursor.unread.map (.below lines), cursor.finish.below lines⟩

end Cursor

namespace Parser

/-- The same parser so many lines farther down, whose listener had been told something before. -/
def behind (lines : Nat) (told : List (Unit × Notification)) (parser : Parser) : Parser where
  cursor := parser.cursor.below lines
  table := parser.table
  delivery := { parser.delivery with delivered := told ++ parser.delivery.delivered }
  diagnostics := parser.diagnostics.map (.below lines)

/-- Lines farther down is one way of being in another place. -/
theorem behind_eq_relocate (parser : Parser) (lines : Nat) (told : List (Unit × Notification)) :
    parser.behind lines told = parser.relocate (.below lines) told [] := rfl

variable {parser : Parser}

/-- A parser that has been busy before goes on as one that has not. -/
theorem run_behind (ready : parser.Ready) (lines : Nat) (told : List (Unit × Notification)) :
    (parser.behind lines told).run = parser.run.behind lines told := by
  rw [behind_eq_relocate, behind_eq_relocate, run_relocate ready]

/-- A parser in front of a source that lies farther down is a parser of that source. -/
theorem skip_eq_ofSource {source : String} {lines : Nat} {told : List (Unit × Notification)}
    (unread : parser.cursor.unread = (lexemes source).map (.below lines))
    (finish : parser.cursor.finish = (finalPlace source).below lines)
    (delivery : parser.delivery = { listener := some (), delivered := told })
    (clean : parser.diagnostics = []) :
    parser.skip = (ofSource parser.table source).withListener.behind lines told := by
  have atEnd : parser.cursor.finish = (Cursor.ofSource source).finish.below lines := finish
  have found : Cursor.advanceOver.go parser.cursor ((lexemes source).map (.below lines)) = _ :=
    Cursor.go_advanceOver_relocate atEnd (lexemes source)
  rw [behind_eq_relocate]
  simp only [skip, ofSource, withListener, relocate, Delivery.attach, Cursor.advanceOver, Cursor.ofSource, unread,
    delivery, clean, List.nil_append, List.append_nil] at found ⊢
  rw [found]

end Parser

/-! ## The end of the first part -/

namespace Phrase

/-- What the forms of a program declare has a precedence that is not negative. -/
theorem Program.operator?_bounds {table : OperatorTable} {tokens : List Token} {forms : List Form}
    {next : Token} (program : Program table tokens forms next) :
    ∀ entry ∈ forms.filterMap Form.operator?, minPrecedence ≤ entry.2 := by
  induction program with
  | nil => exact List.forall_mem_nil _
  | separator _ ih => exact ih
  | form first _ ih =>
    intro entry member
    obtain ⟨form, inside, declared⟩ := List.mem_filterMap.mp member
    rcases List.mem_cons.mp inside with rfl | later
    · exact (first.operator?_bounds declared).1
    · exact ih entry (List.mem_filterMap.mpr ⟨form, later, declared⟩)

/-- What ends expressions after a program ended them before it, since no operator is withdrawn. -/
theorem Program.ends {table : OperatorTable} {tokens : List Token} {forms : List Form} {next other : Token}
    (program : Program table tokens forms next) (ends : Ends (table.record forms) other) : Ends table other where
  noOperator precedence isInfix := by
    obtain ⟨later, stillInfix⟩ := isInfix.declareAll program.operator?_bounds
    exact ends.noOperator later stillInfix
  noCall := ends.noCall

/-- A program may stand before any token that ends expressions after it. -/
theorem Program.before {table : OperatorTable} {tokens : List Token} {forms : List Form}
    {next other : Token} (program : Program table tokens forms next)
    (ends : Ends (table.record forms) other) :
    Program table tokens forms other := by
  have endsBefore := program.ends ends
  induction program with
  | nil => exact .nil
  | separator rest ih => exact .separator (ih ends endsBefore)
  | @form table _ _ form forms _ first rest ih =>
    -- only a form with nothing behind it sees the token, and it was read before its own operator was declared
    rw [← List.singleton_append, OperatorTable.record_append] at ends
    exact .form (Free.headD (OfForm.free table) first endsBefore) (ih ends (rest.ends ends))

end Phrase

/-- The first of two sources is crossed as if it stood alone, with the semicolon in the place of the end. -/
theorem crosses_separated {first : String} {tokens : List Token} (second : String)
    (lexed : (lexemes first).map Lexeme.item = tokens.map .token) :
    ∃ start last, Cursor.advance (.ofSource (first ++ "\n;\n" ++ second)) = .ok () start ∧
      Cursor.Crosses start tokens last ∧ last.current = .char ';' ∧
      last.unread = (lexemes second).map (.below (linesBefore first)) ∧
      last.finish = (finalPlace second).below (linesBefore first) := by
  obtain ⟨place, whole⟩ := lexemes_separated first second
  have finish := finalPlace_separated first second
  generalize first ++ "\n;\n" ++ second = source at whole finish ⊢
  have crossed : Cursor.Crosses (.ofSource source) (.endOfInput :: tokens)
      ⟨.char ';', place, (lexemes second).map (.below (linesBefore first)), finalPlace source⟩ :=
    Cursor.crosses_unread lexed whole fun _ _ => rfl
  obtain ⟨_, start, step, crossed⟩ := Cursor.Crosses.cons_iff.mp crossed
  exact ⟨start, _, step, crossed, rfl, rfl, finish⟩

/-- Reading two sources with a line with a semicolon between them is reading one after the other, if the
first gives no diagnostics and does not make the semicolon an operator: the same forms are handed out, the
same table is left behind, and the diagnostics are those of the second source, farther down. -/
theorem parse_separated (table : OperatorTable) (first second : String)
    (clean : (parse table first).diagnostics = [])
    (noOperator : (parse table first).table.precedence (.char ';') < 0) :
    parse table (first ++ "\n;\n" ++ second) =
      ⟨(parse table first).notifications ++ (parse (parse table first).table second).notifications,
        (parse (parse table first).table second).diagnostics.map (.below (linesBefore first)),
        (parse (parse table first).table second).table⟩ := by
  obtain ⟨tokens, forms, lexed, program, outcome⟩ := program_of_parse clean
  rw [outcome] at noOperator ⊢
  have ends : Phrase.Ends (table.record forms) (.char ';') :=
    ⟨OperatorTable.forall_not_infix_iff.mpr noOperator, by decide⟩
  obtain ⟨start, last, step, crossed, separator, unread, finish⟩ := crosses_separated second lexed
  generalize first ++ "\n;\n" ++ second = source at step ⊢
  have ready := Parser.ready_ofSource table source
  rw [Parser.ofSource_eq table step] at ready
  have run := Parser.run_of_program (program.before ends) ready rfl crossed separator
  have readyThere := ready.accept forms (crossed.spelled ready.spelled)
  have inside : last.current ≠ .endOfInput := separator ▸ Token.noConfusion
  -- behind the semicolon stands a parser for the second part
  have resumed : (Parser.accept (Parser.withListener { cursor := start, table := table }) forms last).step
      last.current = (Parser.ofSource (table.record forms) second).withListener.behind (linesBefore first)
        ((forms.flatMap Notification.ofForm).map fun notification => ((), notification)) := by
    rw [separator]
    exact Parser.skip_eq_ofSource unread finish rfl rfl
  have readySecond := Parser.ready_ofSource (table.record forms) second
  have runs := run.trans ((readyThere.run_eq inside).trans (congrArg Parser.run resumed))
  rw [Parser.run_behind readySecond, ← Parser.ofSource_eq table step] at runs
  simp only [parse, runs, Outcome.ofForms, Parser.notifications, Parser.behind, List.map_append, List.map_map]
  simp [Function.comp_def]

/-- The comment at the end of the first source does not reach into the second one, which uses the operator that
the first one declares; the error of the second source is reported three lines farther down. -/
theorem parse_separated_or :
    (parse .standard "def binary | 5 (a b) a # or\n").diagnostics = [] ∧
      (parse .standard "def binary | 5 (a b) a # or\n").table.precedence (.char ';') < 0 ∧
      (parse .standard ("def binary | 5 (a b) a # or\n" ++ "\n;\n" ++ "1 | 2 then")).diagnostics =
        (parse (parse .standard "def binary | 5 (a b) a # or\n").table "1 | 2 then").diagnostics.map
          (.below 3) := by
  have clean : (parse .standard "def binary | 5 (a b) a # or\n").diagnostics = [] := by decide +kernel
  have noOperator : (parse .standard "def binary | 5 (a b) a # or\n").table.precedence (.char ';') < 0 := by
    decide +kernel
  exact ⟨clean, noOperator, congrArg Outcome.diagnostics (parse_separated _ _ "1 | 2 then" clean noOperator)⟩

end OpLang

import OpLang.Proofs.Layout
import OpLang.Proofs.Lockstep

/-! # Sources in other places

A parser never looks at places, nor at what it has handed out or diagnosed before. So the same text read in another
place, by a parser that has been busy before, is read in the same way: the same forms are handed out and the same
table is left behind, and only the places of the diagnostics tell the difference.
-/

namespace OpLang

/-- The same item found in another place. -/
def Lexeme.relocate (move : Position → Position) (lexeme : Lexeme) : Lexeme := ⟨lexeme.item, move lexeme.place⟩

/-- The same diagnostic in another place. -/
def Diagnostic.relocate (move : Position → Position) (diagnostic : Diagnostic) : Diagnostic :=
  ⟨diagnostic.error, move diagnostic.place⟩

namespace Cursor

/-- The same cursor with all places moved. -/
def relocate (move : Position → Position) (cursor : Cursor) : Cursor :=
  ⟨cursor.current, move cursor.place, cursor.unread.map (.relocate move), move cursor.finish⟩

variable (move : Position → Position)

theorem Bisimulation.relocate : Bisimulation fun first second => second = first.relocate move where
  current related := related ▸ rfl
  remaining := by
    rintro first _ rfl
    simp only [Cursor.remaining, Cursor.relocate, List.length_map]
    rfl
  advance := by
    rintro ⟨current, place, unread, finish⟩ _ rfl
    cases unread with
    | nil => exact .ok rfl
    | cons lexeme later =>
      obtain ⟨token | run, found⟩ := lexeme
      · exact .ok rfl
      · exact .error rfl

variable {move}

theorem go_advanceOver_relocate {first second : Cursor} (finish : second.finish = move first.finish)
    (unread : List Lexeme) :
    advanceOver.go second (unread.map (.relocate move)) =
      ((advanceOver.go first unread).1.map (.relocate move), (advanceOver.go first unread).2.relocate move) := by
  induction unread with
  | nil => simp only [List.map_nil, advanceOver.go, relocate, finish]
  | cons lexeme later ih =>
    obtain ⟨token | run, place⟩ := lexeme
    · simp only [List.map_cons, Lexeme.relocate, advanceOver.go, relocate, finish, List.map_nil]
    · simp only [List.map_cons, Lexeme.relocate, advanceOver.go, ih, Diagnostic.relocate]

theorem Spelled.relocate {cursor : Cursor} (spelled : cursor.Spelled) (move : Position → Position) :
    (cursor.relocate move).Spelled where
  current := spelled.current.imp_left fun ⟨ended, nothing⟩ => ⟨ended, congrArg (List.map _) nothing⟩
  unread := by
    intro lexeme member token isToken
    obtain ⟨before, inside, rfl⟩ := List.mem_map.mp member
    exact spelled.unread before inside token isToken

end Cursor

namespace Parser

/-- The same parser with all places moved, that had told its listener something before and made diagnostics. -/
def relocate (move : Position → Position) (told : List (Unit × Notification)) (noted : List Diagnostic)
    (parser : Parser) : Parser where
  cursor := parser.cursor.relocate move
  table := parser.table
  delivery := { parser.delivery with delivered := told ++ parser.delivery.delivered }
  diagnostics := noted ++ parser.diagnostics.map (.relocate move)

variable {parser : Parser} {move : Position → Position} {told : List (Unit × Notification)}
  {noted : List Diagnostic}

theorem Ready.relocate (ready : parser.Ready) : (parser.relocate move told noted).Ready :=
  ⟨ready.spelled.relocate move, ready.idle⟩

theorem skip_relocate (parser : Parser) :
    (parser.relocate move told noted).skip = parser.skip.relocate move told noted := by
  have finish : (parser.cursor.relocate move).finish = move parser.cursor.finish := rfl
  have found := Cursor.go_advanceOver_relocate finish parser.cursor.unread
  simp only [skip, relocate, Cursor.advanceOver, Cursor.relocate, List.map_append, List.append_assoc] at found ⊢
  rw [found]

theorem recover_relocate (parser : Parser) (fault : Error) :
    (parser.relocate move told noted).recover fault = (parser.recover fault).relocate move told noted := by
  have diagnosed : (parser.relocate move told noted).diagnose fault =
      (parser.diagnose fault).relocate move told noted := by
    simp only [diagnose, relocate, List.map_append, List.append_assoc]
    rfl
  simp only [recover, diagnosed, skip_relocate]

theorem accept_relocate (parser : Parser) (forms : List Form) (last : Cursor) :
    (parser.relocate move told noted).accept forms (last.relocate move) =
      (parser.accept forms last).relocate move told noted := by
  obtain ⟨cursor, table, ⟨openRules, pending, listener, delivered⟩, diagnostics⟩ := parser
  cases listener with
  | none => rfl
  | some listener => simp only [accept, relocate, Delivery.tell, List.append_assoc]

/-- A parser in another place, that has been busy before, goes in lockstep with one that has not. -/
theorem lockstep_relocate : Lockstep (fun left right => right = left.relocate move)
    fun first second => second = first.relocate move told noted where
  bisim := .relocate move
  cursors := by
    rintro first _ rfl
    rfl
  comparable := by
    rintro first _ rfl
    exact (Cursor.Bisimulation.relocate move).comparable 0 first.table
  accept := by
    rintro first _ rfl form left _ rfl
    exact accept_relocate first [form] left
  recover := by
    rintro first _ rfl fault left _ rfl
    exact recover_relocate { first with cursor := left } fault
  skip := by
    rintro first _ rfl
    exact skip_relocate first

/-- A parser that has been busy before, in another place, goes on as one that has not. -/
theorem run_relocate (ready : parser.Ready) :
    (parser.relocate move told noted).run = parser.run.relocate move told noted :=
  lockstep_relocate.run rfl ready ready.relocate

end Parser

end OpLang

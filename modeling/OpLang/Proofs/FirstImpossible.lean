import OpLang.Proofs.Descent
import OpLang.Proofs.DiagnosticOrder
import OpLang.Proofs.RoundTrip
import OpLang.Proofs.Viable

/-! # The first impossible token

All productions of expressions are viable, if neither the closing parenthesis nor the comma is an infix operator: then
these end expressions as the words of the language do.
-/

namespace OpLang

namespace Grammar

open Cursor Phrase

/-- A token that is an expression by itself. -/
def numeral : Token := .number (Decimal.toBinary64 ⟨0, 0⟩)

theorem spelled_numeral : numeral.Spelled := ⟨['0'], rfl⟩

theorem primary_numeral {table : OperatorTable} (operand : Parse Expr) (next : Token) :
    Over (primary table operand) [numeral] next (.ok (.number (Decimal.toBinary64 ⟨0, 0⟩))) :=
  .peek ((Over.advance numeral).bind (.pure _))

theorem prefixed_numeral {table : OperatorTable} (operand : Parse Expr) (next : Token) :
    Over (prefixed table operand) [numeral] next (.ok (.number (Decimal.toBinary64 ⟨0, 0⟩))) :=
  .peek (primary_numeral operand next)

theorem starts_numeral {closing : Token → Prop} {unlimited : Nat → Parse Expr}
    (reads : ∀ more next, Over (unlimited more) [numeral] next (.ok (.number (Decimal.toBinary64 ⟨0, 0⟩)))) :
    Starts (· = numeral) closing unlimited :=
  ⟨[numeral], _, List.forall_mem_singleton.mpr spelled_numeral, fun next _ more => reads more next, fun _ _ => rfl⟩

theorem spelled_punctuation : ∀ symbol ∈ ['(', ')', ',', '='], (Token.char symbol).Spelled := by
  intro symbol member
  simp only [List.mem_cons, List.not_mem_nil, or_false] at member
  rcases member with rfl | rfl | rfl | rfl <;> exact ⟨_, rfl, by decide, by decide, by decide, by decide⟩

theorem spelled_keyword (word : Keyword) : (Token.keyword word).Spelled := ⟨_, rfl⟩

section Productions

variable {table : OperatorTable} {levels : Nat}
  (guided : Guided (· = numeral) (Ends table) (operandWithin table levels)
    fun more => operandWithin table (more + 1 + levels))

include guided

theorem link?_viable (cursor : Cursor) :
    Viable (Ends table) (Ends table) (link? table (operandWithin table levels) 0)
      (fun more => link? table (operandWithin table (more + 1 + levels)) 0) cursor := by
  have stops {operand : Parse Expr} {next : Token} (below : table.precedence next < 0) :
      Over (link? table operand 0) [] next (.ok none) := by
    rintro other last crossed rfl
    obtain rfl := Crosses.nil_iff.mp crossed
    exact link?_of_lt below
  by_cases below : table.precedence cursor.current < 0
  · refine .success (.nil cursor) List.not_mem_nil (stops below) (fun _ => stops below) (fun next ends _ => ?_)
      fun _ _ ends => ends
    exact stops (OperatorTable.forall_not_infix_iff.mp ends.noOperator)
  · obtain ⟨symbol, here, _⟩ := OperatorTable.infix_iff.mpr ⟨rfl, Int.not_lt.mp below⟩
    have rest : Guided (· = numeral) (Ends table)
        (do return some ⟨symbol, table.precedence cursor.current, ← operandWithin table levels⟩ :
          Parse (Option Link))
        fun more => do
          return some ⟨symbol, table.precedence cursor.current, ← operandWithin table (more + 1 + levels)⟩ :=
      guided.bind fun _ => .pure _ _
    refine rest.opened.chosen (here ▸ Token.noConfusion) ?_ fun more => ?_
    · rw [if_neg below, here]
    · rw [if_neg below, here]

/-- A numeral begins what completes an expression, and tokens that end expressions close it. -/
theorem expression_guided : Guided (· = numeral) (Ends table) (expression table (operandWithin table levels))
    fun more => expression table (operandWithin table (more + 1 + levels)) := by
  have progress (levels : Nat) (cursor : Cursor) (link : Link) (last : Cursor)
      (read : link? table (operandWithin table levels) 0 cursor = .ok (some link) last) :
      last.remaining < cursor.remaining := (link?_some (forward_operand table levels) read).2.2
  have stops : Completes (Ends table)
      (fun more => link? table (operandWithin table (more + 1 + levels)) 0) [] none := by
    rintro next ends more other last crossed rfl
    obtain rfl := Crosses.nil_iff.mp crossed
    exact link?_of_lt (OperatorTable.forall_not_infix_iff.mp ends.noOperator)
  refine guided.bind fun first => ?_
  exact (many_guided (link?_viable guided) stops (progress levels) fun more => progress (more + 1 + levels)).bind
    fun links => .pure _ _

/-- Before a token that ends expressions an expression is complete. -/
theorem expression_before_guided {token : Token} (ends : Ends table token) : Guided (· = numeral) (· = token)
    (expression table (operandWithin table levels))
    fun more => expression table (operandWithin table (more + 1 + levels)) := by
  refine (expression_guided guided).mono (fun _ member => member) ?_
  rintro _ rfl
  exact ends

theorem step?_guided : Guided (· = .keyword .inWord) (· = .keyword .inWord)
    (step? table (operandWithin table levels))
    fun more => step? table (operandWithin table (more + 1 + levels)) :=
  announced_guided Token.noConfusion Token.noConfusion none
    ((expression_before_guided guided (.ofKeyword .inWord)).bind fun _ => .pure _ _)

theorem binding_guided : Guided (fun _ => True) (· = .keyword .inWord)
    (binding table (operandWithin table levels))
    fun more => binding table (operandWithin table (more + 1 + levels)) := by
  refine (identifier_guided _).bind fun name => ?_
  exact (announced_guided Token.noConfusion Token.noConfusion (name, none)
    ((expression_before_guided guided (.ofKeyword .inWord)).bind fun _ => .pure _ _)).anywhere

theorem nextBinding_guided : Guided (· = .keyword .inWord) (· = .keyword .inWord)
    (nextBinding table (operandWithin table levels))
    fun more => nextBinding table (operandWithin table (more + 1 + levels)) :=
  announced_guided Token.noConfusion Token.noConfusion none ((binding_guided guided).bind fun _ => .pure _ _)

/-! ### Calls -/

section Calls

variable (closeEnds : Ends table (.char ')'))

include closeEnds

omit guided closeEnds in
theorem nextArgument_stops : Completes (· = .char ')')
    (fun more => nextArgument table (operandWithin table (more + 1 + levels))) [] none := by
  rintro _ rfl more
  exact .peek (.pure none)

theorem nextArgument_viable (cursor : Cursor) :
    Viable (· = .char ')') (· = .char ')') (nextArgument table (operandWithin table levels))
      (fun more => nextArgument table (operandWithin table (more + 1 + levels))) cursor := by
  by_cases close : cursor.current = .char ')'
  · exact ((Guided.pure (· = .char ')') none).viable cursor).chosen (if_pos close) (fun _ => if_pos close)
      fun _ same _ => if_pos same
  by_cases comma : cursor.current = .char ','
  · have another : Viable (fun _ => False) (· = .char ')')
        (do
          if (← peek) = .char ',' then
            Cursor.advance
            return some (← expression table (operandWithin table levels))
          unexpected "')' or ',' in argument list" : Parse (Option Expr))
        (fun more => do
          if (← peek) = .char ',' then
            Cursor.advance
            return some (← expression table (operandWithin table (more + 1 + levels)))
          unexpected "')' or ',' in argument list") cursor :=
      ((expression_before_guided guided closeEnds).bind fun _ => .pure _ _).opened.chosen
        (comma ▸ Token.noConfusion) (if_pos comma) fun _ => if_pos comma
    exact (another.chosen (if_neg close) (fun _ => if_neg close) fun _ => False.elim).widen fun _ => False.elim
  · refine .refuse (.expected "')' or ',' in argument list" cursor.current.describe) ?_ rfl
      ⟨[], none, List.forall_mem_nil _, nextArgument_stops, fun _ member => member⟩
    intro other same
    rw [nextArgument, peek_bind, same, if_neg close, peek_bind, same, if_neg comma, unexpected, peek_bind, same]
    rfl

theorem arguments_guided : Guided (fun _ => True) (· = .char ')') (arguments table (operandWithin table levels))
    fun more => arguments table (operandWithin table (more + 1 + levels)) := by
  have list := many_guided (nextArgument_viable guided closeEnds) nextArgument_stops
    (nextArgument_progress table levels) fun more => nextArgument_progress table (more + 1 + levels)
  have some : Guided (· = numeral) (· = .char ')')
      (do
        let first ← expression table (operandWithin table levels)
        return first :: (← many (fun _ => nextArgument table (operandWithin table levels)) []))
      fun more => do
        let first ← expression table (operandWithin table (more + 1 + levels))
        return first :: (← many (fun _ => nextArgument table (operandWithin table (more + 1 + levels))) []) :=
    (expression_before_guided guided closeEnds).bind fun first => list.bind fun others => .pure _ _
  refine ⟨fun cursor => ?_, [], [], List.forall_mem_nil _, ?_, fun _ _ => trivial⟩
  · by_cases close : cursor.current = .char ')'
    · refine Viable.widen (?_ : Viable (· = .char ')') _ _ _ _) fun _ _ => trivial
      exact ((Guided.pure (· = .char ')') []).viable cursor).chosen (if_pos close) (fun _ => if_pos close)
        fun _ same _ => if_pos same
    · refine Viable.widen (?_ : Viable (· = numeral) _ _ _ _) fun _ _ => trivial
      refine (some.viable cursor).chosen (if_neg close) (fun _ => if_neg close) ?_
      rintro _ rfl more
      exact if_neg Token.noConfusion
  · rintro _ rfl more
    exact .peek (.pure [])

/-- Arguments leave the cursor at the closing parenthesis, which is then passed over unseen. -/
theorem call_guided (name : String) : Guided (fun _ => True) (Ends table)
    (do
      let args ← arguments table (operandWithin table levels)
      Cursor.advance
      return Expr.call name args : Parse Expr)
    fun more => (do
      let args ← arguments table (operandWithin table (more + 1 + levels))
      Cursor.advance
      return Expr.call name args : Parse Expr) := by
  have list := arguments_guided guided closeEnds
  have passes (args : List Expr) : Starts (· = .char ')') (Ends table)
      fun _ : Nat => (do Cursor.advance; return .call name args : Parse Expr) := by
    refine ⟨[.char ')'], .call name args, ?_, fun next _ _ => ?_, fun _ _ => rfl⟩
    · exact List.forall_mem_singleton.mpr (spelled_punctuation ')' (by decide))
    · exact (Over.advance _).bind (.pure _)
  refine ⟨fun cursor => ?_, list.starts.bind passes⟩
  refine (list.viable cursor).bind (fun args last read => ?_) passes
  obtain ⟨_, _, phrase⟩ := (arguments_exact table (operandWithin_exact table levels) _ _ _).mp read
  have close : last.current = .char ')' := phrase.next_eq
  exact (Viable.advance (close ▸ Token.noConfusion)).bind
    (fun _ after _ => (Guided.pure (Ends table) _).viable after) fun _ => (Guided.pure (Ends table) _).starts

theorem nameOrCall_opened (name : String) :
    Opened (Ends table) (nameOrCall table (operandWithin table levels) name)
      fun more => nameOrCall table (operandWithin table (more + 1 + levels)) name := by
  refine Guided.opened (?_ : Guided (Ends table) _ _ _)
  exact announced_guided Token.noConfusion (fun ends => ends.noCall rfl) (.var name)
    (call_guided guided closeEnds name)

theorem parenthesized_opened :
    Opened (Ends table) (parenthesized table (operandWithin table levels))
      fun more => parenthesized table (operandWithin table (more + 1 + levels)) := by
  refine Guided.opened ((expression_before_guided guided closeEnds).bind fun inner => ?_)
  exact (expect_guided (spelled_punctuation ')' (by decide)) _).bind fun _ => (Guided.pure (Ends table) inner).anywhere

end Calls

/-! ### Headers -/

/-- An expression goes on up to a token that has to stand behind it. -/
theorem expression_expect_guided {closing : Token → Prop} {rest : Expr → Parse Expr}
    {unlimited : Nat → Expr → Parse Expr} {token : Token} (wanted : String) (spelled : token.Spelled)
    (ends : Ends table token)
    (continued : ∀ expr, Guided (fun _ => True) closing (rest expr) fun more => unlimited more expr) :
    Guided (fun _ => True) closing
      (do
        let expr ← expression table (operandWithin table levels)
        expect token wanted
        rest expr : Parse Expr)
      (fun more => do
        let expr ← expression table (operandWithin table (more + 1 + levels))
        expect token wanted
        unlimited more expr) :=
  ((expression_before_guided guided ends).bind fun expr =>
    (expect_guided spelled wanted).bind fun _ => continued expr).anywhere

/-- The body of a construct is its last part. -/
theorem body_guided (wrap : Expr → Expr) : Guided (fun _ => True) (Ends table)
    (do return wrap (← expression table (operandWithin table levels)))
    (fun more => do return wrap (← expression table (operandWithin table (more + 1 + levels)))) :=
  ((expression_guided guided).bind fun expr => .pure _ (wrap expr)).anywhere

theorem ifElse_opened : Opened (Ends table) (ifElse table (operandWithin table levels))
    fun more => ifElse table (operandWithin table (more + 1 + levels)) := by
  refine Guided.opened (expression_expect_guided guided _ (spelled_keyword _) (.ofKeyword _) fun condition => ?_)
  refine expression_expect_guided guided _ (spelled_keyword _) (.ofKeyword _) fun thenBranch => ?_
  exact body_guided guided (.ifElse condition thenBranch)

theorem forIn_opened (commaEnds : Ends table (.char ',')) :
    Opened (Ends table) (forIn table (operandWithin table levels))
      fun more => forIn table (operandWithin table (more + 1 + levels)) := by
  refine Guided.opened ((identifier_guided _).bind fun name => ?_)
  refine ((expect_guided (spelled_punctuation '=' (by decide)) _).bind fun _ => ?_).anywhere
  refine expression_expect_guided guided _ (spelled_punctuation ',' (by decide)) commaEnds fun start => ?_
  refine ((expression_before_guided guided (.ofKeyword .inWord)).bind fun finish => ?_).anywhere
  refine (step?_guided guided).bind fun step => ?_
  exact (expect_guided (spelled_keyword .inWord) _).bind fun _ => body_guided guided (.forIn name start finish step)

theorem varIn_opened : Opened (Ends table) (varIn table (operandWithin table levels))
    fun more => varIn table (operandWithin table (more + 1 + levels)) := by
  have stops : Completes (· = .keyword .inWord)
      (fun more => nextBinding table (operandWithin table (more + 1 + levels))) [] none := by
    rintro _ rfl more
    exact .peek (.pure none)
  have list := many_guided (nextBinding_guided guided).viable stops (nextBinding_progress table levels)
    fun more => nextBinding_progress table (more + 1 + levels)
  refine Guided.opened ((binding_guided guided).bind fun first => list.bind fun others => ?_)
  exact (expect_guided (spelled_keyword .inWord) _).bind fun _ => body_guided guided (.varIn (first :: others))

/-! ### Operands -/

omit guided in
theorem number_opened (value : Binary64) :
    Opened (Ends table) (do Cursor.advance; return .number value : Parse Expr)
      fun _ => do Cursor.advance; return .number value :=
  (Guided.pure (Ends table) (Expr.number value)).opened

/-- A token that begins no primary is refused there, where a numeral would do. -/
theorem primary_guided (closeEnds : Ends table (.char ')')) (commaEnds : Ends table (.char ',')) :
    Guided (· = numeral) (Ends table) (primary table (operandWithin table levels))
      fun more => primary table (operandWithin table (more + 1 + levels)) := by
  have starts : Starts (· = numeral) (Ends table)
      fun more => primary table (operandWithin table (more + 1 + levels)) :=
    starts_numeral fun _ => primary_numeral _
  refine ⟨fun cursor => ?_, starts⟩
  have refused (failure : ∀ other : Cursor, other.current = cursor.current →
      primary table (operandWithin table levels) other = .error (.unknownToken cursor.current.describe) other) :
      Viable (· = numeral) (Ends table) (primary table (operandWithin table levels))
        (fun more => primary table (operandWithin table (more + 1 + levels))) cursor :=
    .refuse _ failure rfl starts
  cases here : cursor.current with
  | ident name =>
    exact (nameOrCall_opened guided closeEnds name).chosen (here ▸ Token.noConfusion) (by rw [here])
      fun _ => by rw [here]
  | number value =>
    exact (number_opened value).chosen (here ▸ Token.noConfusion) (by rw [here]) fun _ => by rw [here]
  | char symbol =>
    by_cases parenthesis : symbol = '('
    · subst parenthesis
      exact (parenthesized_opened guided closeEnds).chosen (here ▸ Token.noConfusion) (by rw [here]; rfl)
        fun _ => by rw [here]; rfl
    · refine refused fun other same => ?_
      have refusal : primary table (operandWithin table levels) other =
          (throw (.unknownToken (Token.char symbol).describe) : Parse Expr) other := by
        simp [primary, peek_bind, same, here, parenthesis]
      rw [refusal, here]
      rfl
  | keyword word =>
    cases word with
    | ifWord => exact (ifElse_opened guided).chosen (here ▸ Token.noConfusion) (by rw [here]) fun _ => by rw [here]
    | forWord =>
      exact (forIn_opened guided commaEnds).chosen (here ▸ Token.noConfusion) (by rw [here]) fun _ => by rw [here]
    | varWord => exact (varIn_opened guided).chosen (here ▸ Token.noConfusion) (by rw [here]) fun _ => by rw [here]
    | _ => exact refused fun other same => by rw [primary, peek_bind, same, here]; rfl
  | endOfInput => exact refused fun other same => by rw [primary, peek_bind, same, here]; rfl

theorem prefixed_guided (closeEnds : Ends table (.char ')')) (commaEnds : Ends table (.char ',')) :
    Guided (· = numeral) (Ends table) (prefixed table (operandWithin table levels))
      fun more => prefixed table (operandWithin table (more + 1 + levels)) := by
  have primary := primary_guided guided closeEnds commaEnds
  refine ⟨fun cursor => ?_, starts_numeral fun _ => prefixed_numeral _⟩
  cases isSymbol : cursor.current.symbol? with
  | none =>
    refine (primary.viable cursor).chosen ?_ (fun _ => ?_) ?_
    · rw [isSymbol]
    · rw [isSymbol]
    · rintro _ rfl more
      rfl
  | some symbol =>
    obtain ⟨here, _⟩ := Token.symbol?_eq_some_iff.mp isSymbol
    by_cases reserved : (symbol = '(' || symbol = ',') = true
    · refine (primary.viable cursor).chosen ?_ (fun _ => ?_) ?_
      · simp only [isSymbol, if_pos reserved]
      · simp only [isSymbol, if_pos reserved]
      · rintro _ rfl more
        rfl
    · have rest : Guided (· = numeral) (Ends table)
          (do return .unary symbol (← operandWithin table levels) : Parse Expr)
          fun more => do return .unary symbol (← operandWithin table (more + 1 + levels)) :=
        guided.bind fun _ => .pure _ _
      refine rest.opened.chosen (here ▸ Token.noConfusion) ?_ fun _ => ?_
      · simp only [isSymbol, if_neg reserved]
      · simp only [isSymbol, if_neg reserved]

end Productions

theorem operand_guided {table : OperatorTable} (closeEnds : Ends table (.char ')'))
    (commaEnds : Ends table (.char ',')) (levels : Nat) :
    Guided (· = numeral) (Ends table) (operandWithin table levels)
      fun more => operandWithin table (more + 1 + levels) := by
  induction levels with
  | zero => exact ⟨fun _ => .other rfl id, starts_numeral fun _ => prefixed_numeral _⟩
  | succ levels ih => exact prefixed_guided ih closeEnds commaEnds

end Grammar

/-! ## Sources -/

namespace Cursor

/-- Over tokens a cursor comes to a landmark. -/
theorem Passes.crosses {ahead : List Lexeme} {cursor last : Cursor} {tokens : List Token}
    (passes : cursor.Passes ahead) (crossed : Crosses cursor tokens last) : last.Passes ahead := by
  induction crossed with
  | nil => exact passes
  | cons step _ ih =>
    have kept := passes.advance
    rw [step] at kept
    cases kept with
    | ok holds => exact ih holds

theorem Passes.landmark_mem {ahead : List Lexeme} {cursor : Cursor} (passes : cursor.Passes ahead) :
    cursor.landmark ∈ ahead := by
  obtain ⟨rfl, _, _⟩ := passes
  simp

end Cursor

namespace Parser

/-- The first token of a source is one of its landmarks, behind malformed numbers. -/
theorem passes_ofSource (table : OperatorTable) (source : String) :
    ∃ skipped ahead, landmarks source = skipped ++ ahead ∧ (ofSource table source).cursor.Passes ahead := by
  obtain ⟨skipped, resumes, _⟩ := (Cursor.ofSource source).advanceOver_resumes
  rcases Cursor.Precedes.inside.resumes resumes with ⟨behind, split, precedes⟩ | ⟨_, split⟩
  · exact ⟨_, _, split, .intro (List.nil_append _).symm rfl precedes⟩
  · have atEnd : (⟨.token .endOfInput, finalPlace source⟩ : Lexeme) ∈ skipped.map Lexeme.malformedAt := by
      rw [← split]
      exact List.mem_append_right _ (List.mem_singleton.mpr rfl)
    obtain ⟨_, _, same⟩ := List.mem_map.mp atEnd
    cases same

theorem expression_eq_error_iff {parser after : Parser} {fault : Error} :
    parser.expression = (.error fault, after) ↔
      ∃ last,
        Grammar.expression parser.table (Grammar.outerOperand parser.table) parser.cursor = .error fault last ∧
        { parser with cursor := last } = after := by
  rw [expression, readWith, read]
  split <;> simp_all

end Parser

/-- The source is an expression up to its end, if operands may lie in each other more deeply than the limit allows. -/
def IsExpression (table : OperatorTable) (source : String) : Prop :=
  ∃ tree, ∀ levels, Grammar.maxNesting < levels → ∃ last : Parser,
    (Parser.ofSource table source).read (Grammar.expression table (Grammar.operandWithin table levels)) =
      (.ok tree, last) ∧ last.cursor.current = .endOfInput

theorem isExpression_of_completes {table : OperatorTable} {source : String} {tokens : List Token} {tree : Expr}
    (closed : Grammar.Completes (Phrase.Ends table)
      (fun more => Grammar.expression table (Grammar.operandWithin table (more + 1 + Grammar.maxNesting))) tokens tree)
    (lexed : (lexemes source).map Lexeme.item = tokens.map .token) : IsExpression table source := by
  refine ⟨tree, fun levels unlimited => ?_⟩
  obtain ⟨more, rfl⟩ : ∃ more, levels = more + 1 + Grammar.maxNesting :=
    ⟨levels - 1 - Grammar.maxNesting, by omega⟩
  have ends : Phrase.Ends table .endOfInput := .ofNoChar fun _ => Token.noConfusion
  have reads : Grammar.expression table (Grammar.operandWithin table (more + 1 + Grammar.maxNesting))
      (Parser.ofSource table source).cursor = .ok tree ⟨.endOfInput, finalPlace source, [], finalPlace source⟩ := by
    obtain ⟨first, step, crossed⟩ := crosses_source lexed
    rw [Parser.ofSource_eq table step]
    exact closed _ ends more _ _ crossed rfl
  simp only [Parser.read, reads]
  exact ⟨_, rfl, rfl⟩

/-- If neither the closing parenthesis nor the comma is an operator, an expression that fails because another token is
needed stops at the first impossible token. The error shows this token and is noted where it starts. What was consumed
before it are tokens of an expression, whereas with this token behind them every source fails with the same error. -/
theorem syntax_error_at_first_impossible {table : OperatorTable} {source : String} {fault : Error} {after : Parser}
    (noParenthesis : table.precedence (.char ')') < 0) (noComma : table.precedence (.char ',') < 0)
    (failure : (Parser.ofSource table source).expression = (.error fault, after)) (misplaced : fault.IsMisplaced) :
    after.cursor.landmark ∈ landmarks source ∧ fault.Blames after.cursor.current ∧
      ∃ consumed, (Parser.ofSource table source).cursor.Crosses consumed after.cursor ∧
        (∃ completion completed, (lexemes completed).map Lexeme.item = (consumed ++ completion).map .token ∧
          IsExpression table completed) ∧
        ∀ (other : Parser) (stopped : Cursor), other.table = table → other.cursor.Crosses consumed stopped →
          stopped.current = after.cursor.current →
          other.expression = (.error fault, { other with cursor := stopped }) := by
  have closeEnds : Phrase.Ends table (.char ')') :=
    ⟨OperatorTable.forall_not_infix_iff.mpr noParenthesis, by decide⟩
  have commaEnds : Phrase.Ends table (.char ',') := ⟨OperatorTable.forall_not_infix_iff.mpr noComma, by decide⟩
  have guided := Grammar.expression_guided (Grammar.operand_guided closeEnds commaEnds Grammar.maxNesting)
  obtain ⟨last, failed, rfl⟩ := Parser.expression_eq_error_iff.mp failure
  cases guided.viable (Parser.ofSource table source).cursor with
  | success crossed _ again =>
    cases failed.symm.trans (again _ _ crossed rfl)
  | other failedToo notMisplaced =>
    cases failed.symm.trans failedToo
    exact absurd misplaced notMisplaced
  | @misplaced consumed completion _ _ tree crossed inside blames again spelled closed =>
    cases failed.symm.trans (again _ _ crossed rfl)
    refine ⟨?_, blames, consumed, crossed, ?_, ?_⟩
    · obtain ⟨skipped, ahead, whole, passes⟩ := Parser.passes_ofSource table source
      exact whole ▸ List.mem_append_right _ (passes.crosses crossed).landmark_mem
    · have spelledAll : ∀ token ∈ consumed ++ completion, token.Spelled := by
        refine List.forall_mem_append.mpr ⟨fun token member => ?_, spelled⟩
        refine (crossed.spelled_of_mem (Parser.ready_ofSource table source).spelled member).resolve_left ?_
        rintro rfl
        exact inside member
      obtain ⟨completed, lexed⟩ := exists_source_of_spelled spelledAll
      exact ⟨completion, completed, lexed, isExpression_of_completes closed lexed⟩
    · rintro other stopped rfl crossedToo same
      exact Parser.expression_eq_error_iff.mpr ⟨stopped, again _ _ crossedToo same, rfl⟩

/-- In the argument of a call a conditional has no alternative yet. -/
theorem syntax_error_at_first_impossible_argument :
    let source := "g(if 1 < 2 then\n  3 4"
    ∃ after, (Parser.ofSource .standard source).expression = (.error (.expected "'else'" "number 4"), after) ∧
      after.cursor.place = ⟨2, 5⟩ ∧ after.cursor.landmark ∈ landmarks source ∧
      ∃ consumed, (Parser.ofSource .standard source).cursor.Crosses consumed after.cursor ∧
        ∃ completion completed, (lexemes completed).map Lexeme.item = (consumed ++ completion).map .token ∧
          IsExpression .standard completed := by
  intro source
  have isExpected : (match (Parser.ofSource .standard source).expression.1 with
      | .error fault => decide (fault = .expected "'else'" "number 4")
      | .ok _ => false) = true := by decide +kernel
  have place : (Parser.ofSource .standard source).expression.2.cursor.place = ⟨2, 5⟩ := by decide +kernel
  generalize outcome : (Parser.ofSource .standard source).expression = result at isExpected place
  obtain ⟨_ | _, after⟩ := result
  · obtain rfl := of_decide_eq_true isExpected
    obtain ⟨landmark, _, consumed, crossed, completes, _⟩ :=
      syntax_error_at_first_impossible (by decide) (by decide) outcome trivial
    exact ⟨after, rfl, place, landmark, consumed, crossed, completes⟩
  · cases isExpected

end OpLang

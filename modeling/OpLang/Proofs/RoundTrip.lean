import OpLang.Proofs.Layout
import OpLang.Proofs.ProgramExact
import OpLang.Proofs.Rendering

/-! # Reading back what was rendered

The tokens of an expression are written with a space between each two, which belongs to no item, so that
every word, number and operator is cut out as it was written. Read as a program, the text has the expression
as its only form.
-/

namespace OpLang

/-! ## Written tokens -/

namespace Token

/-- How tokens are written. A number may be written as any run of digits and points that has its value. -/
def WrittenBy : Token → List Char → Prop
  | .keyword word, run => run = word.spelling.toList
  | .ident name, run => run = name.toList
  | .number value, run => Binary64.ofDigits? run = some value
  | .char symbol, run => run = [symbol]
  | .endOfInput, _ => False

/-- Names and characters that are cut out as they are written. -/
def Lexable : Token → Prop
  | .ident name => IsName name
  | .char symbol => IsPunctuation symbol
  | _ => True

theorem WrittenBy.spelledBy {token : Token} {run : List Char} (written : token.WrittenBy run)
    (lexable : token.Lexable) : token.SpelledBy run := by
  cases token with
  | ident | char => exact ⟨written, lexable⟩
  | keyword | number | endOfInput => exact written

theorem SpelledBy.writtenBy {token : Token} {run : List Char} (spelled : token.SpelledBy run) :
    token.WrittenBy run ∧ token.Lexable := by
  cases token with
  | ident | char => exact spelled
  | keyword | number => exact ⟨spelled, trivial⟩
  | endOfInput => exact spelled.elim

end Token

/-- Tokens written one after the other with one space between each two. -/
inductive Spaced : List Token → List Char → Prop
  | nil : Spaced [] []
  | last {token : Token} {run : List Char} (written : token.WrittenBy run) : Spaced [token] run
  | cons {token next : Token} {tokens : List Token} {run text : List Char} (written : token.WrittenBy run)
      (rest : Spaced (next :: tokens) text) : Spaced (token :: next :: tokens) (run ++ ' ' :: text)

/-- Before a space or at the end, what spells a token is read as that token. -/
theorem read_append {token : Token} {run : List Char} (rest : List Char) (spelled : token.SpelledBy run)
    (stop : ∀ c, rest.head? = some c → c = ' ') :
    (pieces (run ++ rest)).1.map Piece.read = .token token :: (pieces rest).1.map Piece.read := by
  obtain ⟨first, more, rfl, item⟩ := spelled.exists_item
  have ends : ∀ c, rest.head? = some c → continuesItem first c = false := by
    intro c atHead
    obtain rfl := stop c atHead
    exact continuesItem_eq_false (by decide) (by decide)
  rw [List.cons_append, pieces_item_append item ends, List.map_cons, spelled.read]

theorem read_space (rest : List Char) :
    (pieces (' ' :: rest)).1.map Piece.read = (pieces rest).1.map Piece.read := by
  rw [pieces_cons_of_isBlank (by decide) (by decide), map_read_indent]

/-- Spaced tokens are read back. -/
theorem Spaced.read {tokens : List Token} {text : List Char} (spaced : Spaced tokens text)
    (lexable : ∀ token ∈ tokens, token.Lexable) : (pieces text).1.map Piece.read = tokens.map .token := by
  have nothing : pieces [] = ([], []) := pieces_of_nil rfl
  induction spaced with
  | nil => exact congrArg (·.1.map Piece.read) nothing
  | @last token run written =>
    have read := read_append [] (written.spelledBy (lexable token (List.mem_cons_self ..))) (by simp)
    rwa [List.append_nil, nothing] at read
  | @cons token _ _ _ _ written _ ih =>
    have spelled := written.spelledBy (lexable token (List.mem_cons_self ..))
    have later := ih fun other member => lexable other (List.mem_cons_of_mem _ member)
    rw [read_append _ spelled (by simp), read_space, later, ← List.map_cons]

/-- A source can have any spelled tokens one after the other. -/
theorem exists_source_of_spelled {tokens : List Token} (spelled : ∀ token ∈ tokens, token.Spelled) :
    ∃ source, (lexemes source).map Lexeme.item = tokens.map .token := by
  have lexable : ∀ token ∈ tokens, token.Lexable := by
    intro token member
    obtain ⟨run, spelledBy⟩ := spelled token member
    exact spelledBy.writtenBy.2
  have written : ∃ text, Spaced tokens text := by
    clear lexable
    induction tokens with
    | nil => exact ⟨[], .nil⟩
    | cons token tokens ih =>
      obtain ⟨run, spelledBy⟩ := spelled token (List.mem_cons_self ..)
      obtain ⟨text, later⟩ := ih fun other member => spelled other (List.mem_cons_of_mem _ member)
      cases tokens with
      | nil => exact ⟨run, .last spelledBy.writtenBy.1⟩
      | cons => exact ⟨_, .cons spelledBy.writtenBy.1 later⟩
  obtain ⟨text, spaced⟩ := written
  refine ⟨String.ofList text, (map_item_locate _ _).trans ?_⟩
  rw [String.toList_ofList]
  exact spaced.read lexable

namespace Expr

/-! ## The tokens of expressions -/

private theorem lexable_punctuation : ∀ symbol ∈ ['(', ')', ',', '='], (Token.char symbol).Lexable := by
  intro symbol member
  simp only [List.mem_cons, List.not_mem_nil, or_false] at member
  rcases member with rfl | rfl | rfl | rfl <;> exact ⟨by decide, by decide, by decide, by decide⟩

theorem lexable_enclose (expr : Expr) {tokens : List Token} (lexable : ∀ token ∈ tokens, token.Lexable) :
    ∀ token ∈ expr.enclose tokens, token.Lexable := by
  rw [enclose]
  split
  · exact lexable
  · simp only [List.forall_mem_cons, List.forall_mem_append]
    exact ⟨lexable_punctuation '(' (by decide), lexable, lexable_punctuation ')' (by decide),
      List.forall_mem_nil _⟩

theorem lexable_commaSeparated {lists : List (List Token)}
    (lexable : ∀ tokens ∈ lists, ∀ token ∈ tokens, token.Lexable) :
    ∀ token ∈ commaSeparated lists, token.Lexable := by
  cases lists with
  | nil => exact List.forall_mem_nil _
  | cons first others =>
    rw [List.forall_mem_cons] at lexable
    rw [commaSeparated, List.forall_mem_append]
    refine ⟨lexable.1, fun token member => ?_⟩
    obtain ⟨tokens, inside, member⟩ := List.mem_flatMap.mp member
    rcases List.mem_cons.mp member with rfl | member
    · exact lexable_punctuation ',' (by decide)
    · exact lexable.2 tokens inside token member

theorem lexable_tokensAfter {mark : Char} {part : Option Expr} (announced : (Token.char mark).Lexable)
    (lexable : ∀ expr ∈ part, ∀ token ∈ expr.tokens, token.Lexable) :
    ∀ token ∈ tokensAfter mark part, token.Lexable := by
  cases part with
  | none => exact List.forall_mem_nil _
  | some expr =>
    rw [tokensAfter, List.forall_mem_cons]
    exact ⟨announced, lexable expr rfl⟩

/-- All tokens of an expression that can be written out are cut out as they are written. -/
theorem Renderable.lexable {table : OperatorTable} {expr : Expr} (renderable : Renderable table expr) :
    ∀ token ∈ expr.tokens, token.Lexable := by
  induction renderable with
  | number value =>
    rw [tokens, List.forall_mem_singleton]
    trivial
  | var named =>
    rw [tokens, List.forall_mem_singleton]
    exact named
  | @unary symbol operand operator _ _ _ _ ih =>
    rw [tokens, List.forall_mem_cons]
    exact ⟨operator.toIsPunctuation, operand.lexable_enclose ih⟩
  | @binary symbol lhs rhs operator _ _ _ ihLeft ihRight =>
    rw [tokens, List.forall_mem_append, List.forall_mem_cons]
    exact ⟨lhs.lexable_enclose ihLeft, operator.toIsPunctuation, rhs.lexable_enclose ihRight⟩
  | call named _ ih =>
    simp only [tokens, tokensOfArgs_eq_map, List.forall_mem_cons, List.forall_mem_append]
    have list := lexable_commaSeparated (List.forall_mem_map.mpr ih)
    exact ⟨named, lexable_punctuation '(' (by decide), list, lexable_punctuation ')' (by decide),
      List.forall_mem_nil _⟩
  | ifElse _ _ _ ihTest ihPositive ihNegative =>
    simp only [tokens, List.forall_mem_cons, List.forall_mem_append]
    exact ⟨trivial, ihTest, trivial, ihPositive, trivial, ihNegative⟩
  | forIn named _ _ _ _ ihFirst ihLast ihStride ihInner =>
    simp only [tokens, List.forall_mem_cons, List.forall_mem_append]
    have comma := lexable_punctuation ',' (by decide)
    have stride := lexable_tokensAfter comma ihStride
    exact ⟨trivial, named, lexable_punctuation '=' (by decide), ihFirst, comma, ihLast, stride, trivial, ihInner⟩
  | varIn _ named _ _ ihInits ihInner =>
    simp only [tokens, tokensOfBindings_eq_map, List.forall_mem_cons, List.forall_mem_append]
    refine ⟨trivial, lexable_commaSeparated ?_, trivial, ihInner⟩
    rw [List.forall_mem_map]
    intro binding member
    rw [List.forall_mem_cons]
    have equals := lexable_punctuation '=' (by decide)
    exact ⟨named binding member, lexable_tokensAfter equals (ihInits binding member)⟩

end Expr

/-! ## Rendered expressions as programs -/

/-- The tokens of an expression are a program of one form. -/
theorem Expr.Renderable.program {table : OperatorTable} {expr : Expr} (renderable : Renderable table expr)
    (delimits : table.Delimits) (notSeparator : ∀ operand, expr ≠ .unary ';' operand)
    (shallow : expr.depth ≤ Grammar.maxNesting) :
    Phrase.Program table expr.tokens [.expression (.anonymous expr)] .endOfInput := by
  obtain ⟨token, later, split, isSymbol⟩ := expr.exists_head
  have body : Phrase.Body table expr.tokens expr .endOfInput :=
    (renderable.reads delimits).expression shallow (.ofNoChar fun _ => Token.noConfusion)
  have head : expr.tokens.headD .endOfInput ≠ .char ';' := by
    rw [split]
    intro separator
    rcases isSymbol ';' separator with absurd | ⟨operand, same⟩
    · cases absurd
    · exact notSeparator operand same
  have program : Phrase.Program table (expr.tokens ++ []) [.expression (.anonymous expr)] .endOfInput :=
    .form (.expression head body) .nil
  rwa [List.append_nil] at program

/-- An expression that is written out with one space between its tokens is read back as the only form of its
source; nothing else happens. -/
theorem parse_rendered (table : OperatorTable) (expr : Expr) (source : String) (delimits : table.Delimits)
    (renderable : expr.Renderable table) (notSeparator : ∀ operand, expr ≠ .unary ';' operand)
    (shallow : expr.depth ≤ Grammar.maxNesting) (written : Spaced expr.tokens source.toList) :
    parse table source =
      ⟨[.entered (.expression (.anonymous expr)), .exited (.expression (.anonymous expr))], [], table⟩ := by
  have lexed : (lexemes source).map Lexeme.item = expr.tokens.map .token :=
    (map_item_locate _ _).trans (written.read renderable.lexable)
  exact parse_of_program lexed (renderable.program delimits notSeparator shallow)

/-- The sum of a negated variable, which is in parentheses, and of a call, which is not. -/
theorem parse_rendered_sum :
    let sum : Expr := .binary '+' (.unary '!' (.var "x")) (.call "f" [.number (Decimal.toBinary64 ⟨1, 0⟩)])
    Spaced sum.tokens "( ! x ) + f ( 1 )".toList ∧
      parse .standard "( ! x ) + f ( 1 )" =
        ⟨[.entered (.expression (.anonymous sum)), .exited (.expression (.anonymous sum))], [], .standard⟩ := by
  intro sum
  have delimits : OperatorTable.standard.Delimits := ⟨by decide, by decide, by decide⟩
  have operator : ∀ symbol ∈ ['!', '+'], IsOperator symbol := by
    intro symbol member
    simp only [List.mem_cons, List.not_mem_nil, or_false] at member
    rcases member with rfl | rfl <;> exact ⟨⟨by decide, by decide, by decide, by decide⟩, by decide⟩
  have named : ∀ name ∈ ["x", "f"], IsName name := by
    intro name member
    simp only [List.mem_cons, List.not_mem_nil, or_false] at member
    rcases member with rfl | rfl <;> exact ⟨_, [], rfl, by decide, by simp, by decide⟩
  have negation : Expr.Renderable .standard (.unary '!' (.var "x")) :=
    .unary (operator _ (by simp)) (by decide) (by decide) (by decide) (.var (named _ (by simp)))
  have call : Expr.Renderable .standard (.call "f" [.number (Decimal.toBinary64 ⟨1, 0⟩)]) :=
    .call (named _ (by simp)) (by simp [Expr.Renderable.number])
  have chars : "( ! x ) + f ( 1 )".toList = ['('] ++ ' ' :: (['!'] ++ ' ' :: (['x'] ++ ' ' :: ([')'] ++ ' ' ::
      (['+'] ++ ' ' :: (['f'] ++ ' ' :: (['('] ++ ' ' :: (['1'] ++ ' ' :: [')']))))))) := by decide
  have written : Spaced sum.tokens "( ! x ) + f ( 1 )".toList := by
    rw [chars]
    exact .cons rfl (.cons rfl (.cons rfl (.cons rfl (.cons rfl (.cons rfl (.cons rfl (.cons rfl (.last rfl))))))))
  have renderable : Expr.Renderable .standard sum := .binary (operator '+' (by simp)) (by decide) negation call
  exact ⟨written, parse_rendered _ _ _ delimits renderable (fun _ => nofun) (by decide) written⟩

end OpLang

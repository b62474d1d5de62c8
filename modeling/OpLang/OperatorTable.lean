import OpLang.Token

/-! # Operator tables

A table gives binary operators their precedences. Declaring an operator again overrides the earlier
precedence, so what counts in a table is the latest entry of each character.
-/

namespace OpLang

/-- The precedence reported for a token that is no declared binary operator. -/
def noPrecedence : Int := -1

/-- The least precedence that a program may declare. -/
def minPrecedence : Int := 1

/-- The greatest precedence that a program may declare. -/
def maxPrecedence : Int := 100

/-- The precedence of an operator that is declared without one. -/
def defaultPrecedence : Int := 30

/-- The operators that need no declaration, with their precedences. -/
def standardOperators : List (Char × Int) := [('<', 10), ('+', 20), ('-', 20), ('*', 40)]

/-- The precedences of binary operators, latest entry first. -/
structure OperatorTable where
  entries : List (Char × Int)
  deriving DecidableEq

namespace OperatorTable

def empty : OperatorTable := ⟨[]⟩

/-- The precedence last declared for a character. -/
def precedence? (table : OperatorTable) (symbol : Char) : Option Int := table.entries.lookup symbol

/-- Gives an operator a precedence and overrides any earlier one. -/
def declare (table : OperatorTable) (symbol : Char) (precedence : Int) : OperatorTable :=
  ⟨(symbol, precedence) :: table.entries⟩

/-- Declares operators from left to right. -/
def declareAll (table : OperatorTable) (operators : List (Char × Int)) : OperatorTable :=
  operators.foldl (fun table entry => table.declare entry.1 entry.2) table

theorem entries_declareAll (table : OperatorTable) (operators : List (Char × Int)) :
    (table.declareAll operators).entries = operators.reverse ++ table.entries := by
  induction operators generalizing table with
  | nil => rfl
  | cons entry operators ih =>
    rw [List.reverse_cons, List.append_assoc]
    exact ih (table.declare entry.1 entry.2)

/-- The precedence of an operator is the last that was declared for it. -/
theorem precedence?_declareAll (table : OperatorTable) (operators : List (Char × Int)) (symbol : Char) :
    (table.declareAll operators).precedence? symbol =
      (operators.reverse.lookup symbol).or (table.precedence? symbol) := by
  rw [precedence?, entries_declareAll, List.lookup_append, precedence?]

def ofList (operators : List (Char × Int)) : OperatorTable := empty.declareAll operators

/-- The table that a program starts with. -/
def standard : OperatorTable := ofList standardOperators

def contains (table : OperatorTable) (symbol : Char) : Bool := (table.precedence? symbol).isSome

/-- The precedence of a token as a binary operator. Characters outside ASCII are never operators, even
if the table has them. -/
def precedence (table : OperatorTable) (token : Token) : Int :=
  match token.symbol? with
  | some symbol => (table.precedence? symbol).getD noPrecedence
  | none => noPrecedence

/-- Whether two tables give the same characters the same precedences. -/
def equals (first second : OperatorTable) : Bool :=
  (first.entries ++ second.entries).all fun entry =>
    first.precedence? entry.1 = second.precedence? entry.1

end OperatorTable

end OpLang

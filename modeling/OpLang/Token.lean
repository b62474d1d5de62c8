import OpLang.Number.Decimal

/-! # Tokens

A token is what is left of an item of the source once its spelling no longer matters. The words of the
language are tokens of their own; every other word is an identifier, and every character that is neither
in a word nor in a number stands for itself, as operator or punctuation.
-/

namespace OpLang

/-- The words that are no identifiers. -/
inductive Keyword where
  | defWord
  | externWord
  | ifWord
  | thenWord
  | elseWord
  | forWord
  | inWord
  | varWord
  | unaryWord
  | binaryWord
  deriving DecidableEq

namespace Keyword

def spelling : Keyword → String
  | defWord => "def"
  | externWord => "extern"
  | ifWord => "if"
  | thenWord => "then"
  | elseWord => "else"
  | forWord => "for"
  | inWord => "in"
  | varWord => "var"
  | unaryWord => "unary"
  | binaryWord => "binary"

def all : List Keyword :=
  [defWord, externWord, ifWord, thenWord, elseWord, forWord, inWord, varWord, unaryWord, binaryWord]

/-- A word is a keyword only if it is spelled as one exactly, in lower case. -/
def ofSpelling? (word : String) : Option Keyword := all.find? fun keyword => keyword.spelling = word

theorem ofSpelling?_eq_some_iff (word : String) (keyword : Keyword) :
    ofSpelling? word = some keyword ↔ keyword.spelling = word := by
  constructor
  · intro found
    simpa using List.find?_some found
  · rintro rfl
    cases keyword <;> decide

end Keyword

inductive Token where
  | keyword (word : Keyword)
  | ident (name : String)
  | number (value : Binary64)
  | char (symbol : Char)
  | endOfInput
  deriving DecidableEq

namespace Token

/-- The token of a word. -/
def ofWord (word : String) : Token :=
  match Keyword.ofSpelling? word with
  | some reserved => .keyword reserved
  | none => .ident word

/-- Whether the token is the given operator or punctuation character. -/
def isChar (token : Token) (symbol : Char) : Bool := token = .char symbol

/-- The character of a token that may be an operator: operators are ASCII. -/
def symbol? : Token → Option Char
  | .char symbol => if symbol.toNat < 128 then some symbol else none
  | _ => none

/-- How messages name a token. -/
def describe : Token → String
  | .keyword word => "'" ++ word.spelling ++ "'"
  | .ident name => "identifier '" ++ name ++ "'"
  | .number value => "number " ++ value.text
  | .char symbol => "'" ++ symbol.toString ++ "'"
  | .endOfInput => "end of input"

/-- Equality of tokens with the equality of numbers that arithmetic has. -/
def equals : Token → Token → Bool
  | .number x, .number y => x.equals y
  | first, second => first = second

end Token

end OpLang

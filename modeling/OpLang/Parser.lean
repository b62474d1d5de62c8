import OpLang.Delivery
import OpLang.Grammar.Declaration

/-! # Parsing programs

A parser reads the forms of a source one after the other, hands every complete form to its listener and
records what a binary operator declares in its operator table. A form that cannot be read is reported,
leaves the table as it was, and is given up: reading goes on after the token that was not understood.
-/

namespace OpLang

/-- How far a source has been read, and what has come of it. -/
structure Parser where
  cursor : Cursor
  table : OperatorTable
  /-- Whether anybody listens, and what they were told. -/
  delivery : Delivery Unit := {}
  diagnostics : List Diagnostic := []

namespace Parser

/-- Adds a diagnostic at the place of the cursor. -/
def diagnose (parser : Parser) (error : Error) : Parser :=
  { parser with diagnostics := parser.diagnostics ++ [⟨error, parser.cursor.place⟩] }

/-- Steps to the next token and diagnoses the malformed numbers before it. -/
def skip (parser : Parser) : Parser :=
  let (found, cursor) := parser.cursor.advanceOver
  { parser with cursor := cursor, diagnostics := parser.diagnostics ++ found }

/-- Gives up what could not be read: the error is diagnosed and the current token passed over. -/
def recover (parser : Parser) (error : Error) : Parser := (parser.diagnose error).skip

/-- A parser at the first token of a source. -/
def ofSource (table : OperatorTable) (source : String) : Parser :=
  skip { cursor := .ofSource source, table := table }

/-- From now on somebody listens. -/
def withListener (parser : Parser) : Parser :=
  { parser with delivery := parser.delivery.attach () }

/-- What the listener was told so far. -/
def notifications (parser : Parser) : List Notification := parser.delivery.delivered.map Prod.snd

/-! ## Productions

A production moves the cursor and leaves all else alone, except that the prototype of a complete
definition or declaration goes into the table. -/

/-- Runs a production from the current token. -/
def read {α : Type} (parser : Parser) (production : Parse α) : Except Error α × Parser :=
  match production parser.cursor with
  | .ok result cursor => (.ok result, { parser with cursor := cursor })
  | .error error cursor => (.error error, { parser with cursor := cursor })

/-- Runs a production for an expression, whose operands lie at the outermost level. -/
def readWith (parser : Parser) (production : OperatorTable → Parse Expr → Parse Expr) :
    Except Error Expr × Parser :=
  parser.read (production parser.table (Grammar.outerOperand parser.table))

def primary (parser : Parser) : Except Error Expr × Parser := parser.readWith Grammar.primary

def operand (parser : Parser) : Except Error Expr × Parser := parser.readWith fun _ operand => operand

/-- The rest of a chain whose first operand has been read. -/
def chain (parser : Parser) (bound : Int) (first : Expr) : Except Error Expr × Parser :=
  parser.readWith fun table operand => Grammar.chain table operand bound first

def expression (parser : Parser) : Except Error Expr × Parser := parser.readWith Grammar.expression

def ifElse (parser : Parser) : Except Error Expr × Parser := parser.readWith Grammar.ifElse

def forIn (parser : Parser) : Except Error Expr × Parser := parser.readWith Grammar.forIn

def varIn (parser : Parser) : Except Error Expr × Parser := parser.readWith Grammar.varIn

def prototype (parser : Parser) : Except Error Prototype × Parser := parser.read Grammar.prototype

/-- Records what a prototype declares. -/
def declare (parser : Parser) (proto : Prototype) : Parser :=
  { parser with table := parser.table.declarePrototype proto }

def definition (parser : Parser) : Except Error Function × Parser :=
  match parser.read (Grammar.definition parser.table) with
  | (.ok function, next) => (.ok function, next.declare function.proto)
  | failed => failed

def external (parser : Parser) : Except Error Prototype × Parser :=
  match parser.read Grammar.external with
  | (.ok proto, next) => (.ok proto, next.declare proto)
  | failed => failed

def topLevel (parser : Parser) : Except Error Function × Parser :=
  parser.read (Grammar.topLevel parser.table)

/-! ## Forms -/

/-- Reads a form of the given kind. -/
def form (parser : Parser) : FormKind → Except Error Form × Parser
  | .definition => (parser.definition.1.map .definition, parser.definition.2)
  | .external => (parser.external.1.map .external, parser.external.2)
  | .expression => (parser.topLevel.1.map .expression, parser.topLevel.2)

/-- Closes the rule of a form: a complete form is handed out, and an error is recovered from. -/
def close (parser : Parser) : Except Error Form → Parser
  | .ok form =>
    match Delivery.closeRule (some form) parser.delivery with
    | .ok _ delivery => { parser with delivery := delivery.handOut }
    | .error fault delivery => recover { parser with delivery := delivery } fault
  | .error error =>
    match Delivery.closeRule none parser.delivery with
    | .ok _ delivery => recover { parser with delivery := delivery } error
    | .error fault delivery => recover (diagnose { parser with delivery := delivery } error) fault

/-- Reads a form of the given kind under a rule of its own, and hands it out or recovers. -/
def process (parser : Parser) (kind : FormKind) : Parser :=
  let (result, next) := { parser with delivery := parser.delivery.openRule kind }.form kind
  next.close result

/-! ## Programs -/

/-- Reads what starts with the given token: a semicolon between forms, or a form. -/
def step (parser : Parser) : Token → Parser
  | .char ';' => parser.skip
  | .keyword .defWord => parser.process .definition
  | .keyword .externWord => parser.process .external
  | _ => parser.process .expression

/-- Reads forms up to the end of input. A step that does not move the cursor ends the run. -/
def run (parser : Parser) : Parser :=
  if parser.cursor.current = .endOfInput then parser
  else
    let next := parser.step parser.cursor.current
    if next.cursor.remaining < parser.cursor.remaining then next.run else next
termination_by parser.cursor.remaining

end Parser

/-- What comes of a source. -/
structure Outcome where
  notifications : List Notification
  diagnostics : List Diagnostic
  /-- The operator table after the last form. -/
  table : OperatorTable
  deriving DecidableEq

namespace Outcome

/-- The complete forms, in order. -/
def forms (outcome : Outcome) : List Form := outcome.notifications.filterMap Notification.completed?

end Outcome

/-- Reads all forms of a source, starting with the given operators. -/
def parse (table : OperatorTable) (source : String) : Outcome :=
  let parser := (Parser.ofSource table source).withListener.run
  ⟨parser.notifications, parser.diagnostics, parser.table⟩

end OpLang

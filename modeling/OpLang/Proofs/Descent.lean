import OpLang.Proofs.Climbing
import OpLang.Proofs.Run

/-! # Reading by descent

The same language read in another way. One count says how many operands the reader is inside of; it is raised
before an operand and lowered behind it, whatever has become of the operand, and asked before it is raised. A
chain is read by climbing: precedences are numbers of 32 bits, and the bound for the tighter operators is the
next one, if there is a next one. Loops go on for as long as the tokens give them reason to, without a look at
whether the cursor moves. So a reading need not have an outcome: a precedence without a successor is the end
of it, and nothing says beforehand that its loops are finite.

For a table of 32-bit numbers the two ways of reading never part. Started at any count of operands, a
production by descent has the outcome of the production of the grammar that may go as many levels deeper, and
it leaves the count as it was, also where it fails.
-/

namespace OpLang

/-- The greatest number of 32 bits. -/
def maxInt32 : Int := 2147483647

/-- The least number of 32 bits. -/
def minInt32 : Int := -2147483648

/-- All precedences of the table are numbers of 32 bits. -/
def OperatorTable.Fits (table : OperatorTable) : Prop :=
  ∀ entry ∈ table.entries, minInt32 ≤ entry.2 ∧ entry.2 ≤ maxInt32

/-- A reader by descent, with the operators that it knows. -/
structure Descent where
  table : OperatorTable

namespace Descent

/-- A cursor, and how many operands it is inside of. -/
structure State where
  cursor : Cursor
  nesting : Nat

/-- A computation with a result or an error, or without an outcome. -/
abbrev Reading := ExceptT Error (StateT State Option)

/-- A computation that does not ask for the count of operands. -/
def lift {α : Type} (production : Parse α) : Reading α := fun state =>
  match production state.cursor with
  | .ok value cursor => some (.ok value, { state with cursor := cursor })
  | .error fault cursor => some (.error fault, { state with cursor := cursor })

instance : MonadLift Parse Reading := ⟨lift⟩

/-- The next precedence; the greatest number has none. -/
def successor (precedence : Int) : Reading Int := fun state =>
  if precedence < maxInt32 then some (.ok (precedence + 1), state) else none

open Grammar (peek unexpected expect identifier maxNesting)

/-! ## Expressions -/

mutual

/-- Counts an operand while it is read. -/
def operand (reader : Descent) : Reading Expr := fun state =>
  if maxNesting ≤ state.nesting then some (.error (.nestingTooDeep maxNesting), state)
  else do
    let (result, next) ← reader |>.prefixed { state with nesting := state.nesting + 1 }
    return (result, { next with nesting := next.nesting - 1 })
partial_fixpoint

def prefixed (reader : Descent) : Reading Expr := do
  match (← peek).symbol? with
  | some symbol =>
    if symbol = '(' || symbol = ',' then reader |>.primary
    else
      Cursor.advance
      return .unary symbol (← reader |>.operand)
  | none => reader |>.primary
partial_fixpoint

def primary (reader : Descent) : Reading Expr := do
  let token ← peek
  if token = .char '(' then reader |>.parenthesized
  else match token with
    | .ident name => reader |>.nameOrCall name
    | .number value =>
      Cursor.advance
      return .number value
    | .keyword .ifWord => reader |>.ifElse
    | .keyword .forWord => reader |>.forIn
    | .keyword .varWord => reader |>.varIn
    | _ => throw (.unknownToken token.describe)
partial_fixpoint

/-- The rest of a chain; the tighter operators behind an operand are read first. -/
def climb (reader : Descent) (bound : Int) (lhs : Expr) : Reading Expr := do
  let token ← peek
  let precedence := reader.table.precedence token
  if precedence < bound then return lhs
  match token with
  | .char symbol =>
    Cursor.advance
    let rhs ← reader |>.operand
    if precedence < reader.table.precedence (← peek) then
      let rhs ← reader |>.climb (← successor precedence) rhs
      reader |>.climb bound (.binary symbol lhs rhs)
    else
      reader |>.climb bound (.binary symbol lhs rhs)
  | _ =>
    throw (.internal
      (token.describe ++ " has precedence " ++ toString precedence ++ " but is not an operator"))
partial_fixpoint

def expression (reader : Descent) : Reading Expr := do
  reader |>.climb 0 (← reader |>.operand)
partial_fixpoint

def nextArgument (reader : Descent) : Reading (Option Expr) := do
  if (← peek) = .char ')' then return none
  if (← peek) = .char ',' then
    Cursor.advance
    return some (← reader |>.expression)
  unexpected "')' or ',' in argument list"
partial_fixpoint

def moreArguments (reader : Descent) : Reading (List Expr) := do
  match ← reader |>.nextArgument with
  | none => return []
  | some argument => return argument :: (← reader |>.moreArguments)
partial_fixpoint

def arguments (reader : Descent) : Reading (List Expr) := do
  if (← peek) = .char ')' then return []
  let first ← reader |>.expression
  return first :: (← reader |>.moreArguments)
partial_fixpoint

def nameOrCall (reader : Descent) (name : String) : Reading Expr := do
  Cursor.advance
  if (← peek) = .char '(' then
    Cursor.advance
    let args ← reader |>.arguments
    Cursor.advance
    return .call name args
  return .var name
partial_fixpoint

def parenthesized (reader : Descent) : Reading Expr := do
  Cursor.advance
  let inner ← reader |>.expression
  expect (.char ')') "')'"
  return inner
partial_fixpoint

def ifElse (reader : Descent) : Reading Expr := do
  Cursor.advance
  let condition ← reader |>.expression
  expect (.keyword .thenWord) "'then'"
  let thenBranch ← reader |>.expression
  expect (.keyword .elseWord) "'else'"
  return .ifElse condition thenBranch (← reader |>.expression)
partial_fixpoint

def step? (reader : Descent) : Reading (Option Expr) := do
  if (← peek) = .char ',' then
    Cursor.advance
    return some (← reader |>.expression)
  return none
partial_fixpoint

def forIn (reader : Descent) : Reading Expr := do
  Cursor.advance
  let name ← identifier "identifier after 'for'"
  expect (.char '=') "'=' after for variable"
  let start ← reader |>.expression
  expect (.char ',') "',' after for start value"
  let finish ← reader |>.expression
  let step ← reader |>.step?
  expect (.keyword .inWord) "'in' after for"
  return .forIn name start finish step (← reader |>.expression)
partial_fixpoint

def binding (reader : Descent) : Reading (String × Option Expr) := do
  let name ← identifier "identifier after 'var'"
  if (← peek) = .char '=' then
    Cursor.advance
    return (name, some (← reader |>.expression))
  return (name, none)
partial_fixpoint

def nextBinding (reader : Descent) : Reading (Option (String × Option Expr)) := do
  if (← peek) = .char ',' then
    Cursor.advance
    return some (← reader |>.binding)
  return none
partial_fixpoint

def moreBindings (reader : Descent) : Reading (List (String × Option Expr)) := do
  match ← reader |>.nextBinding with
  | none => return []
  | some binding => return binding :: (← reader |>.moreBindings)
partial_fixpoint

def varIn (reader : Descent) : Reading Expr := do
  Cursor.advance
  let first ← reader |>.binding
  let others ← reader |>.moreBindings
  expect (.keyword .inWord) "'in' after 'var'"
  return .varIn (first :: others) (← reader |>.expression)
partial_fixpoint

end

/-! ## Forms -/

open Grammar (parameter? heading checkArity)

/-- Parameters for as long as there are names; `before` are those read so far, latest first. -/
def moreParameters (reader : Descent) (name : String) (before : List String) : Reading (List String) := do
  match ← parameter? name before with
  | none => return []
  | some param => return param :: (← reader |>.moreParameters name (param :: before))
partial_fixpoint

def prototype (reader : Descent) : Reading Prototype := do
  let (name, kind, precedence) ← heading
  expect (.char '(') "'(' in prototype"
  let params ← reader.moreParameters name []
  expect (.char ')') "')' in prototype"
  checkArity ⟨name, params, kind, precedence⟩

def definition (reader : Descent) : Reading Function := do
  Cursor.advance
  let proto ← reader.prototype
  return ⟨proto, ← reader.expression⟩

def external (reader : Descent) : Reading Prototype := do
  Cursor.advance
  reader.prototype

def topLevel (reader : Descent) : Reading Function := do
  return .anonymous (← reader.expression)

/-! ## Following the grammar -/

/-- From here the reading has the outcome of the production and leaves the count of operands as it is. -/
def FollowsAt {α : Type} (nesting : Nat) (cursor : Cursor) (reading : Reading α) (production : Parse α) : Prop :=
  reading ⟨cursor, nesting⟩ = lift production ⟨cursor, nesting⟩

/-- The reading follows the production from everywhere. -/
def Follows {α : Type} (nesting : Nat) (reading : Reading α) (production : Parse α) : Prop :=
  ∀ cursor, FollowsAt nesting cursor reading production

section Calculus

variable {α β : Type} {nesting : Nat} {cursor : Cursor}

theorem FollowsAt.bind {reading : Reading α} {production : Parse α} {later : α → Reading β}
    {rest : α → Parse β} (first : FollowsAt nesting cursor reading production)
    (second : ∀ value next, production cursor = .ok value next →
      FollowsAt nesting next (later value) (rest value)) :
    FollowsAt nesting cursor (reading >>= later) (production >>= rest) := by
  simp only [FollowsAt, lift] at first second ⊢
  change (reading ⟨cursor, nesting⟩).bind _ = _
  rw [first]
  cases outcome : production cursor with
  | ok value next =>
    rw [bind_of_ok outcome]
    exact second value next outcome
  | error fault stopped =>
    rw [bind_of_error outcome]
    rfl

namespace Follows

theorem lift (production : Parse α) : Follows nesting (liftM production : Reading α) production := fun _ => rfl

theorem pure (value : α) : Follows nesting (pure value) (pure value) := fun _ => rfl

theorem throw (fault : Error) : Follows nesting (throw fault : Reading α) (throw fault) := fun _ => rfl

theorem bind {reading : Reading α} {production : Parse α} {later : α → Reading β} {rest : α → Parse β}
    (first : Follows nesting reading production) (second : ∀ value, Follows nesting (later value) (rest value)) :
    Follows nesting (reading >>= later) (production >>= rest) :=
  fun cursor => (first cursor).bind fun value next _ => second value next

theorem ite {condition : Prop} [Decidable condition] {first second : Reading α} {left right : Parse α}
    (positive : Follows nesting first left) (negative : Follows nesting second right) :
    Follows nesting (if condition then first else second) (if condition then left else right) := by
  split
  · exact positive
  · exact negative

/-- Where a step makes progress, going on for as long as it yields items is a repetition. -/
theorem many (loop : List α → Reading (List α)) {next : List α → Reading (Option α)}
    {step : List α → Parse (Option α)}
    (unrolled : ∀ before, ∃ later, loop before = next before >>= later ∧ later none = Pure.pure [] ∧
      ∀ item, later (some item) = do return item :: (← loop (item :: before)))
    (follows : ∀ before, Follows nesting (next before) (step before))
    (progress : ∀ before cursor item last, step before cursor = .ok (some item) last →
      last.remaining < cursor.remaining) (before : List α) :
    Follows nesting (loop before) (Grammar.many step before) := by
  intro cursor
  induction length : cursor.remaining using Nat.strongRecOn generalizing before cursor with
  | ind length ih =>
    subst length
    obtain ⟨later, unrolled, ended, continued⟩ := unrolled before
    rw [unrolled, Grammar.many_eq step before (progress before)]
    refine (follows before cursor).bind fun found last outcome => ?_
    cases found with
    | none =>
      rw [ended]
      exact pure [] last
    | some item =>
      rw [continued]
      have rest := ih _ (progress before cursor item last outcome) (item :: before) last rfl
      exact rest.bind fun items stopped _ => pure (item :: items) stopped

end Follows

end Calculus

end Descent

/-! ## Progress -/

namespace Grammar

section Progress

variable {α : Type}

/-- What no step takes back no production takes back. -/
theorem forward_of_alike {production : Parse α} (alike : ∀ {R : Cursor → Cursor → Prop}, Cursor.Bisimulation R →
    Alike R (fun _ => R) production production) : Forward production := by
  intro cursor value next read
  have bisim : Cursor.Bisimulation fun first second => first = second ∧ first.remaining ≤ cursor.remaining :=
    .ofInvariant fun here bound => Nat.le_trans here.remaining_stoppedAt_advance bound
  have stopped := (alike bisim).blind.invariant (Nat.le_refl _)
  rwa [read] at stopped

/-- A step past a token makes progress, whatever is read behind it. -/
theorem remaining_lt_of_advance {β : Type} {rest : Parse α} (forward : Forward rest) {cursor last : Cursor}
    {wrap : α → β} {value : β} (inside : cursor.current ≠ .endOfInput)
    (read : (do Cursor.advance; return wrap (← rest) : Parse β) cursor = .ok value last) :
    last.remaining < cursor.remaining := by
  simp only [bind_ok_iff, pure_ok_iff] at read
  obtain ⟨_, next, step, found, _, read, _, rfl⟩ := read
  exact Nat.lt_of_le_of_lt (forward next found _ read) ((Cursor.remaining_advance step).2 inside)

variable (table : OperatorTable) (levels : Nat)

theorem operand_alike {R : Cursor → Cursor → Prop} (bisim : Cursor.Bisimulation R) :
    Alike R (fun _ => R) (operandWithin table levels) (operandWithin table levels) :=
  operandWithin_alike bisim.parallel (bisim.comparable 0 table) levels

theorem forward_operand : Forward (operandWithin table levels) := forward_of_alike (operand_alike table levels)

theorem forward_chain (bound : Int) (first : Expr) :
    Forward (chain table (operandWithin table levels) bound first) :=
  forward_of_alike fun bisim => chain_alike bisim.parallel (operand_alike table levels bisim)
    (bisim.comparable bound table) (.inr fun _ _ _ related => related) first

theorem nextArgument_progress (cursor : Cursor) (item : Expr) (last : Cursor)
    (read : nextArgument table (operandWithin table levels) cursor = .ok (some item) last) :
    last.remaining < cursor.remaining := by
  simp only [nextArgument, peek_bind, ite_ok_iff, pure_ok_iff, reduceCtorEq, false_and, and_false, false_or,
    unexpected_ok_iff, or_false] at read
  obtain ⟨_, comma, read⟩ := read
  have forward : Forward (expression table (operandWithin table levels)) :=
    forward_of_alike fun bisim =>
      expression_alike bisim.parallel (operand_alike table levels bisim) (bisim.comparable 0 table)
  exact remaining_lt_of_advance forward (comma ▸ Token.noConfusion) read

theorem nextBinding_progress (cursor : Cursor) (item : String × Option Expr) (last : Cursor)
    (read : nextBinding table (operandWithin table levels) cursor = .ok (some item) last) :
    last.remaining < cursor.remaining := by
  simp only [nextBinding, peek_bind, ite_ok_iff, pure_ok_iff, reduceCtorEq, false_and, and_false, or_false] at read
  obtain ⟨comma, read⟩ := read
  have forward : Forward (binding table (operandWithin table levels)) :=
    forward_of_alike fun bisim =>
      binding_alike bisim.parallel (operand_alike table levels bisim) (bisim.comparable 0 table)
  exact remaining_lt_of_advance forward (comma ▸ Token.noConfusion) read

end Progress

end Grammar

theorem OperatorTable.Fits.precedence_le {table : OperatorTable} (fits : table.Fits) (token : Token) :
    table.precedence token ≤ maxInt32 := by
  cases isSymbol : token.symbol? with
  | none =>
    simp only [precedence, isSymbol]
    decide
  | some symbol =>
    cases found : table.precedence? symbol with
    | none =>
      simp only [precedence, isSymbol, found]
      decide
    | some precedence =>
      obtain ⟨before, after, split, _⟩ := List.lookup_eq_some_iff.mp found
      simp only [OperatorTable.precedence, isSymbol, found, Option.getD_some]
      exact (fits (symbol, precedence) (split ▸ List.mem_append_right _ (List.mem_cons_self ..))).2

/-! ## Each reading follows its production -/

namespace Descent

open Grammar

section Expressions

variable {reader : Descent} (fits : reader.table.Fits) {nesting levels : Nat}
  (follows : Follows nesting reader.operand (operandWithin reader.table levels))

include fits follows

theorem climb_follows (bound : Int) (lhs : Expr) :
    Follows nesting (reader.climb bound lhs) (chain reader.table (operandWithin reader.table levels) bound lhs) := by
  intro cursor
  have forward := forward_operand reader.table levels
  -- both inner calls start behind at least one token, so what remains of the source carries the induction
  induction length : cursor.remaining using Nat.strongRecOn generalizing bound lhs cursor with
  | ind length ih =>
    subst length
    rw [FollowsAt, climb]
    change (if reader.table.precedence cursor.current < bound then _ else _ : Reading Expr) ⟨cursor, nesting⟩ = _
    by_cases below : reader.table.precedence cursor.current < bound
    · rw [if_pos below, lift, chain_of_lt below]
      rfl
    rw [if_neg below]
    by_cases operator : ∃ symbol, cursor.current = .char symbol
    · obtain ⟨symbol, here⟩ := operator
      have inside : cursor.current ≠ .endOfInput := here ▸ Token.noConfusion
      rw [lift, chain_of_operator forward below here, here]
      refine FollowsAt.bind rfl fun _ next step => (follows next).bind fun rhs last read => ?_
      have moved := (Cursor.remaining_advance step).2 inside
      have kept := forward _ _ _ read
      change (if _ < reader.table.precedence last.current then _ else _ : Reading Expr) ⟨last, nesting⟩ = _
      by_cases tighter : reader.table.precedence (.char symbol) < reader.table.precedence last.current
      · -- a tighter operator stands behind, so this precedence is not the greatest
        have hasNext := Int.lt_of_lt_of_le tighter (fits.precedence_le last.current)
        have next : successor (reader.table.precedence (.char symbol)) =
            Pure.pure (reader.table.precedence (.char symbol) + 1) := funext fun _ => if_pos hasNext
        rw [if_pos tighter, next, pure_bind]
        refine FollowsAt.bind (ih _ (by omega) _ rhs last rfl) fun rhs final read => ?_
        have keptToo := forward_chain reader.table levels _ _ _ _ _ read
        exact ih _ (by omega) bound _ final rfl
      · rw [if_neg tighter, lift, bind_of_ok (chain_of_lt (Int.lt_add_one_of_le (Int.not_lt.mp tighter)))]
        exact ih _ (by omega) bound _ last rfl
    · have noChar : ∀ symbol, cursor.current ≠ .char symbol := fun symbol here => operator ⟨symbol, here⟩
      rw [lift, chain_of_no_operator below noChar]
      cases here : cursor.current with
      | char symbol => exact absurd here (noChar symbol)
      | _ => rfl

theorem expression_follows :
    Follows nesting reader.expression (Grammar.expression reader.table (operandWithin reader.table levels)) := by
  rw [Descent.expression]
  exact follows.bind fun first => climb_follows fits follows 0 first

theorem nextArgument_follows :
    Follows nesting reader.nextArgument (Grammar.nextArgument reader.table (operandWithin reader.table levels)) := by
  rw [Descent.nextArgument]
  refine .bind (.lift peek) fun _ => .ite (.pure none) (.bind (.lift peek) fun _ => .ite ?_ (.lift _))
  exact .bind (.lift Cursor.advance) fun _ => .bind (expression_follows fits follows) fun _ => .pure _

theorem arguments_follows :
    Follows nesting reader.arguments (Grammar.arguments reader.table (operandWithin reader.table levels)) := by
  have more := Follows.many (fun _ => reader.moreArguments)
    (fun _ => ⟨_, moreArguments.eq_def reader, rfl, fun _ => rfl⟩)
    (fun _ => nextArgument_follows fits follows) (fun _ => nextArgument_progress reader.table levels) []
  rw [Descent.arguments]
  refine .bind (.lift peek) fun _ => .ite (.pure []) (.bind (expression_follows fits follows) fun first => ?_)
  exact .bind more fun _ => .pure _

theorem nameOrCall_follows (name : String) :
    Follows nesting (reader.nameOrCall name)
      (Grammar.nameOrCall reader.table (operandWithin reader.table levels) name) := by
  rw [Descent.nameOrCall]
  refine .bind (.lift Cursor.advance) fun _ => .bind (.lift peek) fun _ => .ite ?_ (.pure _)
  refine .bind (.lift Cursor.advance) fun _ => .bind (arguments_follows fits follows) fun _ => ?_
  exact .bind (.lift Cursor.advance) fun _ => .pure _

theorem parenthesized_follows :
    Follows nesting reader.parenthesized (Grammar.parenthesized reader.table (operandWithin reader.table levels)) := by
  rw [Descent.parenthesized]
  refine .bind (.lift Cursor.advance) fun _ => .bind (expression_follows fits follows) fun _ => ?_
  exact .bind (.lift _) fun _ => .pure _

theorem ifElse_follows :
    Follows nesting reader.ifElse (Grammar.ifElse reader.table (operandWithin reader.table levels)) := by
  have expression := expression_follows fits follows
  rw [Descent.ifElse]
  refine .bind (.lift Cursor.advance) fun _ => .bind expression fun _ => .bind (.lift _) fun _ => ?_
  exact .bind expression fun _ => .bind (.lift _) fun _ => .bind expression fun _ => .pure _

theorem step?_follows :
    Follows nesting reader.step? (Grammar.step? reader.table (operandWithin reader.table levels)) := by
  rw [Descent.step?]
  refine .bind (.lift peek) fun _ => .ite ?_ (.pure none)
  exact .bind (.lift Cursor.advance) fun _ => .bind (expression_follows fits follows) fun _ => .pure _

theorem forIn_follows :
    Follows nesting reader.forIn (Grammar.forIn reader.table (operandWithin reader.table levels)) := by
  have expression := expression_follows fits follows
  rw [Descent.forIn]
  refine .bind (.lift Cursor.advance) fun _ => .bind (.lift _) fun _ => .bind (.lift _) fun _ => ?_
  refine .bind expression fun _ => .bind (.lift _) fun _ => .bind expression fun _ => ?_
  refine .bind (step?_follows fits follows) fun _ => .bind (.lift _) fun _ => ?_
  exact .bind expression fun _ => .pure _

theorem binding_follows :
    Follows nesting reader.binding (Grammar.binding reader.table (operandWithin reader.table levels)) := by
  rw [Descent.binding]
  refine .bind (.lift _) fun _ => .bind (.lift peek) fun _ => .ite ?_ (.pure _)
  exact .bind (.lift Cursor.advance) fun _ => .bind (expression_follows fits follows) fun _ => .pure _

theorem nextBinding_follows :
    Follows nesting reader.nextBinding (Grammar.nextBinding reader.table (operandWithin reader.table levels)) := by
  rw [Descent.nextBinding]
  refine .bind (.lift peek) fun _ => .ite ?_ (.pure none)
  exact .bind (.lift Cursor.advance) fun _ => .bind (binding_follows fits follows) fun _ => .pure _

theorem varIn_follows :
    Follows nesting reader.varIn (Grammar.varIn reader.table (operandWithin reader.table levels)) := by
  have more := Follows.many (fun _ => reader.moreBindings)
    (fun _ => ⟨_, moreBindings.eq_def reader, rfl, fun _ => rfl⟩)
    (fun _ => nextBinding_follows fits follows) (fun _ => nextBinding_progress reader.table levels) []
  rw [Descent.varIn]
  refine .bind (.lift Cursor.advance) fun _ => .bind (binding_follows fits follows) fun _ => .bind more fun _ => ?_
  exact .bind (.lift _) fun _ => .bind (expression_follows fits follows) fun _ => .pure _

theorem primary_follows :
    Follows nesting reader.primary (Grammar.primary reader.table (operandWithin reader.table levels)) := by
  rw [Descent.primary]
  refine .bind (.lift peek) fun token => ?_
  by_cases opening : token = .char '('
  · subst opening
    rw [if_pos rfl]
    exact parenthesized_follows fits follows
  rw [if_neg opening]
  cases token with
  | ident name => exact nameOrCall_follows fits follows name
  | number value => exact .bind (.lift Cursor.advance) fun _ => .pure _
  | char symbol =>
    dsimp only
    split
    case h_3 same => exact absurd same opening
    case h_7 => exact .throw _
    all_goals contradiction
  | keyword word =>
    cases word with
    | ifWord => exact ifElse_follows fits follows
    | forWord => exact forIn_follows fits follows
    | varWord => exact varIn_follows fits follows
    | _ => exact .throw _
  | endOfInput => exact .throw _

theorem prefixed_follows :
    Follows nesting reader.prefixed (Grammar.prefixed reader.table (operandWithin reader.table levels)) := by
  rw [Descent.prefixed]
  refine .bind (.lift peek) fun token => ?_
  cases token.symbol? with
  | some symbol =>
    refine .ite (primary_follows fits follows) ?_
    exact .bind (.lift Cursor.advance) fun _ => .bind follows fun _ => .pure _
  | none => exact primary_follows fits follows

end Expressions

/-- However many operands a reader is inside of, it may go as many levels deeper as the grammar has left. -/
theorem operand_follows {reader : Descent} (fits : reader.table.Fits) {nesting levels : Nat}
    (budget : nesting + levels = maxNesting) :
    Follows nesting reader.operand (operandWithin reader.table levels) := by
  induction levels generalizing nesting with
  | zero =>
    intro cursor
    rw [FollowsAt, Descent.operand]
    exact if_pos (Nat.le_of_eq budget.symm)
  | succ levels ih =>
    -- the count rises by one and the levels that are left fall by one, until the operand has been read
    intro cursor
    have deeper : nesting + 1 + levels = maxNesting := by omega
    have inside := prefixed_follows fits (ih deeper) cursor
    have room : ¬ maxNesting ≤ nesting := by omega
    rw [FollowsAt, Descent.operand]
    simp only [if_neg room]
    rw [inside, lift, lift, operandWithin]
    cases Grammar.prefixed reader.table (operandWithin reader.table levels) cursor <;> rfl

/-! ## Forms follow too -/

theorem prototype_follows (reader : Descent) (nesting : Nat) :
    Follows nesting reader.prototype Grammar.prototype := by
  refine .bind (.lift heading) fun ⟨name, _, _⟩ => .bind (.lift _) fun _ => ?_
  refine .bind ?_ fun _ => .bind (.lift _) fun _ => .lift _
  refine .many (reader.moreParameters name)
    (fun before => ⟨_, moreParameters.eq_def reader name before, rfl, fun _ => rfl⟩)
    (fun before => .lift (parameter? name before)) ?_ []
  intro before cursor param last read
  exact (parameter?_some_iff.mp read).2.remaining_lt Token.noConfusion

theorem external_follows (reader : Descent) (nesting : Nat) :
    Follows nesting reader.external Grammar.external :=
  .bind (.lift Cursor.advance) fun _ => reader.prototype_follows nesting

section Outermost

variable {reader : Descent} (fits : reader.table.Fits)

include fits

theorem outerOperand_follows : Follows 0 reader.operand (outerOperand reader.table) :=
  operand_follows fits (Nat.zero_add maxNesting)

theorem body_follows : Follows 0 reader.expression (Grammar.expression reader.table (outerOperand reader.table)) :=
  expression_follows fits (outerOperand_follows fits)

theorem definition_follows : Follows 0 reader.definition (Grammar.definition reader.table) :=
  .bind (.lift Cursor.advance) fun _ => .bind (reader.prototype_follows 0) fun _ =>
    .bind (body_follows fits) fun _ => .pure _

theorem topLevel_follows : Follows 0 reader.topLevel (Grammar.topLevel reader.table) :=
  .bind (body_follows fits) fun _ => .pure _

end Outermost

end Descent

end OpLang

import OpLang.Proofs.DecimalText
import OpLang.Proofs.Delimited

/-! # Texts are unambiguous

Two trees with the same text are the same. The text of an expression shows where it ends, and its first characters
tell an operator, which may itself be a parenthesis, from the name of a construct and from a leaf; so the parts of
two trees with one text can be compared one after the other. A prototype shows its kind in its name, and a precedence
that is not shown is the default.
-/

namespace OpLang

open Visitable

/-! ## Expressions -/

/-- The nodes that a text shows: numbers have an end and no sign, and names and operators can be spelled. -/
def Label.Legible : Label → Prop
  | .number value => ∃ rank, value = .finite false rank
  | .var name | .forIn name _ | .call name _ => IsName name
  | .unary symbol | .binary symbol => IsOperator symbol
  | .varIn bindings => ∀ binding ∈ bindings, IsName binding.1
  | .ifElse | .prototype _ | .function => True

namespace Expr

def Legible (expr : Expr) : Prop := ∀ label ∈ trace expr, label.Legible

variable {name : String} {symbol : Char} {operand lhs rhs condition thenBranch elseBranch start finish body : Expr}
  {args : List Expr} {step : Option Expr} {bindings : List (String × Option Expr)}

theorem legible_number {value : Binary64} : (number value).Legible ↔ ∃ rank, value = .finite false rank := by
  simp [Legible, Label.Legible]

theorem legible_var : (var name).Legible ↔ IsName name := by simp [Legible, Label.Legible]

theorem legible_unary : (unary symbol operand).Legible ↔ IsOperator symbol ∧ operand.Legible := by
  simp [Legible, Label.Legible]

theorem legible_binary :
    (binary symbol lhs rhs).Legible ↔ IsOperator symbol ∧ lhs.Legible ∧ rhs.Legible := by
  simp [Legible, Label.Legible, or_imp, forall_and]

theorem legible_call : (call name args).Legible ↔ IsName name ∧ ∀ arg ∈ args, arg.Legible := by
  simp only [Legible, trace_call, List.forall_mem_cons, List.forall_mem_flatMap]
  rfl

theorem legible_ifElse : (ifElse condition thenBranch elseBranch).Legible ↔
    condition.Legible ∧ thenBranch.Legible ∧ elseBranch.Legible := by
  simp only [Legible, trace_ifElse, List.forall_mem_cons, List.forall_mem_append, and_assoc]
  exact and_iff_right trivial

theorem legible_forIn : (forIn name start finish step body).Legible ↔
    IsName name ∧ start.Legible ∧ finish.Legible ∧ (∀ amount ∈ step, amount.Legible) ∧ body.Legible := by
  simp only [Legible, trace_forIn, List.forall_mem_cons, List.forall_mem_append, mem_traceOfOption, and_assoc]
  simp only [forall_exists_index, and_imp]
  constructor
  · rintro ⟨named, first, last, stride, inner⟩
    exact ⟨named, first, last, fun amount some label member => stride label amount some member, inner⟩
  · rintro ⟨named, first, last, stride, inner⟩
    exact ⟨named, first, last, fun label amount some member => stride amount some label member, inner⟩

/-- A binding whose name can be spelled and whose initializer, if there is one, is legible. -/
def LegibleBinding (binding : String × Option Expr) : Prop :=
  IsName binding.1 ∧ ∀ init ∈ binding.2, init.Legible

theorem legible_varIn :
    (varIn bindings body).Legible ↔ (∀ binding ∈ bindings, LegibleBinding binding) ∧ body.Legible := by
  simp only [Legible, trace_varIn, List.forall_mem_cons, List.forall_mem_append, List.forall_mem_flatMap,
    mem_traceOfOption, Label.Legible, List.forall_mem_map, LegibleBinding, forall_exists_index, and_imp]
  constructor
  · rintro ⟨names, inits, inner⟩
    exact ⟨fun binding member =>
      ⟨names binding member, fun init some label inside => inits binding member label init some inside⟩, inner⟩
  · rintro ⟨each, inner⟩
    exact ⟨fun binding member => (each binding member).1,
      fun binding member label init some inside => (each binding member).2 init some label inside, inner⟩

/-- The parts of a tree come before it. -/
theorem parts_induction {motive : Expr → Prop} (number : ∀ value, motive (.number value))
    (var : ∀ name, motive (.var name))
    (unary : ∀ symbol operand, motive operand → motive (.unary symbol operand))
    (binary : ∀ symbol lhs rhs, motive lhs → motive rhs → motive (.binary symbol lhs rhs))
    (call : ∀ callee args, (∀ arg ∈ args, motive arg) → motive (.call callee args))
    (ifElse : ∀ condition thenBranch elseBranch, motive condition → motive thenBranch → motive elseBranch →
      motive (.ifElse condition thenBranch elseBranch))
    (forIn : ∀ name start finish step body, motive start → motive finish → (∀ amount ∈ step, motive amount) →
      motive body → motive (.forIn name start finish step body))
    (varIn : ∀ bindings body, (∀ binding ∈ bindings, ∀ init ∈ binding.2, motive init) → motive body →
      motive (.varIn bindings body))
    (expr : Expr) : motive expr :=
  @Expr.rec motive (fun args => ∀ arg ∈ args, motive arg) (fun part => ∀ amount ∈ part, motive amount)
    (fun bindings => ∀ binding ∈ bindings, ∀ init ∈ binding.2, motive init)
    (fun binding => ∀ init ∈ binding.2, motive init)
    number var unary binary call ifElse forIn varIn
    (List.forall_mem_nil _) (fun _ _ head tail => List.forall_mem_cons.mpr ⟨head, tail⟩)
    (fun _ member => nomatch member) (fun _ here _ member => Option.some.inj member ▸ here)
    (List.forall_mem_nil _) (fun _ _ head tail => List.forall_mem_cons.mpr ⟨head, tail⟩)
    (fun _ _ part => part) expr

/-! ### Written parts -/

/-- The written form of a binding. -/
def bindingText : String × Option Expr → String
  | (name, some init) => "(" ++ name ++ " " ++ init.text ++ ")"
  | (name, none) => "(" ++ name ++ ")"

theorem bindingTexts_eq_map (bindings : List (String × Option Expr)) :
    bindingTexts bindings = bindings.map bindingText := by
  induction bindings with
  | nil => rfl
  | cons binding bindings ih =>
    obtain ⟨name, _ | init⟩ := binding <;> rw [bindingTexts, ih, List.map_cons, bindingText]

theorem toList_argsText (args : List Expr) : (argsText args).toList = afterSpaces text args := by
  induction args with
  | nil => rfl
  | cons arg args ih => simp [argsText, ih, afterSpaces]

theorem toList_text_unary :
    (unary symbol operand).text.toList = '(' :: symbol :: ' ' :: (operand.text.toList ++ [')']) := by
  simp [text]

theorem toList_text_binary : (binary symbol lhs rhs).text.toList =
    '(' :: symbol :: ' ' :: (lhs.text.toList ++ ' ' :: (rhs.text.toList ++ [')'])) := by
  simp [text]

theorem toList_text_call :
    (call name args).text.toList = "(call ".toList ++ (name.toList ++ (afterSpaces text args ++ [')'])) := by
  simp [text, toList_argsText]

theorem toList_text_ifElse : (ifElse condition thenBranch elseBranch).text.toList =
    "(if ".toList ++ (condition.text.toList ++ ' ' :: (thenBranch.text.toList ++ ' ' ::
      (elseBranch.text.toList ++ [')']))) := by
  simp [text]

theorem toList_text_forIn : (forIn name start finish step body).text.toList =
    "(for (".toList ++ (name.toList ++ ' ' :: (start.text.toList ++ ' ' :: (finish.text.toList ++
      (afterSpaces text step.toList ++ ')' :: ' ' :: (body.text.toList ++ [')']))))) := by
  cases step <;> simp [text, stepText, afterSpaces]

theorem toList_text_varIn : (varIn bindings body).text.toList =
    "(var (".toList ++ ((spaced (bindings.map bindingText)).toList ++ ')' :: ' ' :: (body.text.toList ++ [')'])) := by
  simp [text, bindingTexts_eq_map]

/-! ### First characters -/

/-- What the first characters of a text tell of the tree. -/
inductive Opening where
  | numeral
  | name
  | operator (symbol : Char)
  | call
  | ifElse
  | forIn
  | varIn

def opening : Expr → Opening
  | number _ => .numeral
  | var _ => .name
  | unary symbol _ | binary symbol _ _ => .operator symbol
  | call _ _ => .call
  | ifElse _ _ _ => .ifElse
  | forIn _ _ _ _ _ => .forIn
  | varIn _ _ => .varIn

namespace Opening

/-- The character behind a parenthesis is an operator or the first one of the name of a construct. -/
def ofHead : Char → Opening
  | 'c' => .call
  | 'i' => .ifElse
  | 'f' => .forIn
  | 'v' => .varIn
  | symbol => .operator symbol

def ofChars : List Char → Opening
  | [] => .name
  | [first] => if isNumberChar first then .numeral else .name
  | first :: second :: _ =>
    if first = '(' then ofHead second else if isNumberChar first then .numeral else .name

theorem ofHead_operator (operator : IsOperator symbol) : ofHead symbol = .operator symbol := by
  have noLetter := operator.not_isWordChar
  unfold ofHead
  split
  · exact absurd noLetter (by decide)
  · exact absurd noLetter (by decide)
  · exact absurd noLetter (by decide)
  · exact absurd noLetter (by decide)
  · rfl

theorem ofChars_cons {first : Char} (notOpen : first ≠ '(') (rest : List Char) :
    ofChars (first :: rest) = if isNumberChar first then .numeral else .name := by
  cases rest with
  | nil => rfl
  | cons => rw [ofChars, if_neg notOpen]

theorem ofChars_text {expr : Expr} (legible : expr.Legible) (rest : List Char) :
    ofChars (expr.text.toList ++ rest) = expr.opening := by
  cases expr with
  | number value =>
    obtain ⟨rank, rfl⟩ := legible_number.mp legible
    obtain ⟨first, more, whole, number⟩ := Binary64.begins_text rank
    rw [text, whole, List.cons_append, ofChars_cons, if_pos number]
    · rfl
    · rintro rfl
      exact absurd number (by decide)
  | var name =>
    obtain ⟨first, more, whole, letter⟩ := (legible_var.mp legible).begins
    rw [text, whole, List.cons_append, ofChars_cons, if_neg]
    · rfl
    · intro number
      rw [(isNumberChar_classes number).1] at letter
      cases letter
    · rintro rfl
      exact absurd letter (by decide)
  | unary symbol operand =>
    rw [toList_text_unary]
    exact ofHead_operator (legible_unary.mp legible).1
  | binary symbol lhs rhs =>
    rw [toList_text_binary]
    exact ofHead_operator (legible_binary.mp legible).1
  | call callee args =>
    rw [toList_text_call]
    rfl
  | ifElse condition thenBranch elseBranch =>
    rw [toList_text_ifElse]
    rfl
  | forIn name start finish step body =>
    rw [toList_text_forIn]
    rfl
  | varIn bindings body =>
    rw [toList_text_varIn]
    rfl

end Opening

theorem opening_eq {expr other : Expr} (legible : expr.Legible) (isLegible : other.Legible)
    {rest otherRest : List Char} (same : expr.text.toList ++ rest = other.text.toList ++ otherRest) :
    expr.opening = other.opening := by
  rw [← Opening.ofChars_text legible rest, same, Opening.ofChars_text isLegible]

/-! ### Trees -/

theorem bindingText_begins (binding : String × Option Expr) :
    ∃ first more, (bindingText binding).toList = first :: more ∧ first ≠ ')' := by
  obtain ⟨name, _ | init⟩ := binding
  · exact ⟨'(', name.toList ++ [')'], by simp [bindingText], by decide⟩
  · exact ⟨'(', name.toList ++ ' ' :: (init.text.toList ++ [')']), by simp [bindingText], by decide⟩

/-- A binding is told from others if its initializer is. -/
theorem delimited_binding {binding : String × Option Expr} (legible : LegibleBinding binding)
    (delimited : ∀ init ∈ binding.2, Delimited Legible text init) :
    Delimited LegibleBinding bindingText binding := by
  obtain ⟨name, init?⟩ := binding
  rintro ⟨otherName, otherInit?⟩ rest otherRest isLegible _ _ same
  have named := IsName.delimited legible.1
  cases init? with
  | none =>
    cases otherInit? with
    | none =>
      simp only [bindingText, String.toList_append, List.append_assoc] at same
      obtain ⟨rfl, remaining⟩ := named.close isLegible.1 (List.cons.inj same).2
      exact ⟨rfl, remaining⟩
    | some otherInit =>
      simp only [bindingText, String.toList_append, List.append_assoc] at same
      exact (named.close_ne_space isLegible.1 (List.cons.inj same).2).elim
  | some init =>
    cases otherInit? with
    | none =>
      simp only [bindingText, String.toList_append, List.append_assoc] at same
      exact (named.space_ne_close isLegible.1 (List.cons.inj same).2).elim
    | some otherInit =>
      simp only [bindingText, String.toList_append, List.append_assoc] at same
      obtain ⟨rfl, values⟩ := named.space isLegible.1 (List.cons.inj same).2
      obtain ⟨rfl, remaining⟩ := (delimited init rfl).close (isLegible.2 otherInit rfl) values
      exact ⟨rfl, remaining⟩

theorem delimited_number {value : Binary64} (legible : (number value).Legible) :
    Delimited Legible text (number value) := by
  intro other rest otherRest isLegible follows otherFollows same
  have opening := opening_eq legible isLegible same
  cases other with
  | number otherValue =>
    obtain ⟨rank, rfl⟩ := legible_number.mp legible
    obtain ⟨otherRank, rfl⟩ := legible_number.mp isLegible
    have free (rank : Fin rankCount) : ∀ c ∈ (Binary64.finite false rank).text.toList, ¬ IsStop c :=
      fun _ member => not_isStop_of_isNumberChar (Binary64.isNumberChar_of_mem_text member)
    obtain ⟨chars, remaining⟩ := eq_of_append_stop (free rank) (free otherRank) follows otherFollows same
    obtain rfl := Binary64.text_finite_injective (String.toList_inj.mp chars)
    exact ⟨rfl, remaining⟩
  | _ => cases opening

theorem delimited_var (legible : (var name).Legible) : Delimited Legible text (var name) := by
  intro other rest otherRest isLegible follows otherFollows same
  have opening := opening_eq legible isLegible same
  cases other with
  | var otherName =>
    have named := legible_var.mp legible
    have isNamed := legible_var.mp isLegible
    obtain ⟨rfl, remaining⟩ := named.delimited otherName _ _ isNamed follows otherFollows same
    exact ⟨rfl, remaining⟩
  | _ => cases opening

/-- Behind its first operand a unary expression is closed, and a binary one goes on. -/
theorem delimited_unary (legible : (unary symbol operand).Legible) (inner : Delimited Legible text operand) :
    Delimited Legible text (unary symbol operand) := by
  intro other rest otherRest isLegible follows otherFollows same
  have opening := opening_eq legible isLegible same
  cases other with
  | unary otherSymbol otherOperand =>
    cases opening
    simp only [toList_text_unary, List.cons_append, List.append_assoc, List.cons.injEq, true_and] at same
    obtain ⟨rfl, remaining⟩ := inner.close (legible_unary.mp isLegible).2 same
    exact ⟨rfl, remaining⟩
  | binary otherSymbol lhs rhs =>
    cases opening
    simp only [toList_text_unary, toList_text_binary, List.cons_append, List.append_assoc, List.cons.injEq,
      true_and] at same
    exact (inner.close_ne_space (legible_binary.mp isLegible).2.1 same).elim
  | _ => cases opening

theorem delimited_binary (legible : (binary symbol lhs rhs).Legible) (left : Delimited Legible text lhs)
    (right : Delimited Legible text rhs) : Delimited Legible text (binary symbol lhs rhs) := by
  intro other rest otherRest isLegible follows otherFollows same
  have opening := opening_eq legible isLegible same
  cases other with
  | unary otherSymbol otherOperand =>
    cases opening
    simp only [toList_text_unary, toList_text_binary, List.cons_append, List.append_assoc, List.cons.injEq,
      true_and] at same
    exact (left.space_ne_close (legible_unary.mp isLegible).2 same).elim
  | binary otherSymbol otherLhs otherRhs =>
    cases opening
    obtain ⟨_, isLeft, isRight⟩ := legible_binary.mp isLegible
    simp only [toList_text_binary, List.cons_append, List.append_assoc, List.cons.injEq, true_and] at same
    obtain ⟨rfl, afterLeft⟩ := left.space isLeft same
    obtain ⟨rfl, remaining⟩ := right.close isRight afterLeft
    exact ⟨rfl, remaining⟩
  | _ => cases opening

theorem delimited_call (legible : (call name args).Legible) (each : ∀ arg ∈ args, Delimited Legible text arg) :
    Delimited Legible text (call name args) := by
  intro other rest otherRest isLegible follows otherFollows same
  have opening := opening_eq legible isLegible same
  cases other with
  | call otherCallee otherArgs =>
    have named := (legible_call.mp legible).1
    obtain ⟨isNamed, areLegible⟩ := legible_call.mp isLegible
    simp only [toList_text_call, List.append_assoc, List.append_cancel_left_eq] at same
    obtain ⟨rfl, lists⟩ := named.delimited otherCallee _ _ isNamed
      (follows_afterSpaces args rest) (follows_afterSpaces otherArgs otherRest) same
    obtain ⟨rfl, remaining⟩ := eq_of_afterSpaces each areLegible lists
    exact ⟨rfl, remaining⟩
  | _ => cases opening

theorem delimited_ifElse (legible : (ifElse condition thenBranch elseBranch).Legible)
    (test : Delimited Legible text condition) (positive : Delimited Legible text thenBranch)
    (negative : Delimited Legible text elseBranch) :
    Delimited Legible text (ifElse condition thenBranch elseBranch) := by
  intro other rest otherRest isLegible follows otherFollows same
  have opening := opening_eq legible isLegible same
  cases other with
  | ifElse otherCondition otherThen otherElse =>
    obtain ⟨isTest, isPositive, isNegative⟩ := legible_ifElse.mp isLegible
    simp only [toList_text_ifElse, List.append_assoc, List.append_cancel_left_eq, List.cons_append] at same
    obtain ⟨rfl, afterTest⟩ := test.space isTest same
    obtain ⟨rfl, afterPositive⟩ := positive.space isPositive afterTest
    obtain ⟨rfl, remaining⟩ := negative.close isNegative afterPositive
    exact ⟨rfl, remaining⟩
  | _ => cases opening

theorem delimited_forIn (legible : (forIn name start finish step body).Legible)
    (first : Delimited Legible text start) (last : Delimited Legible text finish)
    (stride : ∀ amount ∈ step, Delimited Legible text amount) (inner : Delimited Legible text body) :
    Delimited Legible text (forIn name start finish step body) := by
  intro other rest otherRest isLegible follows otherFollows same
  have opening := opening_eq legible isLegible same
  cases other with
  | forIn otherName otherStart otherFinish otherStep otherBody =>
    have named := (legible_forIn.mp legible).1
    obtain ⟨isNamed, isFirst, isLast, isStride, isInner⟩ := legible_forIn.mp isLegible
    simp only [toList_text_forIn, List.append_assoc, List.append_cancel_left_eq, List.cons_append] at same
    obtain ⟨rfl, afterName⟩ := named.delimited.space isNamed same
    obtain ⟨rfl, afterFirst⟩ := first.space isFirst afterName
    obtain ⟨rfl, afterLast⟩ := last otherFinish _ _ isLast
      (follows_afterSpaces _ _) (follows_afterSpaces _ _) afterFirst
    -- a step is a list of at most one item
    obtain ⟨steps, afterStep⟩ := eq_of_afterSpaces (fun amount member => stride amount (by simpa using member))
      (fun amount member => isStride amount (by simpa using member)) afterLast
    obtain rfl : step = otherStep := by simpa using congrArg List.head? steps
    obtain ⟨rfl, remaining⟩ := inner.close isInner (List.cons.inj afterStep).2
    exact ⟨rfl, remaining⟩
  | _ => cases opening

theorem delimited_varIn (legible : (varIn bindings body).Legible)
    (each : ∀ binding ∈ bindings, Delimited LegibleBinding bindingText binding)
    (inner : Delimited Legible text body) : Delimited Legible text (varIn bindings body) := by
  intro other rest otherRest isLegible follows otherFollows same
  have opening := opening_eq legible isLegible same
  cases other with
  | varIn otherBindings otherBody =>
    obtain ⟨isList, isInner⟩ := legible_varIn.mp isLegible
    simp only [toList_text_varIn, List.append_assoc, List.append_cancel_left_eq, List.cons_append] at same
    obtain ⟨rfl, afterList⟩ := eq_of_spaced each isList (fun binding _ => bindingText_begins binding) same
    obtain ⟨rfl, remaining⟩ := inner.close isInner (List.cons.inj afterList).2
    exact ⟨rfl, remaining⟩
  | _ => cases opening

/-- Whatever follows a legible expression, its text is that of no other one. -/
theorem delimited {expr : Expr} (legible : expr.Legible) : Delimited Legible text expr := by
  induction expr using parts_induction with
  | number value => exact delimited_number legible
  | var name => exact delimited_var legible
  | unary symbol operand inner => exact delimited_unary legible (inner (legible_unary.mp legible).2)
  | binary symbol lhs rhs left right =>
    obtain ⟨_, legibleLeft, legibleRight⟩ := legible_binary.mp legible
    exact delimited_binary legible (left legibleLeft) (right legibleRight)
  | call callee args each =>
    have legibleArgs := (legible_call.mp legible).2
    exact delimited_call legible fun arg member => each arg member (legibleArgs arg member)
  | ifElse condition thenBranch elseBranch test positive negative =>
    obtain ⟨legibleTest, legiblePositive, legibleNegative⟩ := legible_ifElse.mp legible
    exact delimited_ifElse legible (test legibleTest) (positive legiblePositive) (negative legibleNegative)
  | forIn name start finish step body first last stride inner =>
    obtain ⟨_, legibleFirst, legibleLast, legibleStride, legibleInner⟩ := legible_forIn.mp legible
    apply delimited_forIn legible
    · exact first legibleFirst
    · exact last legibleLast
    · exact fun amount member => stride amount member (legibleStride amount member)
    · exact inner legibleInner
  | varIn bindings body list inner =>
    obtain ⟨legibleList, legibleInner⟩ := legible_varIn.mp legible
    apply delimited_varIn legible
    · intro binding member
      have legibleBinding := legibleList binding member
      exact delimited_binding legibleBinding fun init some => list binding member init some (legibleBinding.2 init some)
    · exact inner legibleInner

end Expr

/-! ## Prototypes -/

theorem Phrase.Heading.precedence_eq {tokens : List Token} {name : String} {kind : OperatorKind} {precedence : Int}
    (heading : Heading tokens name kind precedence) (notInfix : kind ≠ .infixOp) : precedence = defaultPrecedence := by
  cases heading with
  | function | prefixOp => rfl
  | infixOp | infixWith => exact (notInfix rfl).elim

namespace Prototype

/-- The prototype of a top-level expression or of a function that is named, which shows its precedence or has the
default one. -/
structure Legible (proto : Prototype) : Prop where
  named : proto.WellFormed ∨ proto = { name := anonymousName, params := [] }
  precedence_eq : proto.kind ≠ .infixOp → proto.precedence = defaultPrecedence

/-- What a text shows between the name and the parameters. -/
def precedenceText (proto : Prototype) : String :=
  if proto.kind = .infixOp then toString proto.precedence ++ " " else ""

theorem toList_text (proto : Prototype) : proto.text.toList =
    "(proto ".toList ++ (proto.name.toList ++ ' ' :: (proto.precedenceText.toList ++ '(' ::
      ((spaced proto.params).toList ++ ")".toList ++ ")".toList))) := by
  rw [text, precedenceText]
  split <;> simp

namespace Legible

variable {proto other : Prototype} (legible : proto.Legible) (isLegible : other.Legible)

include legible

theorem params : ∀ param ∈ proto.params, IsName param := by
  rcases legible.named with wellFormed | rfl
  · exact wellFormed.params
  · exact List.forall_mem_nil _

/-- No operator is a space, so that the name of an operator function has none either. -/
theorem ne_space_of_mem_name : ∀ c ∈ proto.name.toList, ¬ c = ' ' := by
  have wordFree {c : Char} (wordChar : isWordChar c = true) : ¬ c = ' ' :=
    fun same => not_isStop_of_isWordChar wordChar (Or.inl same)
  have operatorFree {symbol : Char} (operator : IsOperator symbol) : ¬ symbol = ' ' := by
    rintro rfl
    exact absurd operator.notBlank (by decide)
  rcases legible.named with wellFormed | rfl
  · cases kind : proto.kind with
    | none => exact fun c member => wordFree ((wellFormed.function kind).isWordChar_of_mem member)
    | prefixOp =>
      obtain ⟨symbol, _, operator, named, _⟩ := wellFormed.prefixOp kind
      rw [named, unaryName, String.toList_append, List.forall_mem_append]
      exact ⟨by simp, by simpa using operatorFree operator⟩
    | infixOp =>
      obtain ⟨symbol, _, operator, named, _⟩ := wellFormed.infixOp kind
      rw [named, binaryName, String.toList_append, List.forall_mem_append]
      exact ⟨by simp, by simpa using operatorFree operator⟩
  · simp [anonymousName]

theorem exists_precedence (isInfix : proto.kind = .infixOp) : ∃ amount : Nat, proto.precedence = amount := by
  rcases legible.named with wellFormed | rfl
  · obtain ⟨_, _, _, _, _, least, _⟩ := wellFormed.infixOp isInfix
    exact Int.eq_ofNat_of_zero_le (Int.le_trans (by decide) least)
  · cases isInfix

include isLegible

theorem kind_eq (same : proto.name = other.name) : proto.kind = other.kind := by
  rcases legible.named with wellFormed | rfl
  · rcases isLegible.named with isWellFormed | rfl
    · exact (wellFormed.kind_and_operator_of_name_eq isWellFormed same).1
    · exact (wellFormed.name_ne_anonymousName same).elim
  · rcases isLegible.named with isWellFormed | rfl
    · exact (isWellFormed.name_ne_anonymousName same.symm).elim
    · rfl

/-- Of prototypes of one kind, what is shown between name and parameters gives the precedence. -/
theorem precedence_eq_of_text {rest otherRest : List Char} (kinds : proto.kind = other.kind)
    (same : proto.precedenceText.toList ++ '(' :: rest = other.precedenceText.toList ++ '(' :: otherRest) :
    proto.precedence = other.precedence ∧ rest = otherRest := by
  by_cases isInfix : proto.kind = .infixOp
  · have otherInfix := kinds ▸ isInfix
    obtain ⟨amount, precedence⟩ := legible.exists_precedence isInfix
    obtain ⟨otherAmount, otherPrecedence⟩ := isLegible.exists_precedence otherInfix
    have digits (amount : Nat) : (toString (amount : Int)).toList = Nat.toDigits 10 amount :=
      Nat.toList_repr
    have free (amount : Nat) : ∀ c ∈ Nat.toDigits 10 amount, ¬ c = ' ' := by
      rintro c member rfl
      exact absurd (Decimal.all_isDigit_toDigits amount ' ' member) (by decide)
    simp only [precedenceText, if_pos isInfix, if_pos otherInfix, precedence, otherPrecedence, String.toList_append,
      digits, List.append_assoc] at same
    obtain ⟨written, remaining⟩ := eq_of_append_stop (free amount) (free otherAmount) (by simp) (by simp) same
    have value := congrArg (fun run => Nat.ofDigitChars 10 run 0) written
    simp only [Nat.ofDigitChars_ten_toDigits] at value
    rw [precedence, otherPrecedence, value]
    exact ⟨rfl, by simpa using remaining⟩
  · have otherNot := kinds ▸ isInfix
    simp only [precedenceText, if_neg isInfix, if_neg otherNot] at same
    rw [legible.precedence_eq isInfix, isLegible.precedence_eq otherNot]
    exact ⟨rfl, (List.cons.inj same).2⟩

end Legible

/-- The text of a prototype is that of no other one. -/
theorem Legible.delimited {proto : Prototype} (legible : proto.Legible) : Delimited Legible text proto := by
  intro other rest otherRest isLegible _ _ same
  simp only [toList_text, List.append_assoc, List.append_cancel_left_eq, List.cons_append] at same
  obtain ⟨names, afterName⟩ := eq_of_append_stop legible.ne_space_of_mem_name isLegible.ne_space_of_mem_name
    (by simp) (by simp) same
  have named := String.toList_inj.mp names
  have kinds := legible.kind_eq isLegible named
  obtain ⟨precedences, afterPrecedence⟩ :=
    legible.precedence_eq_of_text isLegible kinds (List.cons.inj afterName).2
  have begins : ∀ param, param ∈ proto.params ∨ param ∈ other.params →
      ∃ first more, param.toList = first :: more ∧ first ≠ ')' := by
    intro param member
    obtain ⟨first, more, whole, letter⟩ := (member.elim (legible.params param) (isLegible.params param)).begins
    refine ⟨first, more, whole, ?_⟩
    rintro rfl
    exact absurd letter (by decide)
  have lists : (spaced (proto.params.map id)).toList ++ ')' :: ')' :: rest =
      (spaced (other.params.map id)).toList ++ ')' :: ')' :: otherRest := by simpa using afterPrecedence
  obtain ⟨params, remaining⟩ :=
    eq_of_spaced (fun param member => (legible.params param member).delimited) isLegible.params begins lists
  refine ⟨?_, (List.cons.inj remaining).2⟩
  obtain ⟨name, params, kind, precedence⟩ := proto
  cases named
  cases kinds
  cases precedences
  cases params
  rfl

end Prototype

/-! ## Functions -/

/-- The trees whose numbers all have an end. -/
def HasFiniteNumbers {α : Type} [Visitable α] (tree : α) : Prop :=
  ∀ value, .number value ∈ trace tree → value.IsFinite

theorem Expr.WellFormed.legible {table : OperatorTable} {expr : Expr} (wellFormed : expr.WellFormed table)
    (finite : HasFiniteNumbers expr) : expr.Legible := by
  intro label member
  have proper := wellFormed label member
  cases label with
  | number value =>
    obtain ⟨negative, rank, rfl⟩ := finite value member
    obtain rfl : negative = false := proper
    exact ⟨rank, rfl⟩
  | unary | binary => exact proper.1
  | varIn => exact proper.2
  | var | forIn | call => exact proper
  | ifElse | prototype | function => trivial

theorem HasFiniteNumbers.body {function : Function} (finite : HasFiniteNumbers function) :
    HasFiniteNumbers function.body := by
  intro value member
  exact finite value (by simp [member])

theorem Function.eq_of_text {function other : Function} (legible : function.proto.Legible)
    (legibleBody : function.body.Legible) (isLegible : other.proto.Legible) (isLegibleBody : other.body.Legible)
    (same : function.text = other.text) : function = other := by
  have chars := congrArg String.toList same
  simp only [text, String.toList_append, List.append_assoc, List.append_cancel_left_eq] at chars
  obtain ⟨protos, bodies⟩ := legible.delimited.space isLegible chars
  obtain ⟨inner, _⟩ := (Expr.delimited legibleBody).close isLegibleBody bodies
  obtain ⟨proto, body⟩ := function
  cases protos
  cases inner
  rfl

/-! ## Forms -/

namespace Form

/-- The function that is delivered with a form. -/
def function? : Form → Option Function
  | .definition function | .expression function => some function
  | .external _ => none

/-- The prototype that is delivered with a form, by itself or in a function. -/
def proto : Form → Prototype
  | .definition function | .expression function => function.proto
  | .external proto => proto

theorem proto_eq_of_function? {form : Form} {function : Function} (delivered : form.function? = some function) :
    form.proto = function.proto := by
  cases form with
  | definition | expression => exact Option.some.inj delivered ▸ rfl
  | external => cases delivered

theorem Written.legible_proto {form : Form} (written : form.Written) : form.proto.Legible := by
  obtain ⟨table, tokens, next, phrase, spelled⟩ := written
  have wellFormed : form.WellFormed table := Phrase.OfForm.yields table _ _ _ phrase spelled
  cases phrase with
  | definition signature =>
    obtain ⟨heading, _⟩ := signature
    exact ⟨Or.inl wellFormed.1, heading.precedence_eq⟩
  | external signature =>
    obtain ⟨heading, _⟩ := signature
    exact ⟨Or.inl wellFormed, heading.precedence_eq⟩
  | expression => exact ⟨Or.inr rfl, fun _ => rfl⟩

theorem Written.legible_body {form : Form} {function : Function} (written : form.Written)
    (delivered : form.function? = some function) (finite : HasFiniteNumbers function) :
    function.body.Legible := by
  obtain ⟨table, under⟩ : ∃ table, form.WrittenUnder table := written
  have wellFormed := under.wellFormed
  cases form with
  | definition | expression =>
    obtain rfl := Option.some.inj delivered
    exact wellFormed.2.legible finite.body
  | external => cases delivered

end Form

/-- Two functions that sources deliver have the same text only if they are the same, and so do two prototypes,
delivered by themselves or in functions. The numbers in the functions have to be finite: an infinite one is
written like a variable. -/
theorem texts_unambiguous (table otherTable : OperatorTable) (source other : String) :
    ∀ form ∈ (parse table source).forms, ∀ otherForm ∈ (parse otherTable other).forms,
      (∀ function otherFunction, form.function? = some function → otherForm.function? = some otherFunction →
        HasFiniteNumbers function → HasFiniteNumbers otherFunction → function.text = otherFunction.text →
          function = otherFunction) ∧
      (form.proto.text = otherForm.proto.text → form.proto = otherForm.proto) := by
  intro form member otherForm otherMember
  have written := (parse_record table source).2.2 form member
  have otherWritten := (parse_record otherTable other).2.2 otherForm otherMember
  have legible := written.legible_proto
  have isLegible := otherWritten.legible_proto
  refine ⟨fun function otherFunction delivered otherDelivered finite otherFinite same => ?_,
    legible.delimited.text_injective isLegible⟩
  rw [Form.proto_eq_of_function? delivered] at legible
  rw [Form.proto_eq_of_function? otherDelivered] at isLegible
  exact Function.eq_of_text legible (written.legible_body delivered finite) isLegible
    (otherWritten.legible_body otherDelivered otherFinite) same

/-- An operator may be a closing parenthesis; its definition has one text, however it is written. -/
theorem texts_unambiguous_close :
    ∃ function otherFunction,
      (parse .standard "def binary ) 5 (a b) for i = 0, 1.50 in a").forms = [.definition function] ∧
      (parse .standard "def binary) 5.25 (a b) (for i=0., 1.5 in (a))").forms = [.definition otherFunction] ∧
      otherFunction.text = "(def (proto binary) 5 (a b)) (for (i 0 1.5) a))" ∧ function = otherFunction := by
  let loop (first last : Fin rankCount) : Function := ⟨⟨"binary)", ["a", "b"], .infixOp, 5⟩,
    .forIn "i" (.number (.finite false first)) (.number (.finite false last)) none (.var "a")⟩
  have finite (first last : Fin rankCount) : HasFiniteNumbers (loop first last) := by
    simp [HasFiniteNumbers, loop, Expr.traceOfOption, Binary64.IsFinite]
  let zeroToOneAndAHalf := loop ⟨0, by decide⟩ ⟨0x3FF8000000000000, by decide⟩
  have first : (parse .standard "def binary ) 5 (a b) for i = 0, 1.50 in a").forms =
      [.definition zeroToOneAndAHalf] := by decide +kernel
  have second : (parse .standard "def binary) 5.25 (a b) (for i=0., 1.5 in (a))").forms =
      [.definition zeroToOneAndAHalf] := by decide +kernel
  refine ⟨zeroToOneAndAHalf, zeroToOneAndAHalf, first, second, by decide +kernel, ?_⟩
  exact (texts_unambiguous .standard .standard _ _ _ (first ▸ List.mem_cons_self ..) _
    (second ▸ List.mem_cons_self ..)).1 _ _ rfl rfl (finite _ _) (finite _ _) rfl

/-- Without an end a number cannot be told from a variable. -/
example : (Expr.number (.infinite false)).text = (Expr.var "inf").text := rfl

end OpLang

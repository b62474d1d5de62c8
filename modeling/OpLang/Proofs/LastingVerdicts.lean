import OpLang.Proofs.Demands
import OpLang.Proofs.ResolverHistory

/-! # Verdicts that last

What was known once is known ever after, with the same number of parameters. So a tree in which no fault was found has
none later on, whatever forms have been received in between.
-/

namespace OpLang

open Visitable

/-! ## Retention -/

namespace FunctionTable

variable {before after last : FunctionTable}

/-- All names that were known are known with the same numbers of parameters. -/
def Retains (before after : FunctionTable) : Prop :=
  ∀ name known, before.find? name = some known →
    ∃ now, after.find? name = some now ∧ now.params.length = known.params.length

namespace Retains

theorem of_find?_eq (same : after.find? = before.find?) : before.Retains after :=
  fun _ known found => ⟨known, same ▸ found, rfl⟩

theorem refl (functions : FunctionTable) : functions.Retains functions := of_find?_eq rfl

theorem trans (first : before.Retains after) (second : after.Retains last) : before.Retains last := by
  intro name known found
  obtain ⟨now, foundNow, same⟩ := first name known found
  obtain ⟨later, foundLater, sameLater⟩ := second name now foundNow
  exact ⟨later, foundLater, sameLater.trans same⟩

theorem insert {functions : FunctionTable} {proto : Prototype} (admits : functions.Admits proto) :
    functions.Retains (functions.insert proto.name proto) := by
  intro name known found
  rw [find?_insert]
  split
  · next same => exact ⟨proto, rfl, (admits known (same ▸ found)).symm⟩
  · exact ⟨known, found, rfl⟩

theorem knows (retains : before.Retains after) {name : String} (known : before.knows name) : after.knows name := by
  obtain ⟨proto, found⟩ := knows_iff.mp known
  obtain ⟨now, foundNow, _⟩ := retains name proto found
  exact knows_iff.mpr ⟨now, foundNow⟩

theorem knowsBinary (retains : before.Retains after) {symbol : Char} (known : before.knowsBinary symbol) :
    after.knowsBinary symbol := by
  rw [FunctionTable.knowsBinary, Bool.or_eq_true] at known ⊢
  exact known.imp_right retains.knows

end Retains

end FunctionTable

/-! ## Met demands -/

namespace Label

variable {functions before after : FunctionTable}

theorem resolve_unary_iff {symbol : Char} :
    (Label.unary symbol).resolve functions = .ok () ↔ functions.knows (unaryName symbol) := by
  rw [resolve]
  split <;> simp [*]

theorem resolve_binary_iff {symbol : Char} :
    (Label.binary symbol).resolve functions = .ok () ↔ functions.knowsBinary symbol := by
  rw [resolve]
  split <;> simp [*]

theorem resolve_call_iff {callee : String} {argCount : Nat} :
    (Label.call callee argCount).resolve functions = .ok () ↔
      ∃ proto, functions.find? callee = some proto ∧ proto.params.length = argCount := by
  rw [resolve]
  cases functions.find? callee with
  | none => simp
  | some proto => by_cases same : proto.params.length = argCount <;> simp [same]

/-- A demand that was met is met by all functions that are known later. -/
theorem resolve_of_retains (retains : before.Retains after) {label : Label} (met : label.resolve before = .ok ()) :
    label.resolve after = .ok () := by
  cases label with
  | unary symbol => exact resolve_unary_iff.mpr (retains.knows (resolve_unary_iff.mp met))
  | binary symbol => exact resolve_binary_iff.mpr (retains.knowsBinary (resolve_binary_iff.mp met))
  | call callee argCount =>
    obtain ⟨proto, found, same⟩ := resolve_call_iff.mp met
    obtain ⟨now, foundNow, sameNow⟩ := retains callee proto found
    exact resolve_call_iff.mpr ⟨now, foundNow, sameNow.trans same⟩
  | number | var | ifElse | forIn | varIn | prototype | function => exact met

end Label

/-- A function without a fault has none either once more is known. -/
theorem Function.resolveIn_of_retains {before after : FunctionTable} (retains : before.Retains after)
    {function : Function} {scope : List String} (sound : function.resolveIn before scope = .ok ()) :
    function.resolveIn after scope = .ok () := by
  have demands := function.demands scope
  exact demands.carry sound fun label member => Label.resolve_of_retains retains (demands.met sound label member)

namespace Resolver

/-! ## Later forms -/

theorem Receives.retains {resolver next : Resolver} {form : Form} {fault? : Option Error}
    (receives : resolver.Receives form fault? next) : resolver.functions.Retains next.functions := by
  cases receives with
  | declared admits functions | defined _ admits _ functions => exact functions ▸ .insert admits
  | redefinition _ agrees | clash _ _ _ _ agrees | body _ _ _ agrees | expression agrees =>
    exact .of_find?_eq agrees.functions

theorem retains_append (earlier later : List Form) :
    (ofForms earlier).functions.Retains (ofForms (earlier ++ later)).functions := by
  induction later using List.reverseRecOn with
  | nil =>
    rw [List.append_nil]
    exact .refl _
  | append_singleton later form ih =>
    obtain ⟨_, _, _, receives⟩ := (ofForms (earlier ++ later)).receives form
    rw [← List.append_assoc, ofForms_concat]
    exact ih.trans receives.retains

/-- No scope is open between forms. -/
theorem frames_ofForms (forms : List Form) : (ofForms forms).scopes.frames = [] := by
  induction forms using List.reverseRecOn with
  | nil => rfl
  | append_singleton forms form ih =>
    obtain ⟨_, _, closed, _⟩ := (ofForms forms).receives form
    rw [ofForms_concat, closed, ih]

/-- A function in which no fault was found resolves in the state after it. -/
theorem Receives.resolves {resolver next : Resolver} {form : Form} {function : Function}
    (receives : resolver.Receives form none next) (closed : resolver.scopes.frames = [])
    (checked : form = .definition function ∨ form = .expression function) :
    function.resolveIn next.functions [] = .ok () := by
  generalize noFault : (none : Option Error) = fault? at receives
  cases receives with
  | declared => simp at checked
  | @defined definition _ _ _ sound functions =>
    obtain rfl : definition = function := by simpa using checked
    rw [functions]
    exact (fault?_eq_none_iff (frames_knowing closed definition.proto)).mp sound
  | redefinition | clash | body => cases noFault
  | @expression tested _ agrees =>
    obtain rfl : tested = function := by simpa using checked
    exact Function.resolveIn_of_retains (.of_find?_eq agrees.functions) ((fault?_eq_none_iff closed).mp noFault.symm)

/-- A definition or expression in which no fault was found has none after any forms that are received later: each
function that it calls is known with as many parameters as when it was received, and behind each of its operators a
prototype is found unless the operator is built in. -/
theorem verdicts_last {forms : List Form} {before after : List (Form × Option Error)} {form : Form}
    {function : Function} (checked : form = .definition function ∨ form = .expression function)
    (split : history forms = before ++ (form, none) :: after) :
    ((ofForms forms).checkFunction function).1 = .ok () ∧
      (∀ callee argCount, .call callee argCount ∈ trace function →
        ∃ known now, (ofForms (before.map Prod.fst ++ [form])).functions.find? callee = some known ∧
          (ofForms forms).functions.find? callee = some now ∧
          known.params.length = argCount ∧ now.params.length = argCount) ∧
      (∀ symbol, .unary symbol ∈ trace function →
        ∃ proto, (ofForms forms).functions.find? (unaryName symbol) = some proto) ∧
      ∀ symbol, .binary symbol ∈ trace function → (∃ precedence, (symbol, precedence) ∈ standardOperators) ∨
        ∃ proto, (ofForms forms).functions.find? (binaryName symbol) = some proto := by
  obtain ⟨whole, _, receives⟩ := history_split split
  have sound := receives.resolves (frames_ofForms _) checked
  rw [← ofForms_concat] at sound
  have soundNow : function.resolveIn (ofForms forms).functions [] = .ok () :=
    Function.resolveIn_of_retains (whole ▸ retains_append _ _) sound
  have met := (function.demands []).met sound
  have metNow := (function.demands []).met soundNow
  refine ⟨?_, fun callee argCount member => ?_, fun symbol member => ?_, fun symbol member => ?_⟩
  · rw [checkFunction_of_closed (frames_ofForms forms), soundNow]
  · obtain ⟨known, found, count⟩ := Label.resolve_call_iff.mp (met _ member)
    obtain ⟨now, foundNow, countNow⟩ := Label.resolve_call_iff.mp (metNow _ member)
    exact ⟨known, now, found, foundNow, count, countNow⟩
  · exact FunctionTable.knows_iff.mp (Label.resolve_unary_iff.mp (metNow _ member))
  · exact FunctionTable.knowsBinary_iff.mp (Label.resolve_binary_iff.mp (metNow _ member))

/-- A caller stays sound while the declarations and definitions of its callee fail and succeed. -/
theorem verdicts_last_retried :
    let declared : Form := .external ⟨"g", ["x"], .none, 30⟩
    let caller : Function := ⟨⟨"f", ["x"], .none, 30⟩, .binary '+' (.call "g" [.var "x"]) (.var "x")⟩
    let failed : Form := .definition ⟨⟨"g", ["y"], .none, 30⟩, .var "x"⟩
    let clash : Form := .external ⟨"g", ["x", "y"], .none, 30⟩
    let success : Form := .definition ⟨⟨"g", ["y"], .none, 30⟩, .var "y"⟩
    history [declared, .definition caller, failed, clash, success] =
        [(declared, none)] ++ (.definition caller, none) ::
          [(failed, some (.unknownVariable "x")), (clash, some (.arityMismatch "g" 1 2)), (success, none)] ∧
      ((ofForms [declared, .definition caller, failed, clash, success]).checkFunction caller).1 = .ok () := by
  refine ⟨?split, (verdicts_last (.inl rfl) ?split).1⟩
  decide +kernel

end Resolver

end OpLang

import OpLang.Grammar.Declaration
import OpLang.Proofs.ExpressionExact
import OpLang.Proofs.Spelling

/-! # Forms are read exactly

Prototypes, definitions and declarations succeed on exactly the phrases of the grammar. Here it matters
that the tokens come from a source: a number that is not a number would pass for a precedence.
-/

namespace OpLang

namespace Cursor

theorem Spelled.advance_ok {cursor next : Cursor} (spelled : cursor.Spelled)
    (step : advance cursor = .ok () next) : next.Spelled := by
  simp only [advance] at step
  split at step
  · next ended =>
    cases step
    exact ⟨.inl ⟨rfl, ended⟩, fun lexeme member => spelled.unread lexeme (ended ▸ member)⟩
  · next token place later some =>
    cases step
    have inside := fun lexeme (member : lexeme ∈ later) =>
      spelled.unread lexeme (some ▸ List.mem_cons_of_mem _ member)
    exact ⟨.inr (spelled.unread ⟨.token token, place⟩ (some ▸ List.mem_cons_self ..) token rfl), inside⟩
  · cases step

theorem Crosses.spelled {cursor last : Cursor} {tokens : List Token} (crossed : Crosses cursor tokens last)
    (spelled : cursor.Spelled) : last.Spelled := by
  induction crossed with
  | nil => exact spelled
  | cons step _ ih => exact ih (spelled.advance_ok step)

/-- The tokens that were crossed are spelled, except for the end of input. -/
theorem Crosses.spelled_of_mem {cursor last : Cursor} {tokens : List Token}
    (crossed : Crosses cursor tokens last)
    (spelled : cursor.Spelled) {token : Token} (member : token ∈ tokens) :
    token = .endOfInput ∨ token.Spelled := by
  induction crossed with
  | nil => cases member
  | cons step _ ih =>
    rcases List.mem_cons.mp member with rfl | member
    · exact spelled.current.imp_left And.left
    · exact ih (spelled.advance_ok step) member

end Cursor

theorem Binary64.unitsPerOne_pos : (0 : Int) < unitsPerOne := by
  have positive : 0 < unitsPerOne := by decide +kernel
  exact Int.natCast_pos.mpr positive

/-- The precedence that a number declares is its whole part. -/
theorem Grammar.precedenceOfNumber?_eq_some_iff {value : Binary64} {precedence : Int}
    (number : value ≠ .nan) :
    precedenceOfNumber? value = some precedence ↔ Phrase.DeclaresPrecedence value precedence := by
  cases value with
  | nan => exact (number rfl).elim
  | infinite negative =>
    simp only [precedenceOfNumber?, Phrase.DeclaresPrecedence, reduceCtorEq, false_and, exists_false]
  | finite negative rank =>
    cases negative with
    | true =>
      simp only [precedenceOfNumber?, Phrase.DeclaresPrecedence, reduceCtorEq, Binary64.finite.injEq,
        Bool.true_eq_false, false_and, exists_false]
    | false =>
      simp only [precedenceOfNumber?, Option.ite_none_right_eq_some, Option.some.injEq]
      constructor
      · rintro ⟨⟨low, high⟩, rfl⟩
        exact ⟨rank, rfl, low, high, Int.ediv_mul_le _ (Int.ne_of_gt Binary64.unitsPerOne_pos),
          Int.lt_ediv_add_one_mul_self _ Binary64.unitsPerOne_pos⟩
      · rintro ⟨_, same, low, high, below, above⟩
        cases same
        refine ⟨⟨low, high⟩, ?_⟩
        apply Int.le_antisymm
        · exact Int.lt_add_one_iff.mp ((Int.ediv_lt_iff_lt_mul Binary64.unitsPerOne_pos).mpr above)
        · exact (Int.le_ediv_iff_mul_le Binary64.unitsPerOne_pos).mpr below

namespace Grammar

open Cursor

variable {cursor last : Cursor}

theorem precedence_ok_iff {declared : Int} :
    precedence cursor = .ok declared last ↔
      (∃ value, precedenceOfNumber? value = some declared ∧ cursor.Crosses [.number value] last) ∨
        (∀ value, cursor.current ≠ .number value) ∧ defaultPrecedence = declared ∧ cursor = last := by
  simp only [precedence, peek_bind]
  constructor
  · intro success
    cases here : cursor.current with
    | number value =>
      rw [here] at success
      dsimp only at success
      cases allowed : precedenceOfNumber? value with
      | none => simp only [allowed, throw_ok_iff] at success
      | some found =>
        simp only [allowed, bind_ok_iff, advance_ok_iff, pure_ok_iff] at success
        obtain ⟨_, _, step, rfl, rfl⟩ := success
        exact .inl ⟨value, allowed, here ▸ step⟩
    | _ =>
      simp only [here, pure_ok_iff] at success
      exact .inr ⟨fun _ => Token.noConfusion, success⟩
  · rintro (⟨value, allowed, crossed⟩ | ⟨noNumber, rfl, rfl⟩)
    · have here : cursor.current = .number value := crossed.current_eq
      simp only [here, allowed]
      exact (bind_ok_iff _ _).mpr ⟨(), last, advance_ok_iff.mpr (here ▸ crossed), rfl⟩
    · cases here : cursor.current with
      | number value => exact (noNumber value here).elim
      | _ => rfl

/-- A heading is read exactly where the parameters follow it. -/
theorem heading_ok_iff (spelled : cursor.Spelled) (opened : last.current = .char '(') {name : String}
    {kind : OperatorKind} {declared : Int} :
    heading cursor = .ok (name, kind, declared) last ↔
      ∃ tokens, cursor.Crosses tokens last ∧ Phrase.Heading tokens name kind declared := by
  simp only [heading, peek_bind]
  constructor
  · intro success
    cases here : cursor.current with
    | ident found =>
      simp only [here, bind_ok_iff, advance_ok_iff, pure_ok_iff] at success
      obtain ⟨_, _, step, same, rfl⟩ := success
      cases same
      exact ⟨_, step, .function⟩
    | keyword word =>
      rw [here] at success
      cases word with
      | unaryWord =>
        simp only [bind_ok_iff, advance_ok_iff, operator_ok_iff, pure_ok_iff] at success
        obtain ⟨_, _, step, symbol, _, ⟨ascii, crossed⟩, same, rfl⟩ := success
        cases same
        exact ⟨_, (here ▸ step).append crossed, .prefixOp ascii⟩
      | binaryWord =>
        simp only [bind_ok_iff, advance_ok_iff, operator_ok_iff, pure_ok_iff, precedence_ok_iff] at success
        obtain ⟨_, _, step, symbol, next, ⟨ascii, crossed⟩, _, _, number, same, rfl⟩ := success
        cases same
        have crossed := (here ▸ step).append crossed
        rcases number with ⟨value, allowed, crossedNumber⟩ | ⟨_, rfl, rfl⟩
        · refine ⟨_, crossed.append crossedNumber, .infixWith ascii ?_⟩
          have number := (crossed.spelled spelled).current.resolve_left fun ended =>
            Token.noConfusion (crossedNumber.current_eq.symm.trans ended.1)
          rw [crossedNumber.current_eq] at number
          exact (precedenceOfNumber?_eq_some_iff number.ne_nan).mp allowed
        · exact ⟨_, crossed, .infixOp ascii⟩
      | _ => exact (unexpected_ok_iff.mp success).elim
    | _ =>
      rw [here] at success
      exact (unexpected_ok_iff.mp success).elim
  · rintro ⟨tokens, crossed, phrase⟩
    have here := crossed.current_eq
    cases phrase with
    | function =>
      rw [here]
      exact (bind_ok_iff _ _).mpr ⟨(), last, advance_ok_iff.mpr (here ▸ crossed), rfl⟩
    | prefixOp ascii =>
      obtain ⟨next, step, crossed⟩ := Crosses.head_iff.mp crossed
      simp only [here, List.headD_cons, bind_ok_iff, advance_ok_iff, operator_ok_iff, pure_ok_iff]
      exact ⟨(), next, step, _, last, ⟨ascii, crossed⟩, rfl, rfl⟩
    | infixOp ascii =>
      obtain ⟨next, step, crossed⟩ := Crosses.head_iff.mp crossed
      simp only [here, List.headD_cons, bind_ok_iff, advance_ok_iff, operator_ok_iff, pure_ok_iff,
        precedence_ok_iff]
      have noNumber : ∀ value, last.current ≠ .number value := fun _ => opened ▸ Token.noConfusion
      exact ⟨(), next, step, _, last, ⟨ascii, crossed⟩, _, last, .inr ⟨noNumber, rfl, rfl⟩, rfl, rfl⟩
    | infixWith ascii declares =>
      obtain ⟨next, step, crossed⟩ := Crosses.head_iff.mp crossed
      obtain ⟨after, crossed, crossedNumber⟩ := Crosses.head_iff.mp crossed
      have allowed := (precedenceOfNumber?_eq_some_iff (by
        obtain ⟨rank, rfl, _⟩ := declares
        exact Binary64.noConfusion)).mpr declares
      simp only [here, List.headD_cons, bind_ok_iff, advance_ok_iff, operator_ok_iff, pure_ok_iff,
        precedence_ok_iff]
      exact ⟨(), next, step, _, after, ⟨ascii, crossed⟩, _, last, .inl ⟨_, allowed, crossedNumber⟩, rfl, rfl⟩

/-- Another parameter is any name that differs from those before it. -/
theorem parameter?_some_iff {name param : String} {before : List String} :
    parameter? name before cursor = .ok (some param) last ↔
      param ∉ before ∧ cursor.Crosses [.ident param] last := by
  simp only [parameter?, peek_bind]
  cases here : cursor.current with
  | ident found =>
    simp only [ite_ok_iff, throw_ok_iff, and_false, false_or, bind_ok_iff, advance_ok_iff, pure_ok_iff,
      Option.some.injEq]
    constructor
    · rintro ⟨fresh, _, _, step, rfl, rfl⟩
      exact ⟨fresh, here ▸ step⟩
    · rintro ⟨fresh, crossed⟩
      cases here.symm.trans crossed.current_eq
      exact ⟨fresh, (), last, here.symm ▸ crossed, rfl, rfl⟩
  | _ =>
    simp only [pure_ok_iff, reduceCtorEq, false_and, false_iff, not_and]
    intro _ crossed
    cases here.symm.trans crossed.current_eq

theorem parameter?_none_iff {name : String} {before : List String} :
    parameter? name before cursor = .ok none last ↔ (∀ param, cursor.current ≠ .ident param) ∧ cursor = last := by
  simp only [parameter?, peek_bind]
  cases here : cursor.current with
  | ident found =>
    simp only [ite_ok_iff, throw_ok_iff, bind_ok_iff, pure_ok_iff, reduceCtorEq, false_and, and_false, exists_false,
      or_false, false_iff, not_and]
    exact fun absurd => (absurd found rfl).elim
  | _ => simp [pure_ok_iff]

/-- The parameters are all the names that stand here, provided that they are distinct. -/
theorem parameters_ok_iff (name : String) {before params : List String}
    (ended : ∀ param, last.current ≠ .ident param) :
    many (parameter? name) before cursor = .ok params last ↔
      cursor.Crosses (params.map .ident) last ∧ params.Nodup ∧ ∀ param ∈ params, param ∉ before := by
  induction params generalizing before cursor with
  | nil =>
    rw [many_nil_ok_iff, parameter?_none_iff]
    constructor
    · rintro ⟨_, rfl⟩
      simp
    · rintro ⟨crossed, _⟩
      obtain rfl := Crosses.nil_iff.mp crossed
      exact ⟨ended, rfl⟩
  | cons param params ih =>
    rw [many_cons_ok_iff fun next step => (parameter?_some_iff.mp step).2.remaining_lt Token.noConfusion]
    simp only [parameter?_some_iff, ih, List.map_cons, List.nodup_cons, List.mem_cons, forall_eq_or_imp, not_or]
    constructor
    · rintro ⟨next, ⟨fresh, step⟩, crossed, distinct, others⟩
      exact ⟨step.append crossed, ⟨fun again => (others param again).1 rfl, distinct⟩, fresh,
        fun other member => (others other member).2⟩
    · rintro ⟨crossed, ⟨single, distinct⟩, fresh, others⟩
      obtain ⟨next, step, crossed⟩ := Crosses.head_iff.mp crossed
      exact ⟨next, ⟨fresh, step⟩, crossed, distinct,
        fun other member => ⟨fun same => single (same ▸ member), others other member⟩⟩

theorem checkArity_ok_iff {proto result : Prototype} :
    checkArity proto cursor = .ok result last ↔
      ((proto.kind = .prefixOp → proto.params.length = 1) ∧ (proto.kind = .infixOp → proto.params.length = 2)) ∧
        proto = result ∧ cursor = last := by
  obtain ⟨name, params, kind, declared⟩ := proto
  cases kind <;> simp [checkArity, Prototype.arity?, ite_ok_iff, pure_ok_iff, throw_ok_iff]

/-- Prototypes are read exactly. -/
theorem prototype_ok_iff (spelled : cursor.Spelled) {proto : Prototype} :
    prototype cursor = .ok proto last ↔ ∃ tokens, cursor.Crosses tokens last ∧ Phrase.Signature tokens proto := by
  simp only [prototype, bind_ok_iff, expect_ok_iff, checkArity_ok_iff, Prod.exists]
  constructor
  · rintro ⟨name, kind, declared, opening, headed, _, inside, openStep, params, closing, listed, _, stop, closeStep,
      ⟨one, two⟩, rfl, rfl⟩
    have noParam : ∀ param, closing.current ≠ .ident param := fun _ => closeStep.current_eq ▸ Token.noConfusion
    obtain ⟨tokens, crossed, heading⟩ := (heading_ok_iff spelled openStep.current_eq).mp headed
    obtain ⟨crossedParams, distinct, _⟩ := (parameters_ok_iff _ noParam).mp listed
    exact ⟨_, crossed.append (openStep.append (crossedParams.append closeStep)), .mk heading distinct one two⟩
  · rintro ⟨_, crossed, ⟨heading, distinct, one, two⟩⟩
    obtain ⟨opening, crossed, rest⟩ := Crosses.append_iff.mp crossed
    obtain ⟨inside, openStep, rest⟩ := Crosses.head_iff.mp rest
    obtain ⟨closing, crossedParams, closeStep⟩ := Crosses.append_iff.mp rest
    have noParam : ∀ param, closing.current ≠ .ident param := fun _ => closeStep.current_eq ▸ Token.noConfusion
    have headed := (heading_ok_iff spelled openStep.current_eq).mpr ⟨_, crossed, heading⟩
    have listed := fun name => (parameters_ok_iff name noParam).mpr
      ⟨crossedParams, distinct, fun _ _ => List.not_mem_nil⟩
    exact ⟨_, _, _, opening, headed, (), inside, openStep, _, closing, listed _, (), last, closeStep,
      ⟨one, two⟩, rfl, rfl⟩

/-! ## Forms -/

theorem definition_ok_iff (table : OperatorTable) (spelled : cursor.Spelled) {function : Function} :
    definition table cursor = .ok function last ↔
      ∃ tokens, cursor.Crosses (cursor.current :: tokens) last ∧
        Phrase.OfForm table (.keyword .defWord :: tokens) (.definition function) last.current := by
  simp only [definition, bind_ok_iff, pure_ok_iff, body_exact table _ _ _]
  constructor
  · rintro ⟨_, next, step, proto, middle, read, body, _, ⟨bodyTokens, crossedBody, inner⟩, rfl, rfl⟩
    obtain ⟨protoTokens, crossedProto, signature⟩ := (prototype_ok_iff (spelled.advance_ok step)).mp read
    exact ⟨protoTokens ++ bodyTokens, (advance_ok_iff.mp step).append (crossedProto.append crossedBody),
      .definition signature inner⟩
  · rintro ⟨_, crossed, phrase⟩
    cases phrase with
    | definition signature inner =>
      obtain ⟨next, step, crossed⟩ := Crosses.head_iff.mp crossed
      obtain ⟨middle, crossedProto, crossedBody⟩ := Crosses.append_iff.mp crossed
      have read := (prototype_ok_iff (step.spelled spelled)).mpr ⟨_, crossedProto, signature⟩
      exact ⟨(), next, advance_ok_iff.mpr step, _, middle, read, _, last, ⟨_, crossedBody, inner⟩, rfl, rfl⟩

theorem external_ok_iff (table : OperatorTable) (spelled : cursor.Spelled) {proto : Prototype} :
    external cursor = .ok proto last ↔
      ∃ tokens, cursor.Crosses (cursor.current :: tokens) last ∧
        Phrase.OfForm table (.keyword .externWord :: tokens) (.external proto) last.current := by
  simp only [external, bind_ok_iff]
  constructor
  · rintro ⟨_, next, step, read⟩
    obtain ⟨tokens, crossed, signature⟩ := (prototype_ok_iff (spelled.advance_ok step)).mp read
    exact ⟨tokens, (advance_ok_iff.mp step).append crossed, .external signature⟩
  · rintro ⟨_, crossed, phrase⟩
    cases phrase with
    | external signature =>
      obtain ⟨next, step, crossed⟩ := Crosses.head_iff.mp crossed
      have read := (prototype_ok_iff (step.spelled spelled)).mpr ⟨_, crossed, signature⟩
      exact ⟨(), next, advance_ok_iff.mpr step, read⟩

theorem topLevel_ok_iff (table : OperatorTable) {function : Function} :
    topLevel table cursor = .ok function last ↔
      ∃ tokens body, cursor.Crosses tokens last ∧ Phrase.Body table tokens body last.current ∧
        .anonymous body = function := by
  simp only [topLevel, bind_ok_iff, pure_ok_iff, body_exact table _ _ _]
  constructor
  · rintro ⟨body, _, ⟨tokens, crossed, inner⟩, same, rfl⟩
    exact ⟨tokens, body, crossed, inner, same⟩
  · rintro ⟨tokens, body, crossed, inner, same⟩
    exact ⟨body, last, ⟨tokens, crossed, inner⟩, same, rfl⟩

end Grammar

end OpLang

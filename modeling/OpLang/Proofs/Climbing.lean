import OpLang.Proofs.ChainShape
import OpLang.Proofs.ExpressionExact

/-! # Climbing through precedences

A chain need not be gathered before its tree is known. Behind an operator and its operand come the tighter
operators first; they belong to that operand and are a chain of their own, read with a bound just above the
operator. Then both sides of the operator are complete, and the chain goes on with that tree as its first
operand. Read in this way, a bound is either that of the whole chain or one more than the precedence of an
operator, and it is raised only where an operator stands that binds tighter still.
-/

namespace OpLang

section Outcomes

variable {α β : Type} {first : Parse α} {cursor next : Cursor}

theorem bind_of_ok {value : α} (success : first cursor = .ok value next) (second : α → Parse β) :
    (first >>= second) cursor = second value next := by
  simp only [bind, EStateM.bind, success]

theorem bind_of_error {fault : Error} (failure : first cursor = .error fault next) (second : α → Parse β) :
    (first >>= second) cursor = .error fault next := by
  simp only [bind, EStateM.bind, failure]

end Outcomes

namespace Grammar

/-- A production that never takes back what has been read. -/
def Forward {α : Type} (production : Parse α) : Prop :=
  ∀ cursor value next, production cursor = .ok value next → next.remaining ≤ cursor.remaining

/-! ## Repetitions -/

section Many

variable {α : Type}

/-- A repetition whose step makes progress does the step and goes on. -/
theorem many_eq (step : List α → Parse (Option α)) (before : List α)
    (progress : ∀ cursor item next, step before cursor = .ok (some item) next →
      next.remaining < cursor.remaining) :
    many step before = (do
      match ← step before with
      | none => return []
      | some item => return item :: (← many step (item :: before))) := by
  funext cursor
  rw [many]
  cases outcome : step before cursor with
  | error fault stopped => rw [bind_of_error outcome]
  | ok found next =>
    rw [bind_of_ok outcome]
    cases found with
    | none => rfl
    | some item =>
      dsimp only
      rw [if_pos (progress cursor item next outcome)]
      cases rest : many step (item :: before) next with
      | ok items last => rw [bind_of_ok rest]; rfl
      | error fault stopped => rw [bind_of_error rest]

/-- A step that is not interested in the items before it need not be told of them. -/
theorem many_before (step : Parse (Option α)) (before : List α) :
    many (fun _ => step) before = many (fun _ => step) [] := by
  funext cursor
  suffices same : ∀ other, many (fun _ => step) before cursor = many (fun _ => step) other cursor from same []
  induction length : cursor.remaining using Nat.strongRecOn generalizing before cursor with
  | ind length ih =>
    subst length
    intro other
    rw [many, many]
    cases step cursor with
    | error => rfl
    | ok found next =>
      cases found with
      | none => rfl
      | some item =>
        dsimp only
        split
        · next moved => rw [ih _ moved (item :: before) next rfl (item :: other)]
        · rfl

/-- Behind its first item such a repetition begins anew. -/
theorem many_anew (step : Parse (Option α))
    (progress : ∀ cursor item next, step cursor = .ok (some item) next → next.remaining < cursor.remaining) :
    many (fun _ => step) [] = (do
      match ← step with
      | none => return []
      | some item => return item :: (← many (fun _ => step) [])) := by
  refine (many_eq _ _ progress).trans (congrArg (step >>= ·) (funext fun found => ?_))
  cases found with
  | none => rfl
  | some item => exact congrArg (· >>= fun items => Pure.pure (item :: items)) (many_before step [item])

end Many

/-! ## Links -/

section Links

variable (table : OperatorTable) (operand : Parse Expr)

/-- The links of a chain with operators of at least the given precedence. -/
def links (bound : Int) : Parse (List Link) := many (fun _ => link? table operand bound) []

variable {table operand} {bound tighter : Int} {cursor next : Cursor}

theorem link?_of_lt (below : table.precedence cursor.current < bound) :
    link? table operand bound cursor = .ok none cursor := by
  simp only [link?, peek_bind, if_pos below]
  rfl

/-- Bounds that both let the current token through make no difference. -/
theorem link?_of_le (loose : bound ≤ tighter) (above : tighter ≤ table.precedence cursor.current) :
    link? table operand bound cursor = link? table operand tighter cursor := by
  have inside : ¬ table.precedence cursor.current < tighter := by omega
  have insideToo : ¬ table.precedence cursor.current < bound := by omega
  simp only [link?, peek_bind, if_neg inside, if_neg insideToo]

theorem link?_none (found : link? table operand bound cursor = .ok none next) :
    table.precedence cursor.current < bound ∧ cursor = next := by
  by_cases below : table.precedence cursor.current < bound
  · rw [link?_of_lt below] at found
    cases found
    exact ⟨below, rfl⟩
  · simp only [link?, peek_bind, if_neg below] at found
    cases here : cursor.current with
    | char symbol =>
      simp only [here, bind_ok_iff, pure_ok_iff] at found
      obtain ⟨_, _, _, _, _, _, absurd, _⟩ := found
      cases absurd
    | _ => simp only [here, throw_ok_iff] at found

theorem link?_some (forward : Forward operand) {link : Link}
    (found : link? table operand bound cursor = .ok (some link) next) :
    link.precedence = table.precedence cursor.current ∧ bound ≤ link.precedence ∧
      next.remaining < cursor.remaining := by
  by_cases below : table.precedence cursor.current < bound
  · rw [link?_of_lt below] at found
    cases found
  · simp only [link?, peek_bind, if_neg below] at found
    cases here : cursor.current with
    | char symbol =>
      simp only [here, bind_ok_iff, pure_ok_iff] at found
      obtain ⟨_, between, step, expr, last, read, same, rfl⟩ := found
      cases same
      have moved := (Cursor.remaining_advance step).2 (here ▸ Token.noConfusion)
      have kept := forward _ _ _ read
      exact ⟨rfl, here ▸ Int.not_lt.mp below, Nat.lt_of_le_of_lt kept moved⟩
    | _ => simp only [here, throw_ok_iff] at found

variable (forward : Forward operand)

include forward

theorem links_eq (bound : Int) :
    links table operand bound = (do
      match ← link? table operand bound with
      | none => return []
      | some link => return link :: (← links table operand bound)) := by
  have unrolled := many_anew (link? table operand bound) fun _ _ _ found => (link?_some forward found).2.2
  refine unrolled.trans (bind_congr fun found => ?_)
  cases found <;> rfl

/-- The links begin with the operator on which the cursor stands, and end before one that is too loose. -/
theorem links_ok {found : List Link} (read : links table operand bound cursor = .ok found next) :
    (∀ link ∈ found, bound ≤ link.precedence) ∧
      (∀ link ∈ found.head?, link.precedence = table.precedence cursor.current) ∧
      table.precedence next.current < bound := by
  induction found generalizing cursor with
  | nil =>
    obtain ⟨below, rfl⟩ := link?_none (many_nil_ok_iff.mp read)
    exact ⟨List.forall_mem_nil _, by simp, below⟩
  | cons link rest ih =>
    obtain ⟨middle, found, others⟩ := (many_cons_ok_iff fun _ found => (link?_some forward found).2.2).mp read
    rw [many_before] at others
    obtain ⟨here, above, _⟩ := link?_some forward found
    obtain ⟨all, _, ended⟩ := ih others
    refine ⟨List.forall_mem_cons.mpr ⟨above, all⟩, fun other same => ?_, ended⟩
    obtain rfl := Option.some.inj same
    exact here

/-- The tighter links come first. -/
theorem links_split (loose : bound ≤ tighter) :
    links table operand bound = (do
      let inner ← links table operand tighter
      let outer ← links table operand bound
      return inner ++ outer) := by
  funext cursor
  induction length : cursor.remaining using Nat.strongRecOn generalizing cursor with
  | ind length ih =>
    subst length
    by_cases below : table.precedence cursor.current < tighter
    · have none : links table operand tighter cursor = .ok [] cursor := by
        rw [links_eq forward, bind_of_ok (link?_of_lt below)]
        rfl
      rw [bind_of_ok none]
      simp only [List.nil_append, bind_pure]
    · have same : link? table operand bound cursor = link? table operand tighter cursor :=
        link?_of_le loose (Int.not_lt.mp below)
      rw [links_eq forward tighter]
      conv => lhs; rw [links_eq forward bound]
      cases outcome : link? table operand tighter cursor with
      | error fault stopped => rw [bind_of_error (same.trans outcome), bind_assoc, bind_of_error outcome]
      | ok found next =>
        cases found with
        | none => exact absurd (link?_none outcome).1 below
        | some link =>
          rw [bind_of_ok (same.trans outcome), bind_assoc, bind_of_ok outcome]
          have rest := ih _ (link?_some forward outcome).2.2 next rfl
          simp only [bind_assoc, pure_bind, List.cons_append]
          cases inner : links table operand tighter next with
          | error fault stopped =>
            rw [bind_of_error inner] at rest ⊢
            exact bind_of_error rest _
          | ok found middle =>
            rw [bind_of_ok inner] at rest ⊢
            cases outer : links table operand bound middle with
            | error fault stopped =>
              rw [bind_of_error outer] at rest ⊢
              exact bind_of_error rest _
            | ok later last =>
              rw [bind_of_ok outer] at rest ⊢
              exact bind_of_ok rest _

/-- Chains are read by climbing: a chain of the tighter operators is read first, as the right operand. -/
theorem chain_eq (bound : Int) (first : Expr) :
    chain table operand bound first = (do
      match ← link? table operand bound with
      | none => return first
      | some link =>
        let rhs ← chain table operand (link.precedence + 1) link.operand
        chain table operand bound (.binary link.symbol first rhs)) := by
  have unfolded : ∀ bound first, chain table operand bound first =
      (do return Link.tree first (← links table operand bound)) := fun _ _ => rfl
  funext cursor
  conv => lhs; rw [unfolded, links_eq forward bound]
  cases outcome : link? table operand bound cursor with
  | error fault stopped => rw [bind_assoc, bind_of_error outcome, bind_of_error outcome]
  | ok found next =>
    rw [bind_assoc, bind_of_ok outcome, bind_of_ok outcome]
    cases found with
    | none => rfl
    | some link =>
      have above := (link?_some forward outcome).2.1
      have loose : bound ≤ link.precedence + 1 := by omega
      simp only [unfolded, bind_assoc, pure_bind]
      conv => lhs; rw [links_split forward loose]
      simp only [bind_assoc, pure_bind]
      cases inner : links table operand (link.precedence + 1) next with
      | error fault stopped => rw [bind_of_error inner, bind_of_error inner]
      | ok found middle =>
        rw [bind_of_ok inner, bind_of_ok inner]
        cases outer : links table operand bound middle with
        | error fault stopped => rw [bind_of_error outer, bind_of_error outer]
        | ok later last =>
          rw [bind_of_ok outer, bind_of_ok outer]
          obtain ⟨tight, _, ended⟩ := links_ok forward inner
          obtain ⟨_, head, _⟩ := links_ok forward outer
          rw [Link.tree_cons_append first link found later]
          · exact fun other member => Int.lt_of_add_one_le (tight other member)
          · intro other member
            have here := head other member
            omega

omit forward in
/-- A chain ends before a token that binds too loosely. -/
theorem chain_of_lt {first : Expr} (below : table.precedence cursor.current < bound) :
    chain table operand bound first cursor = .ok first cursor := by
  have none : links table operand bound cursor = .ok [] cursor := many_nil_ok_iff.mpr (link?_of_lt below)
  exact bind_of_ok none _

/-- An operator that binds tightly enough takes the chain of the tighter operators behind it. -/
theorem chain_of_operator {first : Expr} {symbol : Char}
    (above : ¬ table.precedence cursor.current < bound) (here : cursor.current = .char symbol) :
    chain table operand bound first cursor =
      (do
        Cursor.advance
        let rhs ← operand
        let rhs ← chain table operand (table.precedence cursor.current + 1) rhs
        chain table operand bound (.binary symbol first rhs) : Parse Expr) cursor := by
  have link : link? table operand bound cursor = (do
      Cursor.advance
      return some ⟨symbol, table.precedence cursor.current, ← operand⟩ : Parse (Option Link)) cursor := by
    rw [here] at above
    simp only [link?, peek_bind, here, if_neg above]
  rw [chain_eq forward]
  cases step : Cursor.advance cursor with
  | error fault stopped =>
    rw [bind_of_error step] at link ⊢
    exact bind_of_error link _
  | ok _ next =>
    rw [bind_of_ok step] at link ⊢
    cases read : operand next with
    | error fault stopped =>
      rw [bind_of_error read] at link ⊢
      exact bind_of_error link _
    | ok rhs last =>
      rw [bind_of_ok read] at link ⊢
      exact bind_of_ok link _

omit forward in
/-- No token but a character is an operator, so a bound that lets another one through is a fault. -/
theorem chain_of_no_operator {first : Expr} (above : ¬ table.precedence cursor.current < bound)
    (noChar : ∀ symbol, cursor.current ≠ .char symbol) :
    chain table operand bound first cursor =
      .error (.internal (cursor.current.describe ++ " has precedence " ++
        toString (table.precedence cursor.current) ++ " but is not an operator")) cursor := by
  have fault : link? table operand bound cursor = .error (.internal (cursor.current.describe ++
      " has precedence " ++ toString (table.precedence cursor.current) ++ " but is not an operator")) cursor := by
    simp only [link?, peek_bind, if_neg above]
    cases here : cursor.current with
    | char symbol => exact absurd here (noChar symbol)
    | _ => rfl
  simp only [chain, bind, EStateM.bind]
  rw [many, fault]

end Links

end Grammar

end OpLang

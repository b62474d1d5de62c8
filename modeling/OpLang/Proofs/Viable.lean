import OpLang.Proofs.Climbing
import OpLang.Proofs.Spelling

/-! # Viable prefixes

Where another token is needed than the one that stands there, the tokens before it can be continued, and nothing behind
it has been looked at. Both are shown for productions together, one step after the other. A production is compared
with its *unlimited* counterparts, in which operands may lie in each other more deeply: a limit may not leave room for
what completes the tokens.

One token behind a phrase decides that it is complete. The *closing* tokens of a production are tokens behind which it
always stops; its *heads* are those that what completes it may begin with. If it is read behind another production, its
heads have to be among the closing tokens of that one.
-/

namespace OpLang

/-- Whether an error says that another token is needed. -/
def Error.IsMisplaced : Error → Prop
  | .expected _ _ | .unknownToken _ => True
  | _ => False

/-- The error shows the token as the one that is out of place. -/
def Error.Blames : Error → Token → Prop
  | .expected _ found, token | .unknownToken found, token => found = token.describe
  | _, _ => False

namespace Grammar

open Cursor

variable {α β : Type}

/-- From wherever the cursor crosses the tokens and comes to the next one, the production goes there with this
outcome. -/
def Over (production : Parse α) (tokens : List Token) (next : Token)
    (outcome : Cursor → EStateM.Result Error Cursor α) : Prop :=
  ∀ cursor last, Crosses cursor tokens last → last.current = next → production cursor = outcome last

/-- The tokens complete the production in all its unlimited forms, as long as a closing token comes after them. -/
def Completes (closing : Token → Prop) (unlimited : Nat → Parse α) (tokens : List Token) (value : α) : Prop :=
  ∀ next, closing next → ∀ more, Over (unlimited more) tokens next (.ok value)

/-- If there are no such tokens, what stands behind them is one of the heads. -/
def Headed (heads closing : Token → Prop) (tokens completion : List Token) : Prop :=
  tokens = [] → ∀ next, closing next → heads (completion.headD next)

/-- A cursor from which a production succeeds, fails because of the token that it has come to, or fails otherwise. A
success is repeated over the same tokens without the limit, and with any closing token behind them; a token that is
out of place is so wherever the same tokens stand before it, and these can be completed. -/
inductive Viable (heads closing : Token → Prop) (production : Parse α) (unlimited : Nat → Parse α)
    (cursor : Cursor) : Prop
  | success {tokens : List Token} {last : Cursor} {value : α} (crossed : Crosses cursor tokens last)
      (inside : .endOfInput ∉ tokens) (again : Over production tokens last.current (.ok value))
      (larger : ∀ more, Over (unlimited more) tokens last.current (.ok value))
      (closed : Completes closing unlimited tokens value) (headed : Headed heads closing tokens [])
  | misplaced {tokens completion : List Token} {last : Cursor} {fault : Error} {value : α}
      (crossed : Crosses cursor tokens last) (inside : .endOfInput ∉ tokens) (blames : fault.Blames last.current)
      (again : Over production tokens last.current (.error fault))
      (spelled : ∀ token ∈ completion, token.Spelled)
      (closed : Completes closing unlimited (tokens ++ completion) value)
      (headed : Headed heads closing tokens completion)
  | other {last : Cursor} {fault : Error} (failure : production cursor = .error fault last)
      (notMisplaced : ¬ fault.IsMisplaced)

/-- Some tokens complete the production from its very beginning. -/
def Starts (heads closing : Token → Prop) (unlimited : Nat → Parse α) : Prop :=
  ∃ completion value, (∀ token ∈ completion, token.Spelled) ∧ Completes closing unlimited completion value ∧
    ∀ next, closing next → heads (completion.headD next)

/-- From every cursor the production is viable, and it can be completed where it has not begun. -/
structure Guided (heads closing : Token → Prop) (production : Parse α) (unlimited : Nat → Parse α) : Prop where
  viable : ∀ cursor, Viable heads closing production unlimited cursor
  starts : Starts heads closing unlimited

section Over

variable {first : Parse α} {second : α → Parse β} {tokens later : List Token} {next : Token} {value : α}

theorem Over.bind {outcome : Cursor → EStateM.Result Error Cursor β}
    (before : Over first tokens (later.headD next) (.ok value)) (after : Over (second value) later next outcome) :
    Over (first >>= second) (tokens ++ later) next outcome := by
  rintro cursor last crossed rfl
  obtain ⟨middle, here, there⟩ := Crosses.append_iff.mp crossed
  rw [bind_of_ok (before _ _ here there.current_eq)]
  exact after _ _ there rfl

theorem Over.bind_error {fault : Error} (failed : Over first tokens next (.error fault)) :
    Over (first >>= second) tokens next (.error fault) :=
  fun _ _ crossed same => bind_of_error (failed _ _ crossed same) second

theorem Over.pure (value : α) : Over (pure value) [] next (.ok value) := by
  rintro cursor last crossed _
  obtain rfl := Crosses.nil_iff.mp crossed
  rfl

theorem Over.advance (token : Token) : Over Cursor.advance [token] next (.ok ()) := by
  rintro cursor last crossed _
  obtain ⟨rfl, _⟩ := Crosses.cons_iff.mp crossed
  exact advance_ok_iff.mpr crossed

theorem Over.peek {branch : Token → Parse α} {outcome : Cursor → EStateM.Result Error Cursor α}
    (chosen : Over (branch (tokens.headD next)) tokens next outcome) :
    Over (Grammar.peek >>= branch) tokens next outcome := by
  rintro cursor last crossed rfl
  rw [peek_bind, crossed.current_eq]
  exact chosen _ _ crossed rfl

end Over

section Rules

variable {heads wider middle closing narrower : Token → Prop} {production : Parse α} {unlimited : Nat → Parse α}
  {cursor : Cursor}

theorem Viable.mono (viable : Viable heads closing production unlimited cursor)
    (widen : ∀ token, heads token → wider token) (narrow : ∀ token, narrower token → closing token) :
    Viable wider narrower production unlimited cursor := by
  cases viable with
  | success crossed inside again larger closed headed =>
    exact .success crossed inside again larger (fun next member => closed next (narrow next member))
      fun empty next member => widen _ (headed empty next (narrow next member))
  | misplaced crossed inside blames again spelled closed headed =>
    exact .misplaced crossed inside blames again spelled (fun next member => closed next (narrow next member))
      fun empty next member => widen _ (headed empty next (narrow next member))
  | other failure notMisplaced => exact .other failure notMisplaced

theorem Viable.widen (viable : Viable heads closing production unlimited cursor)
    (widen : ∀ token, heads token → wider token) : Viable wider closing production unlimited cursor :=
  viable.mono widen fun _ member => member

theorem Starts.mono (starts : Starts heads closing unlimited) (widen : ∀ token, heads token → wider token)
    (narrow : ∀ token, narrower token → closing token) : Starts wider narrower unlimited := by
  obtain ⟨completion, value, spelled, completes, headed⟩ := starts
  exact ⟨completion, value, spelled, fun next member => completes next (narrow next member),
    fun next member => widen _ (headed next (narrow next member))⟩

theorem Guided.mono (guided : Guided heads closing production unlimited)
    (widen : ∀ token, heads token → wider token) (narrow : ∀ token, narrower token → closing token) :
    Guided wider narrower production unlimited :=
  ⟨fun cursor => (guided.viable cursor).mono widen narrow, guided.starts.mono widen narrow⟩

theorem Guided.pure (closing : Token → Prop) (value : α) :
    Guided closing closing (pure value) fun _ => pure value where
  viable cursor := .success (.nil cursor) List.not_mem_nil (.pure value) (fun _ => .pure value)
    (fun _ _ _ => .pure value) fun _ _ member => member
  starts := ⟨[], value, List.forall_mem_nil _, fun _ _ _ => .pure value, fun _ member => member⟩

variable {second : α → Parse β} {unlimitedSecond : Nat → α → Parse β}

theorem Starts.bind (starts : Starts heads middle unlimited)
    (continued : ∀ value, Starts middle closing fun more => unlimitedSecond more value) :
    Starts heads closing fun more => unlimited more >>= unlimitedSecond more := by
  obtain ⟨tokens, value, spelled, completes, headed⟩ := starts
  obtain ⟨later, result, spelledLater, completesLater, headedLater⟩ := continued value
  refine ⟨tokens ++ later, result, List.forall_mem_append.mpr ⟨spelled, spelledLater⟩, ?_, ?_⟩
  · exact fun next member more =>
      .bind (completes _ (headedLater next member) more) (completesLater next member more)
  · intro next member
    have head := headed _ (headedLater next member)
    cases tokens with
    | nil => exact head
    | cons => exact head

/-- Behind a production that has succeeded the next one goes on. -/
theorem Viable.after {tokens : List Token} {last : Cursor} {value : α} (crossed : Crosses cursor tokens last)
    (inside : .endOfInput ∉ tokens) (again : Over production tokens last.current (.ok value))
    (larger : ∀ more, Over (unlimited more) tokens last.current (.ok value))
    (closed : Completes middle unlimited tokens value) (headed : Headed heads middle tokens [])
    (continued : Viable middle closing (second value) (fun more => unlimitedSecond more value) last) :
    Viable heads closing (production >>= second) (fun more => unlimited more >>= unlimitedSecond more) cursor := by
  have enclosed {later completion : List Token} (headedLater : Headed middle closing later completion) :
      Headed heads closing (tokens ++ later) completion := by
    intro empty next member
    obtain ⟨rfl, rfl⟩ := List.append_eq_nil_iff.mp empty
    exact headed rfl _ (headedLater rfl next member)
  -- What completes the second production decides what stands behind the first, unless a token has been crossed.
  have complete {later completion : List Token} {between : Cursor} {result : β} (there : Crosses last later between)
      (headedLater : Headed middle closing later completion)
      (closedLater : Completes closing (fun more => unlimitedSecond more value) (later ++ completion) result) :
      Completes closing (fun more => unlimited more >>= unlimitedSecond more) (tokens ++ (later ++ completion))
        result := by
    intro next member more
    refine Over.bind ?_ (closedLater next member more)
    cases there with
    | nil => exact closed _ (headedLater rfl next member) more
    | cons => exact larger more
  cases continued with
  | success there insideLater againLater largerLater closedLater headedLater =>
    have closedBoth := complete there headedLater (by rwa [List.append_nil])
    rw [there.current_eq] at again larger
    rw [List.append_nil] at closedBoth
    exact .success (crossed.append there) (by simpa using ⟨inside, insideLater⟩) (again.bind againLater)
      (fun more => (larger more).bind (largerLater more)) closedBoth (enclosed headedLater)
  | misplaced there insideLater blames againLater spelled closedLater headedLater =>
    have closedBoth := complete there headedLater closedLater
    rw [there.current_eq] at again
    rw [← List.append_assoc] at closedBoth
    exact .misplaced (crossed.append there) (by simpa using ⟨inside, insideLater⟩) blames (again.bind againLater)
      spelled closedBoth (enclosed headedLater)
  | other failure notMisplaced =>
    exact .other ((bind_of_ok (again _ _ crossed rfl) second).trans failure) notMisplaced

/-- What follows a production is only looked at where it leaves the cursor; elsewhere it has to be completed. -/
theorem Viable.bind (viable : Viable heads middle production unlimited cursor)
    (continued : ∀ value last, production cursor = .ok value last →
      Viable middle closing (second value) (fun more => unlimitedSecond more value) last)
    (starts : ∀ value, Starts middle closing fun more => unlimitedSecond more value) :
    Viable heads closing (production >>= second) (fun more => unlimited more >>= unlimitedSecond more) cursor := by
  cases viable with
  | success crossed inside again larger closed headed =>
    exact .after crossed inside again larger closed headed (continued _ _ (again _ _ crossed rfl))
  | @misplaced tokens completion last fault value crossed inside blames again spelled closed headed =>
    obtain ⟨later, result, spelledLater, completesLater, headedLater⟩ := starts value
    have closedBoth : Completes closing (fun more => unlimited more >>= unlimitedSecond more)
        (tokens ++ (completion ++ later)) result := by
      intro next member more
      rw [← List.append_assoc]
      exact (closed _ (headedLater next member) more).bind (completesLater next member more)
    refine .misplaced crossed inside blames again.bind_error (List.forall_mem_append.mpr ⟨spelled, spelledLater⟩)
      closedBoth fun empty next member => ?_
    have head := headed empty _ (headedLater next member)
    cases completion with
    | nil => exact head
    | cons => exact head
  | other failure notMisplaced => exact .other (bind_of_error failure second) notMisplaced

theorem Guided.bind (guided : Guided heads middle production unlimited)
    (continued : ∀ value, Guided middle closing (second value) fun more => unlimitedSecond more value) :
    Guided heads closing (production >>= second) fun more => unlimited more >>= unlimitedSecond more where
  viable cursor := (guided.viable cursor).bind (fun value last _ => (continued value).viable last)
    fun value => (continued value).starts
  starts := guided.starts.bind fun value => (continued value).starts

/-- Heads that may be anything are no condition. -/
theorem Guided.anywhere (guided : Guided heads closing production unlimited) :
    Guided (fun _ => True) closing production unlimited :=
  guided.mono (fun _ _ => trivial) fun _ member => member

end Rules

/-! ## Steps -/

section Steps

variable {heads middle closing : Token → Prop} {cursor : Cursor}

theorem Viable.advance (inside : cursor.current ≠ .endOfInput) :
    Viable heads closing Cursor.advance (fun _ => Cursor.advance) cursor := by
  cases outcome : Cursor.advance cursor with
  | ok value last =>
    exact .success (advance_ok_iff.mp outcome) (by simpa using inside.symm) (.advance _) (fun _ => .advance _)
      (fun _ _ _ => .advance _) fun empty => nomatch empty
  | error fault last =>
    refine .other outcome ?_
    simp only [Cursor.advance] at outcome
    split at outcome <;> cases outcome
    exact id

/-- What the current token has chosen is chosen again, since the tokens that may stand in its place choose the same. -/
theorem Viable.chosen {production : Parse α} {unlimited : Nat → Parse α} {branch : Token → Parse α}
    {unlimitedBranch : Nat → Token → Parse α} (viable : Viable heads closing production unlimited cursor)
    (chosen : branch cursor.current = production)
    (unlimitedChosen : ∀ more, unlimitedBranch more cursor.current = unlimited more)
    (same : ∀ token, heads token → ∀ more, unlimitedBranch more token = unlimited more) :
    Viable heads closing (Grammar.peek >>= branch) (fun more => Grammar.peek >>= unlimitedBranch more) cursor := by
  subst chosen
  obtain rfl : (fun more => unlimitedBranch more cursor.current) = unlimited := funext unlimitedChosen
  have complete {tokens completion : List Token} {last : Cursor} {value : α} (crossed : Crosses cursor tokens last)
      (closed : Completes closing (fun more => unlimitedBranch more cursor.current) (tokens ++ completion) value)
      (headed : Headed heads closing tokens completion) :
      Completes closing (fun more => Grammar.peek >>= unlimitedBranch more) (tokens ++ completion) value := by
    refine fun next member more => .peek ?_
    cases crossed with
    | nil =>
      -- nothing has been crossed, so a head stands in the place of the current token
      rw [List.nil_append, same _ (headed rfl next member) more]
      exact closed next member more
    | cons => exact closed next member more
  cases viable with
  | success crossed inside again larger closed headed =>
    have closedHere := complete crossed (by rwa [List.append_nil]) headed
    rw [List.append_nil] at closedHere
    rw [crossed.current_eq] at again larger
    exact .success crossed inside again.peek (fun more => (larger more).peek) closedHere headed
  | misplaced crossed inside blames again spelled closed headed =>
    have closedHere := complete crossed closed headed
    rw [crossed.current_eq] at again
    exact .misplaced crossed inside blames again.peek spelled closedHere headed
  | other failure notMisplaced => exact .other ((peek_bind branch).trans failure) notMisplaced

/-- A token at which the production fails at once is out of place there. -/
theorem Viable.refuse {production : Parse α} {unlimited : Nat → Parse α} (fault : Error)
    (failure : ∀ other : Cursor, other.current = cursor.current → production other = .error fault other)
    (blames : fault.Blames cursor.current) (starts : Starts heads closing unlimited) :
    Viable heads closing production unlimited cursor := by
  obtain ⟨completion, value, spelled, completes, headed⟩ := starts
  refine .misplaced (.nil cursor) List.not_mem_nil blames ?_ spelled completes fun _ => headed
  rintro other last crossed same
  obtain rfl := Crosses.nil_iff.mp crossed
  exact failure other same

/-- A production that takes the token for granted at which it stands is viable from there. -/
def Opened (closing : Token → Prop) (production : Parse α) (unlimited : Nat → Parse α) : Prop :=
  ∀ heads cursor, Cursor.current cursor ≠ .endOfInput → Viable heads closing production unlimited cursor

theorem Guided.opened {rest : Parse α} {unlimited : Nat → Parse α} (guided : Guided middle closing rest unlimited) :
    Opened closing (do Cursor.advance; rest) (fun more => do Cursor.advance; unlimited more) :=
  fun _ _ inside => (Viable.advance inside).bind (fun _ last _ => guided.viable last) fun _ => guided.starts

/-- A branch that passes over the token for which it has been taken. -/
theorem Opened.chosen {production : Parse α} {unlimited : Nat → Parse α} {branch : Token → Parse α}
    {unlimitedBranch : Nat → Token → Parse α} (opened : Opened closing production unlimited)
    (inside : cursor.current ≠ .endOfInput) (chosen : branch cursor.current = production)
    (unlimitedChosen : ∀ more, unlimitedBranch more cursor.current = unlimited more) :
    Viable heads closing (Grammar.peek >>= branch) (fun more => Grammar.peek >>= unlimitedBranch more) cursor :=
  ((opened (fun _ => False) cursor inside).chosen chosen unlimitedChosen fun _ => False.elim).widen fun _ => False.elim

/-- A part that a mark announces is completed as the part is, or by nothing where the mark is missing. -/
theorem announced_guided {mark : Token} {part : Parse α} {unlimited : Nat → Parse α} (inside : mark ≠ .endOfInput)
    (apart : ¬ closing mark) (absent : α) (guided : Guided middle closing part unlimited) :
    Guided closing closing (do if (← Grammar.peek) = mark then (do Cursor.advance; part) else return absent)
      fun more => do if (← Grammar.peek) = mark then (do Cursor.advance; unlimited more) else return absent := by
  have without {token : Token} (member : closing token) : token ≠ mark := by
    rintro rfl
    exact apart member
  refine ⟨fun cursor => ?_, [], absent, List.forall_mem_nil _, fun next member _ => ?_, fun _ member => member⟩
  · by_cases here : cursor.current = mark
    · exact guided.opened.chosen (here ▸ inside) (if_pos here) fun _ => if_pos here
    · exact ((Guided.pure closing absent).viable cursor).chosen (if_neg here) (fun _ => if_neg here)
        fun _ member _ => if_neg (without member)
  · refine .peek ?_
    rw [List.headD_nil, if_neg (without member)]
    exact .pure absent

theorem expect_guided {token : Token} (spelled : token.Spelled) (wanted : String) :
    Guided (· = token) (fun _ => True) (expect token wanted) fun _ => expect token wanted := by
  have accepts (next : Token) : Over (expect token wanted) [token] next (.ok ()) := by
    refine .peek ?_
    rw [List.headD_cons, if_pos rfl]
    exact .advance token
  have starts : Starts (· = token) (fun _ => True) fun _ => expect token wanted :=
    ⟨[token], (), List.forall_mem_singleton.mpr spelled, fun next _ _ => accepts next, fun _ _ => rfl⟩
  refine ⟨fun cursor => ?_, starts⟩
  by_cases here : cursor.current = token
  · have inside : cursor.current ≠ .endOfInput := here ▸ spelled.ne_endOfInput
    exact (Viable.advance inside).chosen (if_pos here) (fun _ => if_pos here) fun _ same _ => if_pos same
  · refine .refuse (.expected wanted cursor.current.describe) (fun other same => ?_) rfl starts
    rw [expect, peek_bind, same, if_neg here, unexpected, peek_bind, same]
    rfl

theorem identifier_guided (wanted : String) :
    Guided (fun _ => True) (fun _ => True) (identifier wanted) fun _ => identifier wanted := by
  have named : (Token.ident "x").Spelled :=
    ⟨['x'], by decide, _, [], rfl, by decide, List.forall_mem_nil _, by decide⟩
  have accepts (next : Token) : Over (identifier wanted) [.ident "x"] next (.ok "x") :=
    .peek ((Over.advance _).bind (.pure _))
  have starts : Starts (fun _ => True) (fun _ => True) fun _ => identifier wanted :=
    ⟨[.ident "x"], "x", List.forall_mem_singleton.mpr named, fun next _ _ => accepts next, fun _ _ => trivial⟩
  refine ⟨fun cursor => ?_, starts⟩
  cases here : cursor.current with
  | ident name =>
    have rest : Guided (fun _ => True) (fun _ => True) (pure name : Parse String) fun _ => pure name := .pure _ name
    exact rest.opened.chosen (here ▸ Token.noConfusion) (by rw [here]) fun _ => by rw [here]
  | _ =>
    refine .refuse (.expected wanted cursor.current.describe) (fun other same => ?_) rfl starts
    rw [identifier, peek_bind, same, here]
    exact (peek_bind _).trans (by rw [same, here]; rfl)

/-- A repetition goes on behind each item, and it is completed where it stops. -/
theorem many_guided {step : Parse (Option α)} {unlimited : Nat → Parse (Option α)}
    (viable : ∀ cursor, Viable closing closing step unlimited cursor) (stops : Completes closing unlimited [] none)
    (progress : ∀ cursor item last, step cursor = .ok (some item) last → last.remaining < cursor.remaining)
    (unlimitedProgress : ∀ more cursor item last, unlimited more cursor = .ok (some item) last →
      last.remaining < cursor.remaining) :
    Guided closing closing (many (fun _ => step) []) fun more => many (fun _ => unlimited more) [] := by
  have starts : Starts closing closing fun more => many (fun _ => unlimited more) [] := by
    refine ⟨[], [], List.forall_mem_nil _, fun next member more => ?_, fun _ member => member⟩
    change Over (many (fun _ => unlimited more) []) [] next (.ok [])
    rw [many_anew _ (unlimitedProgress more)]
    have before : Over (unlimited more) [] (([] : List Token).headD next) (.ok none) := stops next member more
    exact before.bind (.pure [])
  refine ⟨fun cursor => ?_, starts⟩
  -- every item leaves less of the source to be read
  induction length : cursor.remaining using Nat.strongRecOn generalizing cursor with
  | ind length ih =>
    subst length
    have unfolded : (fun more => many (fun _ => unlimited more) []) = fun more => _ :=
      funext fun more => many_anew _ (unlimitedProgress more)
    rw [many_anew step progress, unfolded]
    refine (viable cursor).bind (fun found last success => ?_) fun found => ?_
    · cases found with
      | none => exact (Guided.pure closing []).viable last
      | some item =>
        exact (ih _ (progress _ _ _ success) last rfl).bind
          (fun items after _ => (Guided.pure closing (item :: items)).viable after)
          fun items => (Guided.pure closing (item :: items)).starts
    · cases found with
      | none => exact (Guided.pure closing []).starts
      | some item => exact starts.bind fun items => (Guided.pure closing (item :: items)).starts

end Steps

end Grammar

end OpLang

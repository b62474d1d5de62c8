import Mathlib.Data.List.Induction
import Mathlib.Data.List.Infix
import OpLang.ScopeStack

/-! # Histories of scope stacks

What has been done with a scope stack is a list of operations in any order. Guards are released at any time, more than
once or never, and may come from anywhere. A scope is open from where it is entered for as long as there are more
open scopes than there were before; and as long as it is open, all that is outside of it is as it was.
-/

namespace OpLang

namespace Frame

variable {β : Type} {id : Nat} {frames outer : List (Frame β)}

theorem outside?_eq_none_iff : outside? id frames = none ↔ ∀ frame ∈ frames, frame.id ≠ id := by
  induction frames with
  | nil => simp [outside?]
  | cons frame frames ih =>
    rw [outside?, List.forall_mem_cons]
    split <;> simp [*]

theorem exists_of_outside? (found : outside? id frames = some outer) :
    ∃ inner frame, frames = inner ++ frame :: outer ∧ frame.id = id := by
  induction frames with
  | nil => cases found
  | cons frame frames ih =>
    rw [outside?] at found
    split at found
    · next same =>
      cases found
      exact ⟨[], frame, rfl, same⟩
    · obtain ⟨inner, other, rfl, same⟩ := ih found
      exact ⟨frame :: inner, other, rfl, same⟩

/-- Frames inside the wanted one have other numbers, so that it is found. -/
theorem outside?_append {inner : List (Frame β)} {frame : Frame β} (apart : ∀ other ∈ inner, other.id ≠ id)
    (same : frame.id = id) : outside? id (inner ++ frame :: outer) = some outer := by
  induction inner with
  | nil => exact if_pos same
  | cons other inner ih =>
    obtain ⟨here, later⟩ := List.forall_mem_cons.mp apart
    rw [List.cons_append, outside?, if_neg here, ih later]

end Frame

namespace ScopeStack

variable {β : Type}

inductive Operation (β : Type) where
  | enter
  | bind (name : String) (value : β)
  | release (guard : Guard)
  /-- The guard is lost, and its scope stays open. -/
  | leak (guard : Guard)
  deriving DecidableEq

def perform (stack : ScopeStack β) : Operation β → ScopeStack β
  | .enter => stack.enter.2
  | .bind name value => (stack.bind name value).2
  | .release guard => stack.release guard
  | .leak _ => stack

/-- A new stack after operations, earliest first. -/
def after (history : List (Operation β)) : ScopeStack β := history.foldl perform empty

@[simp] theorem after_nil : after ([] : List (Operation β)) = empty := rfl

@[simp] theorem after_concat (history : List (Operation β)) (operation : Operation β) :
    after (history ++ [operation]) = (after history).perform operation := by
  rw [after, List.foldl_append]
  rfl

theorem after_cons_concat (before : List (Operation β)) (operation : Operation β) (since : List (Operation β))
    (last : Operation β) :
    after (before ++ operation :: (since ++ [last])) = (after (before ++ operation :: since)).perform last := by
  rw [← List.cons_append, ← List.append_assoc, after_concat]

/-- The scope of a guard is open. -/
def IsOpen (stack : ScopeStack β) (guard : Guard) : Prop := ∃ frame ∈ stack.frames, frame.id = guard.id

instance (stack : ScopeStack β) (guard : Guard) : Decidable (stack.IsOpen guard) :=
  inferInstanceAs (Decidable (∃ frame ∈ stack.frames, frame.id = guard.id))

theorem not_isOpen_iff {stack : ScopeStack β} {guard : Guard} :
    ¬ stack.IsOpen guard ↔ ∀ frame ∈ stack.frames, frame.id ≠ guard.id := by
  simp only [IsOpen, not_exists, not_and, ne_eq]

/-! ## Steps -/

/-- What an operation does with a stack. -/
inductive Performs (stack : ScopeStack β) : Operation β → ScopeStack β → Prop
  | entered : Performs stack .enter ⟨⟨stack.nextId, []⟩ :: stack.frames, stack.nextId + 1⟩
  | bound {name : String} {value : β} {frame : Frame β} {outer : List (Frame β)}
      (frames : stack.frames = frame :: outer) :
      Performs stack (.bind name value)
        ⟨{ frame with bindings := (name, value) :: frame.bindings } :: outer, stack.nextId⟩
  | unbound {name : String} {value : β} (frames : stack.frames = []) : Performs stack (.bind name value) stack
  | closed {guard : Guard} {inner outer : List (Frame β)} {frame : Frame β}
      (frames : stack.frames = inner ++ frame :: outer) (same : frame.id = guard.id) :
      Performs stack (.release guard) ⟨outer, stack.nextId⟩
  | gone {guard : Guard} (gone : ¬ stack.IsOpen guard) : Performs stack (.release guard) stack
  | leaked {guard : Guard} : Performs stack (.leak guard) stack

theorem release_eq_self {stack : ScopeStack β} {guard : Guard} (gone : ¬ stack.IsOpen guard) :
    stack.release guard = stack := by
  rw [release, Frame.outside?_eq_none_iff.mpr (not_isOpen_iff.mp gone), Option.getD_none]

theorem performs (stack : ScopeStack β) (operation : Operation β) :
    Performs stack operation (stack.perform operation) := by
  cases operation with
  | enter => exact .entered
  | bind name value =>
    rw [perform, bind]
    split
    · next frames => exact .unbound frames
    · next frame outer frames => exact .bound frames
  | release guard =>
    rw [perform]
    cases found : Frame.outside? guard.id stack.frames with
    | none =>
      have gone := not_isOpen_iff.mpr (Frame.outside?_eq_none_iff.mp found)
      rw [release_eq_self gone]
      exact .gone gone
    | some outer =>
      obtain ⟨inner, frame, frames, same⟩ := Frame.exists_of_outside? found
      rw [release, found, Option.getD_some]
      exact .closed frames same
  | leak guard => exact .leaked

/-- Numbers of frames have been given out, and later ones to the inner frames. -/
structure Numbered (stack : ScopeStack β) : Prop where
  below : ∀ frame ∈ stack.frames, frame.id < stack.nextId
  decreasing : stack.frames.Pairwise fun inner outer => outer.id < inner.id

theorem Numbered.perform {stack : ScopeStack β} (numbered : stack.Numbered) (operation : Operation β) :
    (stack.perform operation).Numbered := by
  obtain ⟨below, decreasing⟩ := numbered
  have performs := stack.performs operation
  generalize stack.perform operation = next at performs ⊢
  cases performs with
  | entered =>
    have others : ∀ frame ∈ stack.frames, frame.id < stack.nextId + 1 :=
      fun frame member => Nat.lt_succ_of_lt (below frame member)
    exact ⟨List.forall_mem_cons.mpr ⟨Nat.lt_succ_self _, others⟩, List.pairwise_cons.mpr ⟨below, decreasing⟩⟩
  | bound frames =>
    rw [frames] at below decreasing
    exact ⟨List.forall_mem_cons.mpr (List.forall_mem_cons.mp below),
      List.pairwise_cons.mpr (List.pairwise_cons.mp decreasing)⟩
  | closed frames =>
    rw [frames] at below decreasing
    refine ⟨fun frame member => below frame ?_, ?_⟩
    · exact List.mem_append_right _ (List.mem_cons_of_mem _ member)
    · exact (List.pairwise_cons.mp (List.pairwise_append.mp decreasing).2.1).2
  | unbound | gone | leaked => exact ⟨below, decreasing⟩

theorem numbered_after (history : List (Operation β)) : (after history).Numbered := by
  induction history using List.reverseRecOn with
  | nil => exact ⟨List.forall_mem_nil _, .nil⟩
  | append_singleton history operation ih =>
    rw [after_concat]
    exact ih.perform operation

theorem nextId_le_perform (stack : ScopeStack β) (operation : Operation β) :
    stack.nextId ≤ (stack.perform operation).nextId := by
  have performs := stack.performs operation
  generalize stack.perform operation = next at performs ⊢
  cases performs with
  | entered => exact Nat.le_succ _
  | _ => exact Nat.le_refl _

theorem nextId_le_after (before since : List (Operation β)) :
    (after before).nextId ≤ (after (before ++ since)).nextId := by
  induction since using List.reverseRecOn with
  | nil => rw [List.append_nil]
  | append_singleton since operation ih =>
    rw [← List.append_assoc, after_concat]
    exact Nat.le_trans ih (nextId_le_perform _ operation)

/-- A guard that has been given out is not given out for another scope. -/
theorem not_isOpen_perform {stack : ScopeStack β} {guard : Guard} (given : guard.id < stack.nextId)
    (gone : ¬ stack.IsOpen guard) (operation : Operation β) : ¬ (stack.perform operation).IsOpen guard := by
  rw [not_isOpen_iff] at gone ⊢
  have performs := stack.performs operation
  generalize stack.perform operation = next at performs ⊢
  cases performs with
  | entered => exact List.forall_mem_cons.mpr ⟨(Nat.ne_of_lt given).symm, gone⟩
  | bound frames =>
    rw [frames] at gone
    exact List.forall_mem_cons.mpr (List.forall_mem_cons.mp gone)
  | closed frames =>
    rw [frames] at gone
    exact fun frame member => gone frame (List.mem_append_right _ (List.mem_cons_of_mem _ member))
  | unbound | gone | leaked => exact gone

/-! ## Open scopes -/

/-- The scope that is entered behind the first operations has not been closed by those since. -/
def StaysOpen (before since : List (Operation β)) : Prop :=
  ∀ first, first <+: since → (after before).depth < (after (before ++ .enter :: first)).depth

instance (before since : List (Operation β)) : Decidable (StaysOpen before since) :=
  decidable_of_iff (∀ first ∈ since.inits, (after before).depth < (after (before ++ .enter :: first)).depth)
    (forall_congr' fun first => imp_congr_left (List.mem_inits first since))

theorem staysOpen_nil (before : List (Operation β)) : StaysOpen before [] := by
  intro first isPrefix
  rw [List.prefix_nil.mp isPrefix, after_concat]
  exact Nat.lt_succ_self _

theorem staysOpen_concat {before since : List (Operation β)} {operation : Operation β} :
    StaysOpen before (since ++ [operation]) ↔
      StaysOpen before since ∧
        (after before).depth < (after (before ++ .enter :: (since ++ [operation]))).depth := by
  simp only [StaysOpen, List.prefix_concat_iff, or_imp, forall_and, forall_eq]
  exact and_comm

/-- A scope with the number is open, and the outer frames are outside of it. -/
def Holds (id : Nat) (outer : List (Frame β)) (stack : ScopeStack β) : Prop :=
  ∃ bindings, ⟨id, bindings⟩ :: outer <:+ stack.frames

section Holds

variable {id : Nat} {outer : List (Frame β)} {stack : ScopeStack β}

theorem Holds.isOpen (holds : Holds id outer stack) (depth : Nat) : stack.IsOpen ⟨id, depth⟩ := by
  obtain ⟨bindings, suffix⟩ := holds
  exact ⟨_, suffix.subset List.mem_cons_self, rfl⟩

theorem Holds.length_lt_depth (holds : Holds id outer stack) : outer.length < stack.depth := by
  obtain ⟨bindings, suffix⟩ := holds
  exact suffix.length_le

/-- The scope is where it was entered. -/
theorem Holds.getElem?_length (holds : Holds id outer stack) :
    (stack.frames.reverse[outer.length]?).map Frame.id = some id := by
  obtain ⟨bindings, inner, frames⟩ := holds
  rw [← frames]
  simp

theorem Holds.release (holds : Holds id outer stack) (numbered : stack.Numbered) (depth : Nat) :
    stack.release ⟨id, depth⟩ = { stack with frames := outer } := by
  obtain ⟨bindings, inner, frames⟩ := holds
  have apart : ∀ other ∈ inner, other.id ≠ id := by
    have decreasing := numbered.decreasing
    rw [← frames] at decreasing
    intro other member
    exact Nat.ne_of_gt ((List.pairwise_append.mp decreasing).2.2 other member _ List.mem_cons_self)
  rw [ScopeStack.release, ← frames, Frame.outside?_append apart rfl, Option.getD_some]

/-- To bind a name in the innermost scope changes none of the numbers. -/
theorem Holds.rebind {next : ScopeStack β} {frame other : Frame β} {rest : List (Frame β)} (holds : Holds id outer stack)
    (frames : stack.frames = frame :: rest) (now : next.frames = other :: rest) (same : frame.id = other.id) :
    Holds id outer next := by
  obtain ⟨bindings, suffix⟩ := holds
  rw [frames] at suffix
  rw [Holds, now]
  cases List.suffix_cons_iff.mp suffix with
  | inl innermost =>
    cases innermost
    cases other
    cases same
    exact ⟨_, List.suffix_refl _⟩
  | inr further => exact ⟨bindings, further.trans (List.suffix_cons _ _)⟩

/-- An operation closes an open scope or leaves all that is outside of it. -/
theorem Holds.perform (holds : Holds id outer stack) (operation : Operation β) :
    Holds id outer (stack.perform operation) ∨ (stack.perform operation).frames <:+ outer := by
  have performs := stack.performs operation
  generalize stack.perform operation = next at performs ⊢
  cases performs with
  | entered =>
    obtain ⟨bindings, suffix⟩ := holds
    exact .inl ⟨bindings, suffix.trans (List.suffix_cons _ _)⟩
  | bound frames => exact .inl (holds.rebind frames rfl rfl)
  | @closed _ inner left frame frames same =>
    obtain ⟨bindings, suffix⟩ := holds
    -- the closed scope is inside of this one, or it is this one, or it is outside
    have leftSuffix : left <:+ stack.frames := (List.suffix_cons frame left).trans ⟨inner, frames.symm⟩
    cases List.suffix_or_suffix_of_suffix suffix leftSuffix with
    | inl kept => exact .inl ⟨bindings, kept⟩
    | inr lost =>
      cases List.suffix_cons_iff.mp lost with
      | inl kept => exact .inl ⟨bindings, kept ▸ List.suffix_refl _⟩
      | inr lost => exact .inr lost
  | unbound | gone | leaked => exact .inl holds

end Holds

/-- A scope that has not been closed stands on the frames that it was entered on, and one that has been closed is not
there again. -/
theorem holds_or_gone (before since : List (Operation β)) :
    StaysOpen before since ∧
        Holds (after before).nextId (after before).frames (after (before ++ .enter :: since)) ∨
      ¬ StaysOpen before since ∧ ¬ (after (before ++ .enter :: since)).IsOpen (after before).enter.1 := by
  induction since using List.reverseRecOn with
  | nil =>
    refine .inl ⟨staysOpen_nil before, [], ?_⟩
    rw [after_concat]
    exact List.suffix_refl _
  | append_singleton since operation ih =>
    rw [staysOpen_concat, after_cons_concat]
    cases ih with
    | inl ih =>
      obtain ⟨stays, holds⟩ := ih
      cases holds.perform operation with
      | inl holds => exact .inl ⟨⟨stays, holds.length_lt_depth⟩, holds⟩
      | inr lost =>
        have shallow : ¬ (after before).depth < _ := Nat.not_lt_of_le lost.length_le
        refine .inr ⟨fun stays => shallow stays.2, not_isOpen_iff.mpr fun frame member => ?_⟩
        exact Nat.ne_of_lt ((numbered_after before).below frame (lost.subset member))
    | inr ih =>
      obtain ⟨closed, gone⟩ := ih
      have given : (after before).nextId < (after (before ++ .enter :: since)).nextId := by
        have entered := nextId_le_after (before ++ [.enter]) since
        rwa [after_concat, List.append_assoc] at entered
      exact .inr ⟨fun stays => closed stays.1, not_isOpen_perform given gone operation⟩

theorem staysOpen_iff_isOpen (before since : List (Operation β)) :
    StaysOpen before since ↔ (after (before ++ .enter :: since)).IsOpen (after before).enter.1 := by
  cases holds_or_gone before since with
  | inl holds => exact iff_of_true holds.1 (holds.2.isOpen _)
  | inr gone => exact iff_of_false gone.1 gone.2

/-- In any history, the numbers of frames increase from the outermost to the innermost. A scope is open as long as there
is a frame with the number of its guard. Until then this frame is where the guard says, and to release the guard makes
the frames what they were before the scope was entered; from then on the guard does nothing. -/
theorem release_restores :
    (∀ history : List (Operation β), ((after history).frames.reverse.map Frame.id).Pairwise (· < ·)) ∧
      ∀ before since : List (Operation β),
        let guard := (after before).enter.1
        let stack := after (before ++ .enter :: since)
        (StaysOpen before since ↔ stack.IsOpen guard) ∧
          (StaysOpen before since →
            (stack.frames.reverse[guard.depth]?).map Frame.id = some guard.id ∧
              stack.release guard = { stack with frames := (after before).frames }) ∧
          (¬ StaysOpen before since → stack.release guard = stack) := by
  constructor
  · intro history
    rw [List.pairwise_map, List.pairwise_reverse]
    exact (numbered_after history).decreasing
  · intro before since guard stack
    refine ⟨staysOpen_iff_isOpen before since, fun stays => ?_, fun closed => ?_⟩
    · have holds : Holds guard.id (after before).frames stack :=
        (holds_or_gone before since).elim And.right fun gone => absurd stays gone.1
      exact ⟨holds.getElem?_length, holds.release (numbered_after _) _⟩
    · exact release_eq_self (mt (staysOpen_iff_isOpen before since).mpr closed)

/-- An inner scope whose guard is lost is closed with the outer one. A guard whose scope is closed spares the scope that
is in its place. -/
theorem release_restores_leaked_stale :
    let before : List (Operation Nat) := [.enter, .bind "x" 1]
    let leaked : List (Operation Nat) := [.bind "x" 2, .enter, .leak ⟨2, 2⟩]
    let stale : List (Operation Nat) := [.release ⟨1, 1⟩, .enter, .bind "x" 3]
    (StaysOpen before leaked ∧
        (after (before ++ .enter :: leaked)).release ⟨1, 1⟩ = ⟨[⟨0, [("x", 1)]⟩], 3⟩) ∧
      ¬ StaysOpen before stale ∧
        (after (before ++ .enter :: stale)).release ⟨1, 1⟩ = ⟨[⟨2, [("x", 3)]⟩, ⟨0, [("x", 1)]⟩], 3⟩ := by
  intro before leaked stale
  have stays : StaysOpen before leaked := by decide
  have closed : ¬ StaysOpen before stale := by decide
  have restored := ((release_restores.2 before leaked).2.1 stays).2
  have spared := (release_restores.2 before stale).2.2 closed
  exact ⟨⟨stays, restored⟩, closed, spared⟩

end ScopeStack

end OpLang

import OpLang.Proofs.ScopeHistory

/-! # The latest binding that is left

What a scope stack finds for a name is what was bound last of all that is left. Inner frames are searched first, and
inner bindings are the later ones: to bind a name in an outer scope, all the scopes inside of it must have been closed.
-/

namespace OpLang

/-- A name with its value, in the scope of a guard. -/
structure Entry (β : Type) where
  guard : Guard
  name : String
  value : β

namespace Frame

variable {β : Type}

/-- The bindings of frames, each with the guard of its scope: inner frames first, and the latest first in each. -/
def rows : List (Frame β) → List (Entry β)
  | [] => []
  | frame :: outer => frame.bindings.map (fun pair => ⟨⟨frame.id, outer.length⟩, pair.1, pair.2⟩) ++ rows outer

theorem lookup_eq_find?_map (bindings : List (String × β)) (guard : Guard) (name : String) :
    bindings.lookup name =
      ((bindings.map fun pair => (⟨guard, pair.1, pair.2⟩ : Entry β)).find? (name == ·.name)).map
        Entry.value := by
  induction bindings with
  | nil => rfl
  | cons binding bindings ih =>
    rw [List.lookup_cons, List.map_cons, List.find?_cons, ih]
    cases name == binding.1 <;> rfl

theorem findSome?_eq (frames : List (Frame β)) (name : String) :
    (frames.findSome? fun frame => frame.find? name) = ((rows frames).find? (name == ·.name)).map Entry.value := by
  induction frames with
  | nil => rfl
  | cons frame outer ih =>
    rw [List.findSome?_cons, Frame.find?, lookup_eq_find?_map _ ⟨frame.id, outer.length⟩, rows, List.find?_append, ih]
    cases List.find? _ (List.map _ frame.bindings) <;> rfl

theorem levelOf?_eq (frames : List (Frame β)) (name : String) :
    levelOf? name frames = ((rows frames).find? (name == ·.name)).map fun binding => binding.guard.depth := by
  induction frames with
  | nil => rfl
  | cons frame outer ih =>
    rw [levelOf?, Frame.find?, lookup_eq_find?_map _ ⟨frame.id, outer.length⟩, rows, List.find?_append, ih]
    cases found : List.find? _ (List.map _ frame.bindings) with
    | none => rfl
    | some binding =>
      obtain ⟨pair, _, rfl⟩ := List.mem_map.mp (List.mem_of_find?_eq_some found)
      rfl

theorem exists_of_mem_rows {frames : List (Frame β)} {binding : Entry β} (member : binding ∈ rows frames) :
    binding.guard.depth < frames.length ∧ ∃ frame ∈ frames, frame.id = binding.guard.id := by
  induction frames with
  | nil => cases member
  | cons frame outer ih =>
    cases List.mem_append.mp member with
    | inl here =>
      obtain ⟨pair, _, rfl⟩ := List.mem_map.mp here
      exact ⟨Nat.lt_succ_self _, frame, List.mem_cons_self, rfl⟩
    | inr further =>
      obtain ⟨below, other, isOuter, same⟩ := ih further
      exact ⟨Nat.lt_succ_of_lt below, other, List.mem_cons_of_mem _ isOuter, same⟩

/-- Of the rows of frames, those of the outer frames are left when the inner ones are removed. -/
theorem filter_rows_append {inner outer : List (Frame β)} {kept : Entry β → Bool}
    (inside : ∀ binding, (∃ frame ∈ inner, frame.id = binding.guard.id) → kept binding = false)
    (outside : ∀ binding, (∃ frame ∈ outer, frame.id = binding.guard.id) → kept binding = true) :
    (rows (inner ++ outer)).filter kept = rows outer := by
  induction inner with
  | nil => exact List.filter_eq_self.mpr fun binding member => outside binding (exists_of_mem_rows member).2
  | cons frame inner ih =>
    have further : ∀ binding, (∃ frame ∈ inner, frame.id = binding.guard.id) → kept binding = false :=
      fun binding ⟨other, member, same⟩ => inside binding ⟨other, List.mem_cons_of_mem _ member, same⟩
    rw [List.cons_append, rows, List.filter_append, ih further, List.filter_eq_nil_iff.mpr, List.nil_append]
    intro binding member
    obtain ⟨pair, _, rfl⟩ := List.mem_map.mp member
    exact Bool.not_eq_true _ ▸ inside _ ⟨frame, List.mem_cons_self, rfl⟩

end Frame

namespace ScopeStack

variable {β : Type}

/-- The guard of the innermost scope. -/
def innermost? (stack : ScopeStack β) : Option Guard :=
  match stack.frames with
  | [] => none
  | frame :: outer => some ⟨frame.id, outer.length⟩

/-- What an operation binds. -/
def binding? (stack : ScopeStack β) : Operation β → Option (Entry β)
  | .bind name value => stack.innermost?.map fun guard => ⟨guard, name, value⟩
  | _ => none

/-- What operations bind, latest first. -/
def log (stack : ScopeStack β) : List (Operation β) → List (Entry β)
  | [] => []
  | operation :: since => (stack.perform operation).log since ++ (stack.binding? operation).toList

theorem log_concat (stack : ScopeStack β) (operations : List (Operation β)) (last : Operation β) :
    stack.log (operations ++ [last]) =
      ((operations.foldl perform stack).binding? last).toList ++ stack.log operations := by
  induction operations generalizing stack with
  | nil => exact (List.append_nil _).symm
  | cons operation operations ih => rw [List.cons_append, log, ih, log, List.append_assoc, List.foldl_cons]

theorem binding?_eq_some_iff {stack : ScopeStack β} {operation : Operation β} {binding : Entry β} :
    stack.binding? operation = some binding ↔
      operation = .bind binding.name binding.value ∧ stack.innermost? = some binding.guard := by
  cases operation with
  | bind name value =>
    simp only [binding?, Option.map_eq_some_iff, Operation.bind.injEq]
    constructor
    · rintro ⟨guard, innermost, rfl⟩
      exact ⟨⟨rfl, rfl⟩, innermost⟩
    · rintro ⟨⟨rfl, rfl⟩, innermost⟩
      exact ⟨_, innermost, rfl⟩
  | _ => simp [binding?]

theorem mem_log_iff {stack : ScopeStack β} {operations : List (Operation β)} {binding : Entry β} :
    binding ∈ stack.log operations ↔
      ∃ before since, operations = before ++ .bind binding.name binding.value :: since ∧
        (before.foldl perform stack).innermost? = some binding.guard := by
  induction operations generalizing stack with
  | nil => simp [log]
  | cons operation operations ih =>
    rw [log, List.mem_append, ih, Option.mem_toList, binding?_eq_some_iff]
    constructor
    · rintro (⟨before, since, rfl, innermost⟩ | ⟨rfl, innermost⟩)
      · exact ⟨operation :: before, since, rfl, innermost⟩
      · exact ⟨[], operations, rfl, innermost⟩
    · rintro ⟨_ | ⟨_, before⟩, since, split, innermost⟩ <;> cases split
      · exact .inr ⟨rfl, innermost⟩
      · exact .inl ⟨before, since, rfl, innermost⟩

/-- The first binding of a kind in the log is the last one that was made. -/
theorem find?_log_eq_some_iff {stack : ScopeStack β} {operations : List (Operation β)} {wanted : Entry β → Bool}
    {binding : Entry β} :
    (stack.log operations).find? wanted = some binding ↔
      wanted binding ∧ ∃ before since, operations = before ++ .bind binding.name binding.value :: since ∧
        (before.foldl perform stack).innermost? = some binding.guard ∧
        ∀ later ∈ (((before.foldl perform stack).bind binding.name binding.value).2).log since, ¬ wanted later := by
  induction operations generalizing stack with
  | nil => simp [log]
  | cons operation operations ih =>
    rw [log, List.find?_append, Option.or_eq_some_iff, ih, List.find?_eq_none]
    constructor
    · rintro (⟨isWanted, before, since, rfl, innermost, last⟩ | ⟨last, found⟩)
      · exact ⟨isWanted, operation :: before, since, rfl, innermost, last⟩
      · have member := List.mem_of_find?_eq_some found
        rw [Option.mem_toList, binding?_eq_some_iff] at member
        obtain ⟨rfl, innermost⟩ := member
        exact ⟨List.find?_some found, [], operations, rfl, innermost, last⟩
    · -- the binding is made by the first operation, where all that is in the log behind it is unwanted, or further on
      rintro ⟨isWanted, _ | ⟨_, before⟩, since, split, innermost, last⟩ <;> cases split
      · refine .inr ⟨last, ?_⟩
        have made : stack.binding? _ = some binding := binding?_eq_some_iff.mpr ⟨rfl, innermost⟩
        rw [made]
        exact List.find?_cons_of_pos isWanted
      · exact .inl ⟨isWanted, before, since, rfl, innermost, last⟩

/-! ## What is left of a log -/

theorem innermost?_eq_some_iff {stack : ScopeStack β} {guard : Guard} :
    stack.innermost? = some guard ↔
      ∃ frame outer, stack.frames = frame :: outer ∧ guard = ⟨frame.id, outer.length⟩ := by
  rw [innermost?]
  cases stack.frames with
  | nil => simp
  | cons frame outer =>
    rw [Option.some.injEq]
    constructor
    · rintro rfl
      exact ⟨frame, outer, rfl, rfl⟩
    · rintro ⟨_, _, same, rfl⟩
      cases same
      rfl

/-- The guards of a log have been given out. -/
theorem id_lt_nextId_of_mem_log {history : List (Operation β)} {binding : Entry β}
    (member : binding ∈ empty.log history) : binding.guard.id < (after history).nextId := by
  obtain ⟨before, since, rfl, innermost⟩ := mem_log_iff.mp member
  obtain ⟨frame, outer, frames, same⟩ := innermost?_eq_some_iff.mp innermost
  have given : frame.id < (after before).nextId := by
    refine (numbered_after before).below frame ?_
    rw [after, frames]
    exact List.mem_cons_self
  rw [same]
  exact Nat.lt_of_lt_of_le given (nextId_le_after before _)

/-- Frames that are left hold what was left before, as far as it is in them. -/
theorem filter_isOpen_of_suffix {stack next : ScopeStack β} (fewer : next.frames <:+ stack.frames)
    (made : List (Entry β)) :
    (made.filter (stack.IsOpen ·.guard)).filter (next.IsOpen ·.guard) = made.filter (next.IsOpen ·.guard) := by
  rw [List.filter_filter]
  refine List.filter_congr fun binding _ => ?_
  rw [← Bool.decide_and]
  refine decide_eq_decide.mpr (and_iff_left_of_imp ?_)
  rintro ⟨frame, member, same⟩
  exact ⟨frame, fewer.subset member, same⟩

/-- The rows that are left when the inner frames are closed are those of the outer frames. -/
theorem filter_isOpen_rows {inner outer : List (Frame β)} {nextId : Nat}
    (decreasing : (inner ++ outer).Pairwise fun inner outer => outer.id < inner.id) :
    (Frame.rows (inner ++ outer)).filter (IsOpen ⟨outer, nextId⟩ ·.guard) = Frame.rows outer := by
  have apart := (List.pairwise_append.mp decreasing).2.2
  refine Frame.filter_rows_append ?_ fun binding isOpen => decide_eq_true isOpen
  rintro binding ⟨frame, isInner, named⟩
  refine decide_eq_false ?_
  rintro ⟨other, isOuter, alike⟩
  exact Nat.ne_of_lt (apart frame isInner other isOuter) (alike.trans named.symm)

/-- One operation keeps the rows of the frames to the part of the log that is left. -/
theorem rows_perform {stack : ScopeStack β} {made : List (Entry β)} (numbered : stack.Numbered)
    (given : ∀ binding ∈ made, binding.guard.id < stack.nextId)
    (rows : Frame.rows stack.frames = made.filter (stack.IsOpen ·.guard)) (operation : Operation β) :
    Frame.rows (stack.perform operation).frames =
      ((stack.binding? operation).toList ++ made).filter ((stack.perform operation).IsOpen ·.guard) := by
  have performs := stack.performs operation
  generalize stack.perform operation = next at performs ⊢
  cases performs with
  | entered =>
    -- the new number is in no guard of the log
    change Frame.rows stack.frames = made.filter _
    rw [rows]
    refine List.filter_congr fun binding member => decide_eq_decide.mpr ?_
    have apart := (Nat.ne_of_lt (given binding member)).symm
    simp [IsOpen, apart]
  | @bound name value frame outer frames =>
    have binds : stack.binding? (.bind name value) = some ⟨⟨frame.id, outer.length⟩, name, value⟩ :=
      binding?_eq_some_iff.mpr ⟨rfl, innermost?_eq_some_iff.mpr ⟨frame, outer, frames, rfl⟩⟩
    have alike (binding : Entry β) :
        decide (IsOpen ⟨{ frame with bindings := (name, value) :: frame.bindings } :: outer, stack.nextId⟩
          binding.guard) = decide (stack.IsOpen binding.guard) := by
      refine decide_eq_decide.mpr ?_
      simp only [IsOpen, frames, List.exists_mem_cons_iff]
    have isOpen : stack.IsOpen ⟨frame.id, outer.length⟩ := ⟨frame, frames ▸ List.mem_cons_self, rfl⟩
    rw [binds, funext alike, Option.toList_some, List.singleton_append, List.filter_cons,
      if_pos (decide_eq_true isOpen), ← rows, frames]
    rfl
  | unbound frames =>
    have none : stack.innermost? = none := by rw [innermost?, frames]
    rw [binding?, none]
    exact rows
  | @closed guard inner outer frame frames same =>
    have split : stack.frames = (inner ++ [frame]) ++ outer := by rw [frames, List.append_assoc]; rfl
    have decreasing := numbered.decreasing
    rw [split] at decreasing
    calc
      Frame.rows outer
        = (Frame.rows ((inner ++ [frame]) ++ outer)).filter (IsOpen ⟨outer, stack.nextId⟩ ·.guard) :=
          (filter_isOpen_rows decreasing).symm
      _ = made.filter (IsOpen ⟨outer, stack.nextId⟩ ·.guard) := by
          rw [← split, rows]
          exact filter_isOpen_of_suffix ⟨_, split.symm⟩ made
  | gone | leaked => exact rows

theorem rows_after (history : List (Operation β)) :
    Frame.rows (after history).frames = (empty.log history).filter ((after history).IsOpen ·.guard) := by
  induction history using List.reverseRecOn with
  | nil => rfl
  | append_singleton history operation ih =>
    rw [after_concat, log_concat]
    exact rows_perform (numbered_after history) (fun _ => id_lt_nextId_of_mem_log) ih operation

/-! ## The latest binding -/

/-- A binding behind the first operations has taken effect, and the later ones have not closed its scope. -/
def Survives (before : List (Operation β)) (name : String) (value : β) (since : List (Operation β)) : Prop :=
  ((after before).bind name value).1 = true ∧
    ∃ guard ∈ (after before).innermost?, (after (before ++ .bind name value :: since)).IsOpen guard

/-- Of the bindings of a name in the later operations, none survives. -/
def NoneSurvives (before since : List (Operation β)) (name : String) : Prop :=
  ∀ between value rest, since = between ++ .bind name value :: rest → ¬ Survives (before ++ between) name value rest

/-- A binding in a history survives, and no later one of the name does. -/
structure IsLatest (history : List (Operation β)) (name : String) (value : β) (before since : List (Operation β)) :
    Prop where
  made : history = before ++ .bind name value :: since
  survives : Survives before name value since
  last : NoneSurvives (before ++ [.bind name value]) since name

theorem survives_iff {before since : List (Operation β)} {name : String} {value : β} :
    Survives before name value since ↔
      ∃ guard, (after before).innermost? = some guard ∧ (after (before ++ .bind name value :: since)).IsOpen guard := by
  refine and_iff_right_of_imp ?_
  rintro ⟨guard, innermost, _⟩
  obtain ⟨frame, outer, frames, _⟩ := innermost?_eq_some_iff.mp innermost
  rw [bind, frames]

/-- None survives just when the log of the later operations binds the name in no scope that is open in the end. -/
theorem noneSurvives_iff {before since : List (Operation β)} {name : String} :
    NoneSurvives before since name ↔
      ∀ binding ∈ (after before).log since,
        ¬ ((after (before ++ since)).IsOpen binding.guard ∧ name = binding.name) := by
  simp only [mem_log_iff, NoneSurvives, survives_iff]
  constructor
  · rintro none binding ⟨between, rest, rfl, innermost⟩ ⟨isOpen, rfl⟩
    refine none between binding.value rest rfl ⟨binding.guard, ?_, ?_⟩
    · rw [after, List.foldl_append]
      exact innermost
    · rw [List.append_assoc]
      exact isOpen
  · rintro none between value rest rfl ⟨guard, innermost, isOpen⟩
    rw [after, List.foldl_append] at innermost
    rw [List.append_assoc] at isOpen
    exact none ⟨guard, name, value⟩ ⟨between, rest, rfl, innermost⟩ ⟨isOpen, rfl⟩

theorem find?_rows_eq_none_iff {history : List (Operation β)} {name : String} :
    (Frame.rows (after history).frames).find? (name == ·.name) = none ↔ NoneSurvives [] history name := by
  rw [rows_after, List.find?_filter, List.find?_eq_none, noneSurvives_iff]
  simp only [decide_eq_true_eq, beq_iff_eq, after_nil, List.nil_append]

theorem find?_rows_eq_some_iff {history : List (Operation β)} {name : String} {binding : Entry β} :
    (Frame.rows (after history).frames).find? (name == ·.name) = some binding ↔
      name = binding.name ∧ ∃ before since, IsLatest history name binding.value before since ∧
        (after before).innermost? = some binding.guard := by
  rw [rows_after, List.find?_filter, find?_log_eq_some_iff]
  simp only [decide_eq_true_eq, beq_iff_eq]
  constructor
  · rintro ⟨⟨isOpen, rfl⟩, before, since, rfl, innermost, last⟩
    refine ⟨rfl, before, since, ⟨rfl, survives_iff.mpr ⟨_, innermost, isOpen⟩, noneSurvives_iff.mpr ?_⟩, innermost⟩
    rw [after_concat, List.append_assoc]
    exact last
  · rintro ⟨rfl, before, since, ⟨rfl, survives, last⟩, innermost⟩
    obtain ⟨guard, same, isOpen⟩ := survives_iff.mp survives
    cases innermost.symm.trans same
    refine ⟨⟨isOpen, rfl⟩, before, since, rfl, innermost, ?_⟩
    rw [noneSurvives_iff, after_concat, List.append_assoc] at last
    exact last

/-- A scope that is open behind an operation was open before it, or is entered by it. -/
theorem Holds.of_perform {id : Nat} {outer : List (Frame β)} {stack : ScopeStack β} {operation : Operation β}
    (holds : Holds id outer (stack.perform operation)) :
    Holds id outer stack ∨ operation = .enter ∧ stack.enter.1 = ⟨id, outer.length⟩ := by
  have performs := stack.performs operation
  generalize stack.perform operation = next at performs holds
  cases performs with
  | entered =>
    obtain ⟨bindings, suffix⟩ := holds
    cases List.suffix_cons_iff.mp suffix with
    | inl innermost =>
      cases innermost
      exact .inr ⟨rfl, rfl⟩
    | inr further => exact .inl ⟨bindings, further⟩
  | bound frames => exact .inl (holds.rebind rfl frames rfl)
  | @closed _ inner left frame frames same =>
    obtain ⟨bindings, suffix⟩ := holds
    have leftSuffix : left <:+ stack.frames := (List.suffix_cons frame left).trans ⟨inner, frames.symm⟩
    exact .inl ⟨bindings, suffix.trans leftSuffix⟩
  | unbound | gone | leaked => exact .inl holds

/-- Where an open scope was entered. -/
theorem Holds.exists_entered {id : Nat} {outer : List (Frame β)} {history : List (Operation β)}
    (holds : Holds id outer (after history)) :
    ∃ outside inside, history = outside ++ .enter :: inside ∧ (after outside).enter.1 = ⟨id, outer.length⟩ := by
  induction history using List.reverseRecOn with
  | nil =>
    obtain ⟨bindings, suffix⟩ := holds
    cases List.suffix_nil.mp suffix
  | append_singleton history operation ih =>
    rw [after_concat] at holds
    cases holds.of_perform with
    | inl holds =>
      obtain ⟨outside, inside, rfl, same⟩ := ih holds
      exact ⟨outside, inside ++ [operation], by rw [List.append_assoc, List.cons_append], same⟩
    | inr entered =>
      obtain ⟨rfl, same⟩ := entered
      exact ⟨history, [], rfl, same⟩

/-- In any history, a name has the value of its latest binding that survives, and none if there is no such binding. It is
at the level where the scope of this binding was entered, which has stayed open since. -/
theorem find?_latest (history : List (Operation β)) (name : String) :
    let stack := after history
    (∀ value, stack.find? name = some value ↔ ∃ before since, IsLatest history name value before since) ∧
      (stack.find? name = none ↔ NoneSurvives [] history name) ∧
      (∀ value before since, IsLatest history name value before since →
        ∃ outside inside, before = outside ++ .enter :: inside ∧
          (after before).innermost? = some (after outside).enter.1 ∧
          StaysOpen outside (inside ++ .bind name value :: since) ∧
          stack.levelOf? name = some (after outside).enter.1.depth) ∧
      (stack.levelOf? name).isSome = (stack.find? name).isSome ∧
      (∀ level ∈ stack.levelOf? name, level < stack.depth) ∧
      ∀ value, (stack.bind name value).1 = false ↔ stack.depth = 0 := by
  intro stack
  have finds : stack.find? name = ((Frame.rows stack.frames).find? (name == ·.name)).map Entry.value :=
    Frame.findSome?_eq _ _
  have levels := Frame.levelOf?_eq stack.frames name
  refine ⟨fun value => ?_, ?_, ?_, ?_, ?_, stack.bind_eq_false_iff name⟩
  · rw [finds, Option.map_eq_some_iff]
    constructor
    · rintro ⟨binding, found, rfl⟩
      obtain ⟨_, before, since, latest, _⟩ := find?_rows_eq_some_iff.mp found
      exact ⟨before, since, latest⟩
    · rintro ⟨before, since, latest⟩
      obtain ⟨guard, innermost, _⟩ := survives_iff.mp latest.survives
      exact ⟨⟨guard, name, value⟩, find?_rows_eq_some_iff.mpr ⟨rfl, before, since, latest, innermost⟩, rfl⟩
  · rw [finds, Option.map_eq_none_iff, find?_rows_eq_none_iff]
  · intro value before since latest
    obtain ⟨guard, innermost, isOpen⟩ := survives_iff.mp latest.survives
    obtain ⟨frame, outer, frames, rfl⟩ := innermost?_eq_some_iff.mp innermost
    have holds : Holds frame.id outer (after before) := ⟨frame.bindings, frames ▸ List.suffix_refl _⟩
    have found : (Frame.rows stack.frames).find? (name == ·.name) = some ⟨⟨frame.id, outer.length⟩, name, value⟩ :=
      find?_rows_eq_some_iff.mpr ⟨rfl, before, since, latest, innermost⟩
    obtain ⟨outside, inside, rfl, entered⟩ := holds.exists_entered
    rw [List.append_assoc, List.cons_append, ← entered, ← staysOpen_iff_isOpen] at isOpen
    refine ⟨outside, inside, rfl, entered ▸ innermost, isOpen, ?_⟩
    rw [ScopeStack.levelOf?, levels, found, entered, Option.map_some]
  · rw [ScopeStack.levelOf?, levels, finds, Option.isSome_map, Option.isSome_map]
  · intro level found
    rw [ScopeStack.levelOf?, levels, Option.mem_def, Option.map_eq_some_iff] at found
    obtain ⟨binding, found, rfl⟩ := found
    exact (Frame.exists_of_mem_rows (List.mem_of_find?_eq_some found)).1

/-- What was bound in a closed scope gives way to what it had hidden. -/
theorem find?_latest_restored :
    let history : List (Operation Nat) :=
      [.enter, .bind "x" 1, .enter, .bind "x" 2, .bind "y" 3, .enter, .leak ⟨2, 2⟩, .release ⟨1, 1⟩]
    (∃ outside inside since, IsLatest history "x" 1 (outside ++ .enter :: inside) since ∧
        StaysOpen outside (inside ++ .bind "x" 1 :: since) ∧ (after outside).depth = 0) ∧
      NoneSurvives [] history "y" := by
  intro history
  obtain ⟨found, _, levels, _⟩ := find?_latest history "x"
  obtain ⟨_, since, latest⟩ := (found 1).mp rfl
  obtain ⟨outside, inside, rfl, _, stays, level⟩ := levels 1 _ since latest
  have outermost : (after history).levelOf? "x" = some 0 := rfl
  have entered : (after outside).depth = 0 := Option.some.inj (level.symm.trans outermost)
  exact ⟨⟨outside, inside, since, latest, stays, entered⟩, (find?_latest history "y").2.1.mp rfl⟩

end ScopeStack

end OpLang

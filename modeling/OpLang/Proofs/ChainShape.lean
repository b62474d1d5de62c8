import OpLang.Grammar.Chain

/-! # The shape of operator chains

The tree of a chain splits at the rightmost operator of least precedence, and so do its two sides. This
fixes the tree without a word about how the library finds it, which is by one pass over the links with
the operators that still wait for their right operand on a stack.
-/

namespace OpLang

/-- A tree of a chain: at its root is the rightmost of the operators that bind least. -/
inductive Splits : Expr → List Link → Expr → Prop
  | operand (first : Expr) : Splits first [] first
  | root {first lhs rhs : Expr} {left right : List Link} {link : Link}
      (least : ∀ other ∈ left, link.precedence ≤ other.precedence)
      (rightmost : ∀ other ∈ right, link.precedence < other.precedence)
      (before : Splits first left lhs) (after : Splits link.operand right rhs) :
      Splits first (left ++ link :: right) (.binary link.symbol lhs rhs)

namespace Pending

/-- An operator that binds less tightly than the bound stays pending below all others. -/
private theorem completeDownTo_append (bound : Int) (pending : List Pending) (bottom : Pending) (rhs : Expr)
    (loose : bottom.precedence < bound) :
    completeDownTo bound (pending ++ [bottom]) rhs =
      ((completeDownTo bound pending rhs).1 ++ [bottom], (completeDownTo bound pending rhs).2) := by
  induction pending generalizing rhs with
  | nil =>
    have stays : ¬ bound ≤ bottom.precedence := by omega
    simp only [List.nil_append, completeDownTo, if_neg stays]
  | cons innermost outer ih =>
    simp only [List.cons_append, completeDownTo]
    split
    · exact ih _
    · rfl

/-- What stays pending was pending before. -/
private theorem mem_of_mem_completeDownTo {bound : Int} {pending : List Pending} {rhs : Expr}
    {entry : Pending} (member : entry ∈ (completeDownTo bound pending rhs).1) : entry ∈ pending := by
  induction pending generalizing rhs with
  | nil => simpa only [completeDownTo] using member
  | cons innermost outer ih =>
    simp only [completeDownTo] at member
    split at member
    · exact List.mem_cons_of_mem _ (ih member)
    · exact member

/-- An operator that binds less tightly than all pending ones completes them all. -/
private theorem completeDownTo_of_le {bound : Int} {pending : List Pending} (rhs : Expr)
    (tight : ∀ entry ∈ pending, bound ≤ entry.precedence) :
    completeDownTo bound pending rhs = ([], pending.foldl (fun rhs outer => outer.complete rhs) rhs) := by
  induction pending generalizing rhs with
  | nil => rfl
  | cons innermost outer ih =>
    rw [completeDownTo, if_pos (tight innermost (List.mem_cons_self ..))]
    exact ih _ (fun entry member => tight entry (List.mem_cons_of_mem _ member))

end Pending

namespace Link

/-- A pending operator that binds less tightly than all links to come takes all of them on its right. -/
private theorem treeBelow_append (pending : List Pending) (bottom : Pending) (first : Expr)
    (links : List Link) (tight : ∀ link ∈ links, bottom.precedence < link.precedence) :
    treeBelow (pending ++ [bottom]) first links = bottom.complete (treeBelow pending first links) := by
  induction links generalizing pending first with
  | nil => simp only [treeBelow, List.foldl_append, List.foldl_cons, List.foldl_nil]
  | cons link links ih =>
    have loose := tight link (List.mem_cons_self ..)
    have others := fun other member => tight other (List.mem_cons_of_mem link member)
    simp only [treeBelow, Pending.completeDownTo_append _ _ _ _ loose]
    exact ih (⟨_, link.symbol, link.precedence⟩ :: _) link.operand others

/-- A link that binds less tightly than all before it takes all of them on its left. -/
private theorem treeBelow_least (pending : List Pending) (first : Expr) (left : List Link) (link : Link)
    (right : List Link) (below : ∀ entry ∈ pending, link.precedence ≤ entry.precedence)
    (least : ∀ other ∈ left, link.precedence ≤ other.precedence) :
    treeBelow pending first (left ++ link :: right) =
      treeBelow [⟨treeBelow pending first left, link.symbol, link.precedence⟩] link.operand right := by
  induction left generalizing pending first with
  | nil => simp only [List.nil_append, treeBelow, Pending.completeDownTo_of_le first below]
  | cons other left ih =>
    simp only [List.cons_append, treeBelow]
    apply ih
    · intro entry member
      rcases List.mem_cons.mp member with rfl | member
      · exact least other (List.mem_cons_self ..)
      · exact below entry (Pending.mem_of_mem_completeDownTo member)
    · exact fun entry member => least entry (List.mem_cons_of_mem _ member)

/-- The tree of a chain splits at the rightmost operator of least precedence. -/
theorem tree_append_cons (first : Expr) (left right : List Link) (link : Link)
    (least : ∀ other ∈ left, link.precedence ≤ other.precedence)
    (rightmost : ∀ other ∈ right, link.precedence < other.precedence) :
    tree first (left ++ link :: right) = .binary link.symbol (tree first left) (tree link.operand right) := by
  rw [tree, treeBelow_least [] first left link right (by simp) least]
  exact treeBelow_append [] ⟨tree first left, link.symbol, link.precedence⟩ link.operand right rightmost

/-- A link takes the tighter links after it into its operand, and what follows them continues its tree. -/
theorem tree_cons_append (first : Expr) (link : Link) (inner outer : List Link)
    (tighter : ∀ other ∈ inner, link.precedence < other.precedence)
    (looser : ∀ other ∈ outer.head?, other.precedence ≤ link.precedence) :
    tree first (link :: (inner ++ outer)) = tree (.binary link.symbol first (tree link.operand inner)) outer := by
  cases outer with
  | nil =>
    rw [List.append_nil]
    exact tree_append_cons first [] inner link (List.forall_mem_nil _) tighter
  | cons next outer =>
    have loose : next.precedence ≤ link.precedence := looser next rfl
    have inside : treeBelow [⟨first, link.symbol, link.precedence⟩] link.operand inner =
        .binary link.symbol first (tree link.operand inner) :=
      treeBelow_append [] ⟨first, link.symbol, link.precedence⟩ link.operand inner tighter
    have cut := treeBelow_least [⟨first, link.symbol, link.precedence⟩] link.operand inner next outer
      (List.forall_mem_singleton.mpr loose) fun other member => by
        have := tighter other member
        omega
    rw [inside] at cut
    exact cut

/-- Every chain with an operator has a rightmost one of least precedence. -/
theorem exists_root (link : Link) (links : List Link) :
    ∃ left root right, link :: links = left ++ root :: right ∧
      (∀ other ∈ left, root.precedence ≤ other.precedence) ∧
        ∀ other ∈ right, root.precedence < other.precedence := by
  induction links generalizing link with
  | nil => exact ⟨[], link, [], rfl, by simp, by simp⟩
  | cons next links ih =>
    obtain ⟨left, root, right, whole, least, rightmost⟩ := ih next
    by_cases order : root.precedence ≤ link.precedence
    · refine ⟨link :: left, root, right, by rw [whole, List.cons_append], ?_, rightmost⟩
      intro other member
      rcases List.mem_cons.mp member with rfl | member
      · exact order
      · exact least other member
    · refine ⟨[], link, next :: links, rfl, by simp, ?_⟩
      intro other member
      rw [whole, List.mem_append, List.mem_cons] at member
      rcases member with member | rfl | member
      · have := least other member
        omega
      · omega
      · have := rightmost other member
        omega

theorem splits_tree (first : Expr) (links : List Link) : Splits first links (tree first links) := by
  cases links with
  | nil => exact .operand first
  | cons link links =>
    obtain ⟨left, root, right, whole, least, rightmost⟩ := exists_root link links
    rw [whole, tree_append_cons first left right root least rightmost]
    exact .root least rightmost (splits_tree first left) (splits_tree root.operand right)
termination_by links.length
decreasing_by
  all_goals
    have length := congrArg List.length whole
    simp only [List.length_cons, List.length_append] at length ⊢
    omega

/-- The tree that the library builds is the one that splits at the rightmost operators of least
precedence, and there is no other. -/
theorem splits_iff {first tree : Expr} {links : List Link} :
    Splits first links tree ↔ Link.tree first links = tree := by
  constructor
  · intro splits
    induction splits with
    | operand first => rfl
    | root least rightmost _ _ lhs rhs => rw [tree_append_cons _ _ _ _ least rightmost, lhs, rhs]
  · rintro rfl
    exact splits_tree first links

end Link

end OpLang

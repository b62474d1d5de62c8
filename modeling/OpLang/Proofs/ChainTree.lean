import Mathlib.Logic.ExistsUnique
import OpLang.Proofs.Descent

/-! # Trees of operator chains

A chain that is read with a bound goes on for as long as its operators bind at least as tightly as the bound. Its tree
has the operands as leaves and, read in order, is the chain; the precedences rise from the root to the leaves, on the
left possibly staying the same. There is no other such tree, and its root is the rightmost of the operators that bind
least. How the tree is found does not matter, whether in one pass over the operators or by climbing.
-/

namespace OpLang

/-- The tree of a chain, in which the operands are leaves, whatever they are themselves. -/
inductive ChainTree where
  | leaf (operand : Expr)
  | node (symbol : Char) (precedence : Int) (lhs rhs : ChainTree)

namespace ChainTree

/-- The first operand in order. -/
def first : ChainTree → Expr
  | leaf operand => operand
  | node _ _ lhs _ => lhs.first

/-- The operators in order, each with the operand after it. -/
def links : ChainTree → List Link
  | leaf _ => []
  | node symbol precedence lhs rhs => lhs.links ++ ⟨symbol, precedence, rhs.first⟩ :: rhs.links

/-- The expression that the tree stands for. -/
def expr : ChainTree → Expr
  | leaf operand => operand
  | node symbol _ lhs rhs => .binary symbol lhs.expr rhs.expr

/-- The precedence of the operator at the root. -/
def root? : ChainTree → Option Int
  | leaf _ => none
  | node _ precedence _ _ => some precedence

/-- At every node the operator on the left binds at least as tightly, and the one on the right more tightly. -/
inductive Ordered : ChainTree → Prop
  | leaf (operand : Expr) : Ordered (leaf operand)
  | node {symbol : Char} {precedence : Int} {lhs rhs : ChainTree} (left : ∀ inner ∈ lhs.root?, precedence ≤ inner)
      (right : ∀ inner ∈ rhs.root?, precedence < inner) (before : Ordered lhs) (after : Ordered rhs) :
      Ordered (node symbol precedence lhs rhs)

/-- The tree is ordered and has the operands and operators of the chain in their order. -/
structure Groups (tree : ChainTree) (first : Expr) (links : List Link) : Prop where
  first_eq : tree.first = first
  links_eq : tree.links = links
  ordered : tree.Ordered

variable {tree other : ChainTree}

theorem mem_links_of_root? {precedence : Int} (root : tree.root? = some precedence) :
    ∃ link ∈ tree.links, link.precedence = precedence := by
  cases tree with
  | leaf => cases root
  | node symbol found lhs rhs =>
    cases root
    exact ⟨_, List.mem_append_right _ (List.mem_cons_self ..), rfl⟩

/-- What bounds the operator at the root bounds all operators. -/
theorem Ordered.le_links (ordered : tree.Ordered) {bound : Int} (root : ∀ inner ∈ tree.root?, bound ≤ inner) :
    ∀ link ∈ tree.links, bound ≤ link.precedence := by
  induction ordered generalizing bound with
  | leaf => exact List.forall_mem_nil _
  | @node symbol precedence lhs rhs left right _ _ inLeft inRight =>
    have here : bound ≤ precedence := root precedence rfl
    refine List.forall_mem_append.mpr ⟨inLeft fun inner found => ?_, List.forall_mem_cons.mpr ⟨here, ?_⟩⟩
    · exact Int.le_trans here (left inner found)
    · exact inRight fun inner found => Int.le_trans here (Int.le_of_lt (right inner found))

/-- The root of an ordered tree is the rightmost of the operators that bind least. -/
theorem Ordered.root_bounds {symbol : Char} {precedence : Int} {lhs rhs : ChainTree}
    (ordered : (ChainTree.node symbol precedence lhs rhs).Ordered) :
    (∀ link ∈ lhs.links, precedence ≤ link.precedence) ∧ ∀ link ∈ rhs.links, precedence < link.precedence := by
  cases ordered with
  | node left right before after => exact ⟨before.le_links left, after.le_links right⟩

/-- A chain splits in one way at the rightmost of the operators that bind least. -/
theorem eq_of_split {left right otherLeft otherRight : List Link} {root otherRoot : Link}
    (same : left ++ root :: right = otherLeft ++ otherRoot :: otherRight)
    (least : ∀ link ∈ left, root.precedence ≤ link.precedence)
    (rightmost : ∀ link ∈ right, root.precedence < link.precedence)
    (otherLeast : ∀ link ∈ otherLeft, otherRoot.precedence ≤ link.precedence)
    (otherRightmost : ∀ link ∈ otherRight, otherRoot.precedence < link.precedence) :
    left = otherLeft ∧ root = otherRoot ∧ right = otherRight := by
  rcases List.append_eq_append_iff.mp same with ⟨between, rfl, split⟩ | ⟨between, rfl, split⟩
  · cases between with
    | nil =>
      obtain ⟨rfl, rfl⟩ := List.cons.inj split
      simp
    | cons link between =>
      -- the first root would bind more loosely than the second, and no more loosely
      obtain ⟨rfl, rfl⟩ := List.cons.inj split
      have loose := rightmost otherRoot (List.mem_append_right _ (List.mem_cons_self ..))
      have tight := otherLeast root (List.mem_append_right _ (List.mem_cons_self ..))
      omega
  · cases between with
    | nil =>
      obtain ⟨rfl, rfl⟩ := List.cons.inj split
      simp
    | cons link between =>
      obtain ⟨rfl, rfl⟩ := List.cons.inj split
      have loose := otherRightmost root (List.mem_append_right _ (List.mem_cons_self ..))
      have tight := least otherRoot (List.mem_append_right _ (List.mem_cons_self ..))
      omega

/-- Two ordered trees of one chain are the same. -/
theorem Ordered.unique (ordered : tree.Ordered) (otherOrdered : other.Ordered) (firsts : tree.first = other.first)
    (links : tree.links = other.links) : tree = other := by
  induction ordered generalizing other with
  | leaf operand =>
    cases other with
    | leaf => exact congrArg ChainTree.leaf firsts
    | node => simp [ChainTree.links] at links
  | @node symbol precedence lhs rhs left right before after inLeft inRight =>
    cases other with
    | leaf => simp [ChainTree.links] at links
    | node otherSymbol otherPrecedence otherLhs otherRhs =>
      have ordered : (ChainTree.node symbol precedence lhs rhs).Ordered := .node left right before after
      obtain ⟨least, rightmost⟩ := ordered.root_bounds
      obtain ⟨otherLeast, otherRightmost⟩ := otherOrdered.root_bounds
      obtain ⟨lefts, roots, rights⟩ := eq_of_split links least rightmost otherLeast otherRightmost
      obtain ⟨rfl, rfl, middles⟩ := Link.mk.inj roots
      cases otherOrdered with
      | node _ _ otherBefore otherAfter =>
        rw [inLeft otherBefore firsts lefts, inRight otherAfter middles rights]

/-- Every chain has an ordered tree, which stands for the expression that the chain is read as. -/
theorem exists_groups {first expr : Expr} {links : List Link} (splits : Splits first links expr) :
    ∃ tree : ChainTree, tree.Groups first links ∧ tree.expr = expr := by
  induction splits with
  | operand operand => exact ⟨leaf operand, ⟨rfl, rfl, .leaf operand⟩, rfl⟩
  | @root _ _ _ _ _ link least rightmost _ _ inLeft inRight =>
    obtain ⟨lhs, ⟨firstLeft, linksLeft, before⟩, rfl⟩ := inLeft
    obtain ⟨rhs, ⟨firstRight, linksRight, after⟩, rfl⟩ := inRight
    refine ⟨node link.symbol link.precedence lhs rhs, ⟨firstLeft, ?_, .node ?_ ?_ before after⟩, rfl⟩
    · rw [ChainTree.links, linksLeft, linksRight, firstRight]
    · intro inner found
      obtain ⟨other, member, rfl⟩ := mem_links_of_root? found
      exact least other (linksLeft ▸ member)
    · intro inner found
      obtain ⟨other, member, rfl⟩ := mem_links_of_root? found
      exact rightmost other (linksRight ▸ member)

end ChainTree

/-! ## Pairs of operators and operands -/

namespace Grammar

section Pairs

variable (table : OperatorTable) (operand : Parse Expr)

/-- At the cursor stands an operator, and behind it what is read as its operand. -/
inductive Pair (cursor : Cursor) : Link → Cursor → Prop
  | mk {symbol : Char} {behind last : Cursor} {rhs : Expr} (here : cursor.current = .char symbol)
      (step : Cursor.advance cursor = .ok () behind) (read : operand behind = .ok rhs last) :
      Pair cursor ⟨symbol, table.precedence cursor.current, rhs⟩ last

/-- From the first cursor to the second stand operators with their operands. -/
inductive Pairs : Cursor → List Link → Cursor → Prop
  | nil (cursor : Cursor) : Pairs cursor [] cursor
  | cons {cursor next last : Cursor} {link : Link} {links : List Link} (first : Pair table operand cursor link next)
      (rest : Pairs next links last) : Pairs cursor (link :: links) last

end Pairs

variable {table : OperatorTable} {operand : Parse Expr} {bound : Int} {cursor last : Cursor}

theorem Pair.unique {link other : Link} {next : Cursor} (pair : Pair table operand cursor link last)
    (otherPair : Pair table operand cursor other next) : link = other ∧ last = next := by
  obtain ⟨here, step, read⟩ := pair
  obtain ⟨same, stepToo, readToo⟩ := otherPair
  cases here.symm.trans same
  cases step.symm.trans stepToo
  cases read.symm.trans readToo
  exact ⟨rfl, rfl⟩

theorem Pair.precedence_eq {link : Link} (pair : Pair table operand cursor link last) :
    link.precedence = table.precedence cursor.current := by
  cases pair
  rfl

theorem link?_none_iff_lt : link? table operand bound cursor = .ok none last ↔
    table.precedence cursor.current < bound ∧ cursor = last := by
  refine ⟨link?_none, ?_⟩
  rintro ⟨below, rfl⟩
  exact link?_of_lt below

theorem link?_some_iff_pair {link : Link} : link? table operand bound cursor = .ok (some link) last ↔
    bound ≤ link.precedence ∧ Pair table operand cursor link last := by
  constructor
  · intro found
    by_cases below : table.precedence cursor.current < bound
    · rw [link?_of_lt below] at found
      cases found
    simp only [link?, peek_bind, if_neg below] at found
    cases here : cursor.current with
    | char symbol =>
      simp only [here, bind_ok_iff, pure_ok_iff] at found
      obtain ⟨_, behind, step, rhs, next, read, same, rfl⟩ := found
      cases same
      exact ⟨here ▸ Int.not_lt.mp below, here ▸ .mk here step read⟩
    | _ => simp only [here, throw_ok_iff] at found
  · rintro ⟨above, ⟨here, step, read⟩⟩
    simp only [link?, peek_bind, if_neg (Int.not_lt.mpr above)]
    simp only [here, bind_ok_iff, pure_ok_iff]
    exact ⟨(), _, step, _, last, read, rfl, rfl⟩

variable (forward : Forward operand)

include forward

/-- The links of a chain are the pairs up to the first operator that binds less tightly than the bound. -/
theorem links_ok_iff {found : List Link} : links table operand bound cursor = .ok found last ↔
    Pairs table operand cursor found last ∧ (∀ link ∈ found, bound ≤ link.precedence) ∧
      table.precedence last.current < bound := by
  induction found generalizing cursor with
  | nil =>
    rw [links, many_nil_ok_iff, link?_none_iff_lt]
    constructor
    · rintro ⟨below, rfl⟩
      exact ⟨.nil cursor, List.forall_mem_nil _, below⟩
    · rintro ⟨⟨_⟩, _, below⟩
      exact ⟨below, rfl⟩
  | cons link found ih =>
    rw [links, many_cons_ok_iff fun _ found => (link?_some forward found).2.2]
    simp only [many_before, link?_some_iff_pair, List.forall_mem_cons]
    constructor
    · rintro ⟨next, ⟨above, pair⟩, rest⟩
      obtain ⟨pairs, others, below⟩ := ih.mp rest
      exact ⟨.cons pair pairs, ⟨above, others⟩, below⟩
    · rintro ⟨pairs, ⟨above, others⟩, below⟩
      cases pairs with
      | cons pair pairs => exact ⟨_, ⟨above, pair⟩, ih.mpr ⟨pairs, others, below⟩⟩

theorem chain_ok_iff {first tree : Expr} : chain table operand bound first cursor = .ok tree last ↔
    ∃ found, (Pairs table operand cursor found last ∧ (∀ link ∈ found, bound ≤ link.precedence) ∧
      table.precedence last.current < bound) ∧ Splits first found tree := by
  change (links table operand bound >>= fun found => pure (Link.tree first found)) cursor = _ ↔ _
  simp only [bind_ok_iff, pure_ok_iff, links_ok_iff forward, Link.splits_iff]
  constructor
  · rintro ⟨found, _, read, shape, rfl⟩
    exact ⟨found, read, shape⟩
  · rintro ⟨found, read, shape⟩
    exact ⟨found, last, read, shape, rfl⟩

omit forward in
/-- No pairs of tight operators reach beyond an operator that binds less tightly than the bound. -/
theorem Pairs.prefix_of_lt {found other : List Link} {stop : Cursor} (pairs : Pairs table operand cursor found last)
    (ended : table.precedence last.current < bound) (others : Pairs table operand cursor other stop)
    (tight : ∀ link ∈ other, bound ≤ link.precedence) : other <+: found := by
  induction pairs generalizing other with
  | nil cursor =>
    cases others with
    | nil => exact List.prefix_rfl
    | cons first _ =>
      have above := tight _ (List.mem_cons_self ..)
      rw [first.precedence_eq] at above
      omega
  | cons first _ ih =>
    cases others with
    | nil => exact List.nil_prefix
    | cons otherFirst otherRest =>
      obtain ⟨rfl, rfl⟩ := first.unique otherFirst
      exact (List.prefix_cons_inj _).mpr
        (ih ended otherRest fun link member => tight link (List.mem_cons_of_mem _ member))

end Grammar

/-! ## Climbing -/

open Grammar (Pairs operandWithin maxNesting)

/-- Climbing reads a chain as the grammar does, however many operands it is inside of. If it succeeds, it has read
operators with their operands, all of them at least as tight as the bound, and as many as there are of these; it stops
on the first token of smaller precedence. Of the trees with these operands and operators in order there is one whose
precedences rise strictly to the right and are nowhere lower on the left, and this is the tree that is read: it splits
recursively at the rightmost operator that binds least. -/
theorem climb_groups {table : OperatorTable} (fits : table.Fits) {nesting levels : Nat}
    (budget : nesting + levels = maxNesting) (bound : Int) (first : Expr) (cursor : Cursor) :
    Descent.climb ⟨table⟩ bound first ⟨cursor, nesting⟩ =
        Descent.lift (Grammar.chain table (operandWithin table levels) bound first) ⟨cursor, nesting⟩ ∧
      ∀ tree last, Grammar.chain table (operandWithin table levels) bound first cursor = .ok tree last ↔
        ∃ links, Pairs table (operandWithin table levels) cursor links last ∧
          (∀ link ∈ links, bound ≤ link.precedence) ∧ table.precedence last.current < bound ∧
          (∀ others stop, Pairs table (operandWithin table levels) cursor others stop →
            (∀ link ∈ others, bound ≤ link.precedence) → others <+: links) ∧
          (∃! shape : ChainTree, shape.Groups first links) ∧
          (∀ shape : ChainTree, shape.Groups first links → shape.expr = tree) ∧ Splits first links tree := by
  refine ⟨Descent.climb_follows fits (Descent.operand_follows fits budget) bound first cursor, fun tree last => ?_⟩
  rw [Grammar.chain_ok_iff (Grammar.forward_operand table levels)]
  refine exists_congr fun links => ?_
  constructor
  · rintro ⟨⟨pairs, tight, ended⟩, splits⟩
    obtain ⟨shape, groups, rfl⟩ := ChainTree.exists_groups splits
    have unique (other : ChainTree) (otherGroups : other.Groups first links) : other = shape :=
      otherGroups.ordered.unique groups.ordered (otherGroups.first_eq.trans groups.first_eq.symm)
        (otherGroups.links_eq.trans groups.links_eq.symm)
    refine ⟨pairs, tight, ended, fun others stop otherPairs otherTight => ?_, ⟨shape, groups, unique⟩, ?_, splits⟩
    · exact pairs.prefix_of_lt ended otherPairs otherTight
    · exact fun other otherGroups => congrArg ChainTree.expr (unique other otherGroups)
  · rintro ⟨pairs, tight, ended, _, _, _, splits⟩
    exact ⟨⟨pairs, tight, ended⟩, splits⟩

/-- The greatest precedence there is groups to the left, equal and falling ones close what is open, and the chain stops
before the operator below its bound. -/
theorem climb_groups_falling :
    let table : OperatorTable := ⟨[('^', 2147483647), ('*', 40), ('+', 20), ('-', 20), ('<', 10)]⟩
    let parser := Parser.ofSource table "* b ^ c ^ d + e - -f < g"
    let power : Expr := .binary '^' (.binary '^' (.var "b") (.var "c")) (.var "d")
    let tree : Expr := .binary '-' (.binary '+' (.binary '*' (.var "a") power) (.var "e")) (.unary '-' (.var "f"))
    table.Fits ∧ 0 + maxNesting = maxNesting ∧ ∃ links last,
      Descent.climb ⟨table⟩ 11 (.var "a") ⟨parser.cursor, 0⟩ = some (.ok tree, ⟨last, 0⟩) ∧
        last.current = .char '<' ∧ (∃! shape : ChainTree, shape.Groups (.var "a") links) ∧
        ∀ shape : ChainTree, shape.Groups (.var "a") links → shape.expr = tree := by
  intro table parser power tree
  have fits : table.Fits := by
    unfold OperatorTable.Fits
    decide
  have budget : 0 + maxNesting = maxNesting := Nat.zero_add _
  obtain ⟨climbs, exactly⟩ := climb_groups fits budget 11 (.var "a") parser.cursor
  have outcome : (parser.chain 11 (.var "a")).1.toOption = some tree ∧
      (parser.chain 11 (.var "a")).2.cursor.current = .char '<' := by decide +kernel
  have sameTable : parser.table = table := rfl
  simp only [Parser.chain, Parser.readWith, Parser.read, Grammar.outerOperand, sameTable] at outcome
  refine ⟨fits, budget, ?_⟩
  cases read : Grammar.chain table (operandWithin table maxNesting) 11 (.var "a") parser.cursor with
  | error fault stopped =>
    rw [read] at outcome
    cases outcome.1
  | ok found last =>
    rw [read] at outcome
    obtain ⟨found, stops⟩ := outcome
    cases found
    obtain ⟨links, _, _, _, _, unique, same, _⟩ := (exactly tree last).mp read
    exact ⟨links, last, by rw [climbs, Descent.lift, read], stops, unique, same⟩

end OpLang

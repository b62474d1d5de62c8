import Mathlib.Data.List.Basic
import OpLang.Expr.Text
import OpLang.Proofs.WellFormed

/-! # Texts within texts

The text of a part stands among others. What follows it is a space, a closing parenthesis or nothing, and no name
contains any of these; so where a name ends can be seen, and with it where a list of names ends. Items whose texts
are told from all others, whatever follows them, may again be put into lists.
-/

namespace OpLang

/-! ## Ends -/

/-- The characters that end a name or a number. -/
def IsStop (c : Char) : Prop := c = ' ' ∨ c = ')'

/-- What may follow a text: something that begins with one of these characters, or nothing. -/
def Follows (rest : List Char) : Prop := ∀ c ∈ rest.head?, IsStop c

theorem follows_nil : Follows [] := by simp [Follows]

theorem follows_space (rest : List Char) : Follows (' ' :: rest) := by simp [Follows, IsStop]

theorem follows_close (rest : List Char) : Follows (')' :: rest) := by simp [Follows, IsStop]

section Delimited

variable {α : Type} {proper : α → Prop} {text : α → String} {item other : α} {rest otherRest : List Char}

/-- Whatever follows, the text of the item is told from the texts of all other proper items. -/
def Delimited (proper : α → Prop) (text : α → String) (item : α) : Prop :=
  ∀ other rest otherRest, proper other → Follows rest → Follows otherRest →
    (text item).toList ++ rest = (text other).toList ++ otherRest → item = other ∧ rest = otherRest

namespace Delimited

variable (delimited : Delimited proper text item) (isProper : proper other)

include delimited isProper

theorem space (same : (text item).toList ++ ' ' :: rest = (text other).toList ++ ' ' :: otherRest) :
    item = other ∧ rest = otherRest := by
  obtain ⟨rfl, remaining⟩ := delimited other _ _ isProper (follows_space _) (follows_space _) same
  exact ⟨rfl, (List.cons.inj remaining).2⟩

theorem close (same : (text item).toList ++ ')' :: rest = (text other).toList ++ ')' :: otherRest) :
    item = other ∧ rest = otherRest := by
  obtain ⟨rfl, remaining⟩ := delimited other _ _ isProper (follows_close _) (follows_close _) same
  exact ⟨rfl, (List.cons.inj remaining).2⟩

theorem space_ne_close : (text item).toList ++ ' ' :: rest ≠ (text other).toList ++ ')' :: otherRest := by
  intro same
  obtain ⟨rfl, remaining⟩ := delimited other _ _ isProper (follows_space _) (follows_close _) same
  exact absurd (List.cons.inj remaining).1 (by decide)

theorem close_ne_space : (text item).toList ++ ')' :: rest ≠ (text other).toList ++ ' ' :: otherRest := by
  intro same
  obtain ⟨rfl, remaining⟩ := delimited other _ _ isProper (follows_close _) (follows_space _) same
  exact absurd (List.cons.inj remaining).1 (by decide)

theorem text_injective (same : text item = text other) : item = other :=
  (delimited other [] [] isProper follows_nil follows_nil (by rw [same])).1

end Delimited

/-- A word ends where the first character stands that no word contains. -/
theorem eq_of_append_stop {stop : Char → Prop} {word otherWord : List Char} (free : ∀ c ∈ word, ¬ stop c)
    (otherFree : ∀ c ∈ otherWord, ¬ stop c) (ends : ∀ c ∈ rest.head?, stop c)
    (otherEnds : ∀ c ∈ otherRest.head?, stop c) (same : word ++ rest = otherWord ++ otherRest) :
    word = otherWord ∧ rest = otherRest := by
  induction word generalizing otherWord with
  | nil =>
    cases otherWord with
    | nil => exact ⟨rfl, same⟩
    | cons c otherWord =>
      rw [List.nil_append] at same
      exact (otherFree c (List.mem_cons_self ..) (ends c (by simp [same]))).elim
  | cons c word ih =>
    cases otherWord with
    | nil =>
      rw [List.nil_append] at same
      exact (free c (List.mem_cons_self ..) (otherEnds c (by simp [← same]))).elim
    | cons d otherWord =>
      obtain ⟨rfl, inner⟩ := List.cons.inj same
      obtain ⟨rfl, remaining⟩ := ih (fun e member => free e (List.mem_cons_of_mem _ member))
        (fun e member => otherFree e (List.mem_cons_of_mem _ member)) inner
      exact ⟨rfl, remaining⟩

/-- Texts, each after a space. -/
def afterSpaces (text : α → String) (items : List α) : List Char :=
  items.flatMap fun item => ' ' :: (text item).toList

theorem follows_afterSpaces (items : List α) (rest : List Char) : Follows (afterSpaces text items ++ ')' :: rest) := by
  cases items with
  | nil => exact follows_close rest
  | cons => exact follows_space _

theorem eq_of_afterSpaces {items others : List α} (delimited : ∀ item ∈ items, Delimited proper text item)
    (areProper : ∀ other ∈ others, proper other)
    (same : afterSpaces text items ++ ')' :: rest = afterSpaces text others ++ ')' :: otherRest) :
    items = others ∧ rest = otherRest := by
  induction items generalizing others with
  | nil =>
    cases others with
    | nil => exact ⟨rfl, (List.cons.inj same).2⟩
    | cons => exact absurd (List.cons.inj same).1 (by decide)
  | cons item items ih =>
    cases others with
    | nil => exact absurd (List.cons.inj same).1 (by decide)
    | cons other others =>
      simp only [afterSpaces, List.flatMap_cons, List.cons_append, List.append_assoc, List.cons.injEq,
        true_and] at same
      obtain ⟨here, later⟩ := List.forall_mem_cons.mp delimited
      obtain ⟨isProper, laterProper⟩ := List.forall_mem_cons.mp areProper
      obtain ⟨rfl, tails⟩ := here other _ _ isProper (follows_afterSpaces items _) (follows_afterSpaces others _) same
      obtain ⟨rfl, remaining⟩ := ih later laterProper tails
      exact ⟨rfl, remaining⟩

theorem toList_spaced_cons (word : String) (words : List String) :
    (spaced (word :: words)).toList = word.toList ++ afterSpaces id words := by
  induction words generalizing word with
  | nil => simp [spaced, afterSpaces]
  | cons next words ih =>
    have later := ih next
    simp only [spaced] at later
    simp [spaced, String.intercalate_cons_cons, later, afterSpaces]

theorem toList_spaced_map_cons (item : α) (items : List α) :
    (spaced ((item :: items).map text)).toList = (text item).toList ++ afterSpaces text items := by
  rw [List.map_cons, toList_spaced_cons, afterSpaces, List.flatMap_map, afterSpaces]
  rfl

/-- A list in parentheses is told from any other if no item begins with the parenthesis that closes an empty one. -/
theorem eq_of_spaced {items others : List α} (delimited : ∀ item ∈ items, Delimited proper text item)
    (areProper : ∀ other ∈ others, proper other)
    (begins : ∀ item, item ∈ items ∨ item ∈ others → ∃ first more, (text item).toList = first :: more ∧ first ≠ ')')
    (same : (spaced (items.map text)).toList ++ ')' :: rest = (spaced (others.map text)).toList ++ ')' :: otherRest) :
    items = others ∧ rest = otherRest := by
  cases items with
  | nil =>
    cases others with
    | nil => exact ⟨rfl, (List.cons.inj same).2⟩
    | cons other others =>
      obtain ⟨first, more, whole, open_⟩ := begins other (Or.inr (List.mem_cons_self ..))
      rw [toList_spaced_map_cons, whole] at same
      exact (open_ (List.cons.inj same).1.symm).elim
  | cons item items =>
    cases others with
    | nil =>
      obtain ⟨first, more, whole, open_⟩ := begins item (Or.inl (List.mem_cons_self ..))
      rw [toList_spaced_map_cons, whole] at same
      exact (open_ (List.cons.inj same).1).elim
    | cons other others =>
      simp only [toList_spaced_map_cons, List.append_assoc] at same
      obtain ⟨here, later⟩ := List.forall_mem_cons.mp delimited
      obtain ⟨isProper, laterProper⟩ := List.forall_mem_cons.mp areProper
      obtain ⟨rfl, tails⟩ := here other _ _ isProper (follows_afterSpaces items _) (follows_afterSpaces others _) same
      obtain ⟨rfl, remaining⟩ := eq_of_afterSpaces later laterProper tails
      exact ⟨rfl, remaining⟩

end Delimited

/-! ## Names -/

theorem not_isStop_of_isWordChar {c : Char} (wordChar : isWordChar c = true) : ¬ IsStop c := by
  rintro (rfl | rfl)
  · exact absurd wordChar (by decide)
  · exact absurd wordChar (by decide)

theorem not_isStop_of_isNumberChar {c : Char} (number : isNumberChar c = true) : ¬ IsStop c := by
  rintro (rfl | rfl)
  · exact absurd number (by decide)
  · exact absurd number (by decide)

theorem IsName.delimited {name : String} (isName : IsName name) : Delimited IsName id name := by
  intro other rest otherRest isOther follows otherFollows same
  have free {name : String} (isName : IsName name) : ∀ c ∈ name.toList, ¬ IsStop c :=
    fun _ member => not_isStop_of_isWordChar (isName.isWordChar_of_mem member)
  obtain ⟨chars, remaining⟩ := eq_of_append_stop (free isName) (free isOther) follows otherFollows same
  exact ⟨String.toList_inj.mp chars, remaining⟩

theorem IsName.begins {name : String} (isName : IsName name) :
    ∃ first more, name.toList = first :: more ∧ Text.isAlphabetic first = true := by
  obtain ⟨first, more, whole, letter, _⟩ := isName
  exact ⟨first, more, whole, letter⟩

end OpLang

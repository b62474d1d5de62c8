import OpLang.Proofs.Bisimulation
import OpLang.Proofs.Spelling

/-! # Maximal munch

Which items a source consists of can be said without a word about how they are found: each is the longest
run of its kind where it stands, and before it stand as many blanks and comments as there are. Sources are
cut in just this way. A cursor that steps through a source comes upon its items one after the other, each at
its place, and then upon the end of input for ever.
-/

namespace OpLang

open OpLang.Text

/-! ## Runs -/

/-- The run is the longest of its kind at the beginning of the text. -/
structure Longest (kind : List Char → Prop) (run text : List Char) : Prop where
  begins : run <+: text
  holds : kind run
  most : ∀ other, other <+: text → kind other → other.length ≤ run.length

/-- Blanks and comments. A comment goes on up to a line feed, a carriage return or the end of the text. -/
inductive IsTrivia : List Char → Prop
  | nil : IsTrivia []
  | blank {c : Char} {rest : List Char} (blank : isBlank c = true) (more : IsTrivia rest) : IsTrivia (c :: rest)
  | comment {body rest : List Char} (inside : ∀ c ∈ body, c ≠ '\n' ∧ c ≠ '\r')
      (stop : ∀ c, rest.head? = some c → c = '\n' ∨ c = '\r') (more : IsTrivia rest) :
      IsTrivia ('#' :: (body ++ rest))

/-- A letter and any letters and numerals after it. -/
def IsWord : List Char → Prop
  | [] => False
  | first :: more => isAlphabetic first = true ∧ ∀ c ∈ more, isAlphabetic c = true ∨ isNumeric c = true

/-- ASCII digits and points, at least one of them. -/
def IsNumberRun (run : List Char) : Prop := run ≠ [] ∧ ∀ c ∈ run, c.isDigit = true ∨ c = '.'

/-- At least one digit and at most one point. -/
structure IsDecimal (run : List Char) : Prop where
  digit : ∃ c ∈ run, c.isDigit = true
  point : run.count '.' ≤ 1

/-! ## Items -/

/-- The item at the beginning of a text that no blank or comment begins: the longest word, or else the
longest run of digits and points, or else a single character. -/
inductive Munch (text : List Char) : List Char → Item → Prop
  | keyword {run : List Char} (word : Longest IsWord run text) (keyword : Keyword)
      (spelled : run = keyword.spelling.toList) : Munch text run (.token (.keyword keyword))
  | name {run : List Char} (word : Longest IsWord run text)
      (other : ∀ keyword : Keyword, run ≠ keyword.spelling.toList) :
      Munch text run (.token (.ident (String.ofList run)))
  | number {run : List Char} {value : Binary64} (noWord : ∀ other, other <+: text → ¬ IsWord other)
      (digits : Longest IsNumberRun run text) (decimal : IsDecimal run)
      (read : Binary64.ofDigits? run = some value) : Munch text run (.token (.number value))
  | malformed {run : List Char} (noWord : ∀ other, other <+: text → ¬ IsWord other)
      (digits : Longest IsNumberRun run text) (noDecimal : ¬ IsDecimal run) :
      Munch text run (.malformed (String.ofList run))
  | single {c : Char} (noWord : ∀ other, other <+: text → ¬ IsWord other)
      (noDigits : ∀ other, other <+: text → ¬ IsNumberRun other) (begins : [c] <+: text) :
      Munch text [c] (.token (.char c))

/-- An item with its characters and with the blanks and comments before it. -/
structure Segment where
  trivia : List Char
  run : List Char
  item : Item

/-- All the characters of a segment. -/
def Segment.chars (segment : Segment) : List Char := segment.trivia ++ segment.run

/-- A text cut into segments and the blanks and comments after the last of them. -/
inductive Tokenises : List Char → List Segment → List Char → Prop
  | ended {text : List Char} (trivia : IsTrivia text) : Tokenises text [] text
  | item {text trivia run rest : List Char} {item : Item} {segments : List Segment} {trailing : List Char}
      (whole : text = trivia ++ (run ++ rest)) (skipped : Longest IsTrivia trivia text)
      (munched : Munch (run ++ rest) run item) (later : Tokenises rest segments trailing) :
      Tokenises text (⟨trivia, run, item⟩ :: segments) trailing

/-! ## Longest runs -/

theorem Longest.unique {kind : List Char → Prop} {first second text : List Char}
    (one : Longest kind first text) (other : Longest kind second text) : first = second := by
  have least := other.most first one.begins one.holds
  have most := one.most second other.begins other.holds
  exact (List.prefix_of_prefix_length_le one.begins other.begins least).eq_of_length_le most

/-- A kind of run that some class of characters continues goes as far as the class does. -/
theorem longest_iff_takeWhile {kind : List Char → Prop} {continues : Char → Bool} {first : Char}
    (kind_nil : ¬ kind []) (kind_cons : ∀ rest, kind (first :: rest) ↔ ∀ c ∈ rest, continues c = true)
    (run more : List Char) :
    Longest kind run (first :: more) ↔ run = first :: more.takeWhile continues := by
  have longest : Longest kind (first :: more.takeWhile continues) (first :: more) := by
    refine ⟨?_, (kind_cons _).mpr (List.all_eq_true.mp List.all_takeWhile), fun other begins holds => ?_⟩
    · exact List.cons_prefix_cons.mpr ⟨rfl, List.takeWhile_prefix _⟩
    · rcases List.prefix_cons_iff.mp begins with rfl | ⟨rest, rfl, later, rfl⟩
      · exact (kind_nil holds).elim
      · rw [List.takeWhile_append_of_pos ((kind_cons rest).mp holds)]
        simp only [List.length_cons, List.length_append]
        omega
  constructor
  · exact fun other => other.unique longest
  · rintro rfl
    exact longest

/-- Where no run of a kind may begin with the first character, none begins the text. -/
theorem not_kind_of_prefix {kind : List Char → Prop} {first : Char} (more : List Char) (kind_nil : ¬ kind [])
    (kind_cons : ∀ rest, ¬ kind (first :: rest)) : ∀ other, other <+: first :: more → ¬ kind other := by
  intro other begins
  rcases List.prefix_cons_iff.mp begins with rfl | ⟨rest, rfl, _⟩
  · exact kind_nil
  · exact kind_cons rest

/-! ## Blanks and comments -/

theorem isLineEnd_iff {c : Char} : isLineEnd c = true ↔ c = '\n' ∨ c = '\r' := by
  simp [isLineEnd]

theorem isBlank_of_isLineEnd {c : Char} (ends : isLineEnd c = true) : isBlank c = true := by
  rcases isLineEnd_iff.mp ends with rfl | rfl <;> decide

/-- Outside of comments trivia goes on with a blank, or with a comment and what follows it. -/
theorem isTrivia_cons {c : Char} {rest : List Char} :
    IsTrivia (c :: rest) ↔ isBlank c = true ∧ IsTrivia rest ∨
      c = '#' ∧ ∃ body later, rest = body ++ later ∧ (∀ d ∈ body, d ≠ '\n' ∧ d ≠ '\r') ∧
        (∀ d, later.head? = some d → d = '\n' ∨ d = '\r') ∧ IsTrivia later := by
  constructor
  · rintro (_ | ⟨blank, more⟩ | ⟨inside, stop, more⟩)
    · exact .inl ⟨blank, more⟩
    · exact .inr ⟨rfl, _, _, rfl, inside, stop, more⟩
  · rintro (⟨blank, more⟩ | ⟨rfl, body, later, rfl, inside, stop, more⟩)
    · exact .blank blank more
    · exact .comment inside stop more

/-- Blanks and comments in a text that may start inside a comment. -/
def IsTriviaFrom (inComment : Bool) (text : List Char) : Prop :=
  if inComment then IsTrivia ('#' :: text) else IsTrivia text

theorem isTriviaFrom_nil (inComment : Bool) : IsTriviaFrom inComment [] := by
  cases inComment
  · exact .nil
  · exact isTrivia_cons.mpr (.inr ⟨rfl, [], [], rfl, by simp, by simp, .nil⟩)

/-- Inside a comment every character up to the end of the line belongs to it. -/
theorem isTriviaFrom_true_cons {c : Char} {rest : List Char} :
    IsTriviaFrom true (c :: rest) ↔
      isLineEnd c = false ∧ IsTriviaFrom true rest ∨ isLineEnd c = true ∧ IsTrivia rest := by
  have noBlank : isBlank '#' = false := by decide
  simp only [IsTriviaFrom, if_true, isTrivia_cons (c := '#'), noBlank, Bool.false_eq_true, false_and, false_or,
    true_and]
  constructor
  · rintro ⟨body, later, whole, inside, stop, more⟩
    cases body with
    | nil =>
      obtain rfl : c :: rest = later := whole
      have ends := stop c rfl
      have noSign : c ≠ '#' := by rcases ends with rfl | rfl <;> decide
      refine .inr ⟨isLineEnd_iff.mpr ends, ?_⟩
      exact (isTrivia_cons.mp more).elim And.right fun comment => (noSign comment.1).elim
    | cons d body =>
      obtain ⟨rfl, rfl⟩ := List.cons.inj whole
      obtain ⟨here, inside⟩ := List.forall_mem_cons.mp inside
      exact .inl ⟨by simp [isLineEnd, here], body, later, rfl, inside, stop, more⟩
  · rintro (⟨goesOn, body, later, rfl, inside, stop, more⟩ | ⟨ends, more⟩)
    · have here : c ≠ '\n' ∧ c ≠ '\r' := by simpa [isLineEnd] using goesOn
      exact ⟨c :: body, later, rfl, List.forall_mem_cons.mpr ⟨here, inside⟩, stop, more⟩
    · refine ⟨[], c :: rest, rfl, List.forall_mem_nil _, fun d atHead => ?_, ?_⟩
      · exact isLineEnd_iff.mp (Option.some.inj atHead ▸ ends)
      · exact .blank (isBlank_of_isLineEnd ends) more

/-- The splitting of trivia looks at one character after the other. -/
theorem isTriviaFrom_cons {inComment : Bool} {c : Char} {rest : List Char} :
    IsTriviaFrom inComment (c :: rest) ↔
      if inComment && !isLineEnd c || c = '#' then IsTriviaFrom true rest
      else isBlank c = true ∧ IsTriviaFrom false rest := by
  by_cases sign : c = '#'
  · subst sign
    have noBlank : isBlank '#' = false := by decide
    have noEnd : isLineEnd '#' = false := by decide
    cases inComment
    · simp [IsTriviaFrom, isTrivia_cons, noBlank]
    · simp [isTriviaFrom_true_cons, noEnd]
  · cases inComment
    · simp [IsTriviaFrom, isTrivia_cons, sign]
    · rw [isTriviaFrom_true_cons]
      cases ends : isLineEnd c
      · simp
      · simp [sign, isBlank_of_isLineEnd ends, IsTriviaFrom]

/-- What is split off is trivia, and as much of it as there is. -/
theorem isTriviaFrom_splitTrivia (inComment : Bool) (source : List Char) :
    IsTriviaFrom inComment (splitTrivia inComment source).1 ∧
      ∀ other, other <+: source → IsTriviaFrom inComment other →
        other.length ≤ (splitTrivia inComment source).1.length := by
  induction source generalizing inComment with
  | nil => exact ⟨isTriviaFrom_nil inComment, fun other begins _ => begins.length_le⟩
  | cons c rest ih =>
    -- both halves take the branch that the splitting takes
    have longer : ∀ {inside : Bool}, (∀ {more}, IsTriviaFrom inComment (c :: more) → IsTriviaFrom inside more) →
        ∀ other, other <+: c :: rest → IsTriviaFrom inComment other →
          other.length ≤ (splitTrivia inside rest).1.length + 1 := by
      intro inside drop other begins trivia
      rcases List.prefix_cons_iff.mp begins with rfl | ⟨more, rfl, later⟩
      · exact Nat.zero_le _
      · exact Nat.succ_le_succ ((ih inside).2 more later (drop trivia))
    rw [splitTrivia]
    split
    · next comment =>
      exact ⟨isTriviaFrom_cons.mpr (by rw [if_pos comment]; exact (ih true).1),
        longer fun trivia => by rwa [isTriviaFrom_cons, if_pos comment] at trivia⟩
    · next noComment =>
      split
      · next blank =>
        exact ⟨isTriviaFrom_cons.mpr (by rw [if_neg noComment]; exact ⟨blank, (ih false).1⟩),
          longer fun trivia => by rw [isTriviaFrom_cons, if_neg noComment] at trivia; exact trivia.2⟩
      · next notBlank =>
        refine ⟨isTriviaFrom_nil inComment, fun other begins trivia => ?_⟩
        rcases List.prefix_cons_iff.mp begins with rfl | ⟨more, rfl, _⟩
        · exact Nat.zero_le _
        · rw [isTriviaFrom_cons, if_neg noComment] at trivia
          exact (notBlank trivia.1).elim

theorem longest_splitTrivia (source : List Char) : Longest IsTrivia (splitTrivia false source).1 source :=
  ⟨⟨_, splitTrivia_append false source⟩, (isTriviaFrom_splitTrivia false source).1,
    (isTriviaFrom_splitTrivia false source).2⟩

/-! ## Numbers -/

theorem count_point_eq_zero {run : List Char} (digits : ∀ c ∈ run, c.isDigit = true) : run.count '.' = 0 :=
  List.count_eq_zero.mpr fun member => absurd (digits '.' member) (by decide)

/-- A run of digits and points reads as a decimal just if it has a digit and no more than one point. -/
theorem Decimal.isSome_ofChars?_iff {run : List Char} (only : ∀ c ∈ run, c.isDigit = true ∨ c = '.') :
    (ofChars? run).isSome = true ↔ IsDecimal run := by
  have split := List.takeWhile_append_dropWhile (p := Char.isDigit) (l := run)
  have digits : ∀ c ∈ run.takeWhile Char.isDigit, c.isDigit = true := List.all_eq_true.mp List.all_takeWhile
  have stop := List.head?_dropWhile_not Char.isDigit run
  rw [ofChars?]
  generalize run.takeWhile Char.isDigit = whole, run.dropWhile Char.isDigit = later at split digits stop ⊢
  subst split
  cases later with
  | nil =>
    constructor
    · intro some
      cases whole with
      | nil => cases some
      | cons c whole =>
        exact ⟨⟨c, List.mem_append_left _ (List.mem_cons_self ..), digits c (List.mem_cons_self ..)⟩,
          by simp [count_point_eq_zero digits]⟩
    · rintro ⟨⟨c, member, _⟩, _⟩
      cases whole with
      | nil => cases member
      | cons => rfl
  | cons point fraction =>
    have noDigit : point.isDigit = false := by simpa using stop
    obtain rfl : point = '.' := by simpa [noDigit] using only point (by simp)
    have points : (whole ++ '.' :: fraction).count '.' = fraction.count '.' + 1 := by
      simp [List.count_append, count_point_eq_zero digits]
    constructor
    · intro some
      have shape : fraction.all Char.isDigit = true ∧ whole ++ fraction ≠ [] := by
        simpa using some
      obtain ⟨c, member⟩ := List.exists_mem_of_ne_nil _ shape.2
      have fractionDigits := List.all_eq_true.mp shape.1
      refine ⟨⟨c, ?_, ?_⟩, ?_⟩
      · exact (List.mem_append.mp member).elim (List.mem_append_left _) fun inside =>
          List.mem_append_right _ (List.mem_cons_of_mem _ inside)
      · exact (List.mem_append.mp member).elim (digits c) (fractionDigits c)
      · have noPoint := count_point_eq_zero fractionDigits
        omega
    · rintro ⟨⟨c, member, digit⟩, one⟩
      have noPoint : '.' ∉ fraction := List.count_eq_zero.mp (by omega)
      have fractionDigits : fraction.all Char.isDigit = true := List.all_eq_true.mpr fun d inside =>
        (only d (List.mem_append_right _ (List.mem_cons_of_mem _ inside))).resolve_right fun same =>
          noPoint (same ▸ inside)
      have someDigit : whole ++ fraction ≠ [] := by
        rcases List.mem_append.mp member with inside | inside
        · exact List.append_ne_nil_of_left_ne_nil (List.ne_nil_of_mem inside) _
        · rcases List.mem_cons.mp inside with rfl | inside
          · exact absurd digit (by decide)
          · exact List.append_ne_nil_of_right_ne_nil _ (List.ne_nil_of_mem inside)
      simpa [fractionDigits] using someDigit

/-! ## Items of a source -/

theorem isWord_cons {first : Char} (letter : isAlphabetic first = true) (rest : List Char) :
    IsWord (first :: rest) ↔ ∀ c ∈ rest, isWordChar c = true := by
  simp [IsWord, isWordChar, letter]

theorem isNumberChar_iff {c : Char} : isNumberChar c = true ↔ c.isDigit = true ∨ c = '.' := by
  simp [isNumberChar]

theorem isNumberRun_cons {first : Char} (number : isNumberChar first = true) (rest : List Char) :
    IsNumberRun (first :: rest) ↔ ∀ c ∈ rest, isNumberChar c = true := by
  simp [IsNumberRun, isNumberChar_iff, isNumberChar_iff.mp number]

theorem Token.ofWord_eq {run : List Char} {keyword : Keyword} (spelled : run = keyword.spelling.toList) :
    ofWord (String.ofList run) = .keyword keyword := by
  have known : Keyword.ofSpelling? (String.ofList run) = some keyword :=
    (Keyword.ofSpelling?_eq_some_iff _ _).mpr (by rw [spelled, String.ofList_toList])
  rw [ofWord, known]

theorem Token.ofWord_eq_ident {run : List Char} (other : ∀ keyword : Keyword, run ≠ keyword.spelling.toList) :
    ofWord (String.ofList run) = .ident (String.ofList run) := by
  have unknown : Keyword.ofSpelling? (String.ofList run) = none := by
    rw [Option.eq_none_iff_forall_ne_some]
    intro keyword known
    apply other keyword
    rw [(Keyword.ofSpelling?_eq_some_iff _ _).mp known, String.toList_ofList]
  rw [ofWord, unknown]

section Munch

variable {text word digits run : List Char} {item : Item}

theorem munch_word_iff (longest : Longest IsWord word text) :
    Munch text run item ↔ run = word ∧ item = .token (.ofWord (String.ofList word)) := by
  have isWord := longest.holds
  constructor
  · intro munch
    cases munch with
    | keyword other keyword spelled =>
      obtain rfl := other.unique longest
      exact ⟨rfl, by rw [Token.ofWord_eq spelled]⟩
    | name other noKeyword =>
      obtain rfl := other.unique longest
      exact ⟨rfl, by rw [Token.ofWord_eq_ident noKeyword]⟩
    | number noWord | malformed noWord | single noWord => exact (noWord word longest.begins isWord).elim
  · rintro ⟨rfl, rfl⟩
    by_cases reserved : ∃ keyword : Keyword, run = keyword.spelling.toList
    · obtain ⟨keyword, spelled⟩ := reserved
      rw [Token.ofWord_eq spelled]
      exact .keyword longest keyword spelled
    · rw [not_exists] at reserved
      rw [Token.ofWord_eq_ident reserved]
      exact .name longest reserved

theorem munch_number_iff (noWord : ∀ other, other <+: text → ¬ IsWord other)
    (longest : Longest IsNumberRun digits text) :
    Munch text run item ↔ run = digits ∧ item = (Binary64.ofDigits? digits).elim
      (.malformed (String.ofList digits)) fun value => .token (.number value) := by
  have isRun := longest.holds
  have decimal : (Binary64.ofDigits? digits).isSome = true ↔ IsDecimal digits := by
    rw [Binary64.ofDigits?, Option.isSome_map]
    exact Decimal.isSome_ofChars?_iff isRun.2
  constructor
  · intro munch
    cases munch with
    | keyword other | name other => exact (noWord run other.begins other.holds).elim
    | number _ other _ read =>
      obtain rfl := other.unique longest
      exact ⟨rfl, by rw [read, Option.elim_some]⟩
    | malformed _ other noDecimal =>
      obtain rfl := other.unique longest
      have none : Binary64.ofDigits? run = none :=
        Option.not_isSome_iff_eq_none.mp fun some => noDecimal (decimal.mp some)
      exact ⟨rfl, by rw [none, Option.elim_none]⟩
    | single _ noDigits => exact (noDigits digits longest.begins isRun).elim
  · rintro ⟨rfl, rfl⟩
    cases read : Binary64.ofDigits? run with
    | some value => exact .number noWord longest (decimal.mp (by rw [read]; rfl)) read
    | none => exact .malformed noWord longest fun isDecimal => by simpa [read] using decimal.mpr isDecimal

theorem munch_single_iff {c : Char} {more : List Char} (noWord : ∀ other, other <+: c :: more → ¬ IsWord other)
    (noDigits : ∀ other, other <+: c :: more → ¬ IsNumberRun other) :
    Munch (c :: more) run item ↔ run = [c] ∧ item = .token (.char c) := by
  constructor
  · intro munch
    cases munch with
    | keyword other | name other => exact (noWord run other.begins other.holds).elim
    | number _ other | malformed _ other => exact (noDigits run other.begins other.holds).elim
    | single _ _ begins =>
      obtain ⟨rfl, _⟩ := List.cons_prefix_cons.mp begins
      exact ⟨rfl, rfl⟩
  · rintro ⟨rfl, rfl⟩
    exact .single noWord noDigits (List.cons_prefix_cons.mpr ⟨rfl, List.nil_prefix⟩)

end Munch

/-- The item at the beginning of a text is cut and read as the class of its first character says. -/
theorem munch_iff {first : Char} {more run : List Char} {item : Item} :
    Munch (first :: more) run item ↔
      run = first :: more.takeWhile (continuesItem first) ∧
        item = Piece.read ⟨[], first, more.takeWhile (continuesItem first)⟩ := by
  have emptyRun : ¬ IsNumberRun [] := fun absurd => absurd.1 rfl
  by_cases letter : isAlphabetic first = true
  · have longest := (longest_iff_takeWhile id (isWord_cons letter) _ more).mpr rfl
    simp only [munch_word_iff longest, continuesItem, Piece.read, Piece.item, letter, if_true]
  · have noWord := not_kind_of_prefix more id fun rest (isWord : IsWord (first :: rest)) =>
      letter isWord.1
    by_cases number : isNumberChar first = true
    · have longest := (longest_iff_takeWhile emptyRun (isNumberRun_cons number) _ more).mpr rfl
      simp only [munch_number_iff noWord longest, continuesItem, Piece.read, Piece.item, letter, number, if_true,
        if_false, Bool.false_eq_true]
      cases Binary64.ofDigits? (first :: more.takeWhile isNumberChar) <;> rfl
    · have noDigits := not_kind_of_prefix more emptyRun
        fun rest (isRun : IsNumberRun (first :: rest)) =>
          number (isNumberChar_iff.mpr (isRun.2 first (List.mem_cons_self ..)))
      have single : more.takeWhile (fun _ => false) = [] := by cases more <;> rfl
      simp only [munch_single_iff noWord noDigits, continuesItem, Piece.read, letter, number, if_false,
        Bool.false_eq_true, single]

/-! ## Cutting sources -/

def Piece.segment (piece : Piece) : Segment := ⟨piece.trivia, piece.item, piece.read⟩

theorem not_munch_nil {run : List Char} {item : Item} : ¬ Munch [] run item := by
  intro munch
  cases munch with
  | keyword word | name word =>
    obtain rfl := List.prefix_nil.mp word.begins
    exact word.holds
  | number _ digits | malformed _ digits => exact digits.holds.1 (List.prefix_nil.mp digits.begins)
  | single _ _ begins => cases List.prefix_nil.mp begins

/-- A source is cut into its longest items in one way only, and this is how the library cuts it. -/
theorem tokenises_iff {source trailing : List Char} {segments : List Segment} :
    Tokenises source segments trailing ↔
      segments = (pieces source).1.map Piece.segment ∧ trailing = (pieces source).2 := by
  constructor
  · intro tokenises
    induction tokenises with
    | @ended text trivia =>
      have whole : Longest IsTrivia text text := ⟨List.prefix_rfl, trivia, fun _ begins _ => begins.length_le⟩
      have append := splitTrivia_append false text
      have same := whole.unique (longest_splitTrivia text)
      rw [← same, List.append_right_eq_self] at append
      rw [pieces_of_nil (Prod.ext same.symm append)]
      exact ⟨rfl, rfl⟩
    | @item text trivia run rest item segments trailing whole skipped munched later ih =>
      have append := splitTrivia_append false text
      have same := skipped.unique (longest_splitTrivia text)
      rw [← same] at append
      have behind := List.append_cancel_left (append.trans whole)
      cases atItem : run ++ rest with
      | nil => exact (not_munch_nil (atItem ▸ munched)).elim
      | cons first more =>
        -- the longest trivia and the longest item leave the rest no choice
        rw [atItem] at munched behind
        obtain ⟨rfl, rfl⟩ := munch_iff.mp munched
        have left := List.takeWhile_append_dropWhile (p := continuesItem first) (l := more)
        rw [List.cons_append, List.cons.injEq] at atItem
        obtain rfl := List.append_cancel_left (atItem.2.trans left.symm)
        obtain ⟨rfl, rfl⟩ := ih
        rw [pieces_of_cons (Prod.ext same.symm behind)]
        exact ⟨rfl, rfl⟩
  · rintro ⟨rfl, rfl⟩
    induction source using pieces_induct with
    | blank source trivia cut =>
      have longest := longest_splitTrivia source
      have append := splitTrivia_append false source
      rw [cut, List.append_nil] at append
      rw [pieces_of_nil cut]
      rw [cut] at longest
      exact append ▸ .ended longest.holds
    | item source trivia first rest cut ih =>
      have longest := longest_splitTrivia source
      have append := splitTrivia_append false source
      have left := List.takeWhile_append_dropWhile (p := continuesItem first) (l := rest)
      rw [cut] at longest append
      rw [pieces_of_cons cut]
      refine .item ?_ longest ?_ ih
      · rw [Piece.item, List.cons_append, left, append]
      · rw [Piece.item, List.cons_append, left]
        exact munch_iff.mpr ⟨rfl, rfl⟩

theorem length_pieces_le (source : List Char) : (pieces source).1.length ≤ source.length := by
  have whole := congrArg List.length (pieces_append source)
  have atLeast : (pieces source).1.length ≤ ((pieces source).1.flatMap Piece.chars).length := by
    generalize (pieces source).1 = cut
    induction cut with
    | nil => exact Nat.le_refl 0
    | cons piece cut ih =>
      simp only [List.flatMap_cons, List.length_append, List.length_cons, Piece.chars, Piece.item]
      omega
  rw [List.length_append] at whole
  omega

/-! ## Stepping through sources -/

/-- The place just behind a text: its lines are counted by its line feeds, and the columns of the last line
by the characters behind the last line feed. -/
def Position.behind (text : List Char) : Position :=
  ⟨text.count '\n' + 1, (text.reverse.takeWhile (· ≠ '\n')).length + 1⟩

theorem Position.advance_start (text : List Char) : start.advance text = behind text := by
  rw [← List.reverse_reverse text]
  induction text.reverse with
  | nil => rfl
  | cons c before ih =>
    rw [List.reverse_cons, advance_append, ih]
    by_cases lineFeed : c = '\n'
    · simp [advance, after, behind, lineFeed]
    · simp [advance, after, behind, lineFeed, List.count_append]

namespace Cursor

/-- The cursor after so many steps, failed ones included. -/
def after : Nat → Cursor → Cursor
  | 0, cursor => cursor
  | steps + 1, cursor => after steps (stoppedAt (advance cursor))

/-- The next step comes upon the item at the place. It fails if the item is a malformed number, and then the
token before it stays current. -/
def Meets (cursor : Cursor) (place : Position) : Item → Prop
  | .token token => ∃ next, advance cursor = .ok () next ∧ next.current = token ∧ next.place = place
  | .malformed run => ∃ next, advance cursor = .error (.malformedNumber run) next ∧
      next.current = cursor.current ∧ next.place = place

/-- Every step passes over one lexeme, until there are none. -/
theorem unread_after (steps : Nat) (cursor : Cursor) :
    (cursor.after steps).unread = cursor.unread.drop steps ∧ (cursor.after steps).finish = cursor.finish := by
  induction steps generalizing cursor with
  | zero => exact ⟨rfl, rfl⟩
  | succ steps ih =>
    have step : (stoppedAt (advance cursor)).unread = cursor.unread.drop 1 ∧
        (stoppedAt (advance cursor)).finish = cursor.finish := by
      obtain ⟨current, place, unread, finish⟩ := cursor
      rcases unread with _ | ⟨⟨token | run, found⟩, later⟩ <;> exact ⟨rfl, rfl⟩
    obtain ⟨unread, finish⟩ := ih (stoppedAt (advance cursor))
    rw [after, unread, finish, step.1, step.2, List.drop_drop, Nat.add_comm]
    exact ⟨rfl, rfl⟩

theorem meets_of_unread {cursor : Cursor} {lexeme : Lexeme} {later : List Lexeme}
    (unread : cursor.unread = lexeme :: later) : cursor.Meets lexeme.place lexeme.item := by
  obtain ⟨token | run, place⟩ := lexeme
  · exact ⟨{ cursor with current := token, place := place, unread := later }, by simp only [advance, unread],
      rfl, rfl⟩
  · exact ⟨{ cursor with place := place, unread := later }, by simp only [advance, unread], rfl, rfl⟩

theorem meets_endOfInput {cursor : Cursor} (ended : cursor.unread = []) :
    cursor.Meets cursor.finish (.token .endOfInput) :=
  ⟨{ cursor with current := .endOfInput, place := cursor.finish }, by simp only [advance, ended], rfl, rfl⟩

end Cursor

/-- Each piece has its place behind all that comes before its item. -/
theorem getElem?_locate (start : Position) (cut : List Piece) (index : Nat) :
    (locate start cut)[index]? = cut[index]?.map fun piece =>
      ⟨piece.read, start.advance ((cut.take index).flatMap Piece.chars ++ piece.trivia)⟩ := by
  induction cut generalizing start index with
  | nil => rfl
  | cons piece cut ih =>
    cases index with
    | zero => rfl
    | succ index =>
      simp only [locate, List.getElem?_cons_succ, ih, List.take_succ_cons, List.flatMap_cons, List.append_assoc,
        Position.advance_append, Piece.chars]

theorem length_locate (start : Position) (cut : List Piece) : (locate start cut).length = cut.length := by
  induction cut generalizing start with
  | nil => rfl
  | cons piece cut ih => rw [locate, List.length_cons, ih, List.length_cons]

/-- Sources are lexed by maximal munch. There is one way to cut a source into its longest items; no character is
lost or repeated by it, and it has no more items than the source has characters. The steps of a cursor come upon
these items one after the other, each at the place behind all that precedes it, and all later steps come upon the
end of input. -/
theorem lexing_maximal_munch (source : String) :
    ∃ segments trailing,
      (∀ others rest, Tokenises source.toList others rest ↔ others = segments ∧ rest = trailing) ∧
      segments.flatMap Segment.chars ++ trailing = source.toList ∧
      segments.length ≤ source.toList.length ∧
      (∀ index segment, segments[index]? = some segment →
        ((Cursor.ofSource source).after index).Meets
          (.behind ((segments.take index).flatMap Segment.chars ++ segment.trivia)) segment.item) ∧
      ∀ index, segments.length ≤ index →
        ((Cursor.ofSource source).after index).Meets (.behind source.toList) (.token .endOfInput) := by
  have chars (cut : List Piece) : (cut.map Piece.segment).flatMap Segment.chars = cut.flatMap Piece.chars :=
    List.flatMap_map ..
  refine ⟨(pieces source.toList).1.map Piece.segment, (pieces source.toList).2, fun _ _ => tokenises_iff, ?_, ?_,
    fun index segment found => ?_, fun index past => ?_⟩
  · rw [chars, pieces_append]
  · rw [List.length_map]
    exact length_pieces_le source.toList
  · rw [List.getElem?_map, Option.map_eq_some_iff] at found
    obtain ⟨piece, found, rfl⟩ := found
    have lexed := getElem?_locate .start (pieces source.toList).1 index
    rw [found, Option.map_some, ← lexemes, ← List.head?_drop] at lexed
    obtain ⟨later, unread⟩ := List.head?_eq_some_iff.mp lexed
    rw [← List.map_take, chars, ← Position.advance_start]
    exact Cursor.meets_of_unread ((Cursor.unread_after index (.ofSource source)).1.trans unread)
  · obtain ⟨unread, finish⟩ := Cursor.unread_after index (.ofSource source)
    have length : (lexemes source).length ≤ index := by
      rw [lexemes, length_locate]
      simpa using past
    have atEnd : (Cursor.ofSource source).finish = .behind source.toList := Position.advance_start _
    have met := Cursor.meets_endOfInput (unread.trans (List.drop_eq_nil_of_le length))
    rwa [finish, atEnd] at met

end OpLang

import OpLang.Proofs.Layout
import OpLang.Proofs.Lockstep
import OpLang.Proofs.OperatorRecord

/-! # Operators that a source does not use

A parser asks its table for the precedence of the current token alone, and only whether it reaches a bound that is
not negative or how it compares with another that does. So a table could be any other that says the same of the
ASCII characters of the source, where negative precedences say no more than none at all. What the source declares is
the same under both tables, so they go on saying the same.
-/

namespace OpLang

namespace OperatorTable

/-- The character has no precedence, or a negative one. -/
def Inert (table : OperatorTable) (symbol : Char) : Prop :=
  ∀ precedence ∈ table.precedence? symbol, precedence < 0

/-- The tables give each ASCII character of the source the same precedence, or it is inert in both. -/
def AgreesOn (source : String) (table other : OperatorTable) : Prop :=
  ∀ symbol ∈ source.toList, symbol.toNat < 128 →
    table.precedence? symbol = other.precedence? symbol ∨ table.Inert symbol ∧ other.Inert symbol

instance (table : OperatorTable) (symbol : Char) : Decidable (table.Inert symbol) :=
  inferInstanceAs (Decidable (∀ precedence ∈ table.precedence? symbol, precedence < 0))

instance (source : String) (table other : OperatorTable) : Decidable (AgreesOn source table other) :=
  decidable_of_iff (source.toList.all fun symbol => symbol.toNat < 128 →
    table.precedence? symbol = other.precedence? symbol ∨ table.Inert symbol ∧ other.Inert symbol)
    (by simp only [List.all_eq_true, decide_eq_true_eq, AgreesOn])

/-- The entries of a table that matter to the source: those of its ASCII characters with precedences that are not
negative. -/
def inForce (source : String) (table : OperatorTable) : OperatorTable :=
  ⟨table.entries.filter fun entry => entry.1 ∈ source.toList && 0 ≤ table.precedence (.char entry.1)⟩

theorem precedence_of_ascii (table : OperatorTable) {symbol : Char} (ascii : symbol.toNat < 128) :
    table.precedence (.char symbol) = (table.precedence? symbol).getD noPrecedence := by
  simp only [precedence, Token.symbol?, if_pos ascii]

theorem inert_iff {table : OperatorTable} {symbol : Char} (ascii : symbol.toNat < 128) :
    table.Inert symbol ↔ table.precedence (.char symbol) < 0 := by
  rw [table.precedence_of_ascii ascii, Inert]
  cases table.precedence? symbol with
  | none => simp [noPrecedence]
  | some precedence => simp

/-! ## Agreement -/

section Agreement

variable {source : String} {table other : OperatorTable}

/-- What both tables gain does not make them differ. -/
theorem AgreesOn.declareAll (agrees : AgreesOn source table other) (operators : List (Char × Int)) :
    AgreesOn source (table.declareAll operators) (other.declareAll operators) := by
  intro symbol member ascii
  simp only [Inert, precedence?_declareAll]
  cases operators.reverse.lookup symbol with
  | some precedence => exact .inl rfl
  | none => exact agrees symbol member ascii

theorem lookup_filter (keep : Char → Bool) (entries : List (Char × Int)) (symbol : Char) :
    (entries.filter fun entry => keep entry.1).lookup symbol = if keep symbol then entries.lookup symbol else none := by
  induction entries with
  | nil => simp
  | cons entry entries ih =>
    obtain ⟨declared, precedence⟩ := entry
    by_cases same : symbol = declared
    · subst same
      cases kept : keep symbol <;> simp [kept, ih]
    · cases kept : keep declared <;>
        simp [kept, List.lookup_cons, beq_eq_false_iff_ne.mpr same, ih]

/-- A table may be stripped of all that does not matter to the source. -/
theorem agreesOn_inForce (source : String) (table : OperatorTable) : AgreesOn source table (table.inForce source) := by
  intro symbol member ascii
  have kept : (table.inForce source).precedence? symbol =
      if 0 ≤ table.precedence (.char symbol) then table.precedence? symbol else none := by
    have found := lookup_filter (fun c => c ∈ source.toList && 0 ≤ table.precedence (.char c)) table.entries symbol
    simpa only [inForce, precedence?, member, decide_true, Bool.true_and, decide_eq_true_eq] using found
  by_cases positive : 0 ≤ table.precedence (.char symbol)
  · rw [kept, if_pos positive]
    exact .inl rfl
  · refine .inr ⟨(inert_iff ascii).mpr (Int.not_le.mp positive), ?_⟩
    rw [Inert, kept, if_neg positive]
    simp

/-- No token of the source tells the tables apart. -/
theorem AgreesOn.precedence (agrees : AgreesOn source table other) {token : Token}
    (within : ∀ symbol, token = .char symbol → symbol ∈ source.toList) :
    table.precedence token = other.precedence token ∨ table.precedence token < 0 ∧ other.precedence token < 0 := by
  cases isSymbol : token.symbol? with
  | none => exact .inl (by simp only [OperatorTable.precedence, isSymbol])
  | some symbol =>
    obtain ⟨rfl, ascii⟩ := Token.symbol?_eq_some_iff.mp isSymbol
    rcases agrees symbol (within symbol rfl) ascii with same | ⟨inert, inertToo⟩
    · exact .inl (by rw [table.precedence_of_ascii ascii, other.precedence_of_ascii ascii, same])
    · exact .inr ⟨(inert_iff ascii).mp inert, (inert_iff ascii).mp inertToo⟩

end Agreement

end OperatorTable

/-! ## Characters of a source -/

/-- A piece that is read as a character token is this character. -/
theorem Piece.first_of_read {piece : Piece} {symbol : Char} (read : piece.read = .token (.char symbol)) :
    piece.first = symbol := by
  unfold Piece.read at read
  split at read
  · rw [Token.ofWord] at read
    split at read <;> cases read
  · split at read
    · split at read <;> cases read
    · cases read
      rfl

/-- The characters that are tokens of a source are characters of it. -/
theorem mem_of_mem_lexemes {source : String} {lexeme : Lexeme} {symbol : Char} (member : lexeme ∈ lexemes source)
    (isChar : lexeme.item = .token (.char symbol)) : symbol ∈ source.toList := by
  have inside : lexeme.item ∈ (lexemes source).map Lexeme.item := List.mem_map_of_mem member
  rw [lexemes, map_item_locate, isChar] at inside
  obtain ⟨piece, inside, read⟩ := List.mem_map.mp inside
  rw [← pieces_append source.toList]
  refine List.mem_append_left _ (List.mem_flatMap.mpr ⟨piece, inside, ?_⟩)
  rw [← piece.first_of_read read]
  exact List.mem_append_right _ (List.mem_cons_self ..)

/-- The cursor stands on, and will come to, only such characters as occur in the source. -/
structure Cursor.WithinCharsOf (source : String) (cursor : Cursor) : Prop where
  current : ∀ symbol, cursor.current = .char symbol → symbol ∈ source.toList
  unread : ∀ lexeme ∈ cursor.unread, ∀ symbol, lexeme.item = .token (.char symbol) → symbol ∈ source.toList

theorem Cursor.withinCharsOf_ofSource (source : String) : (ofSource source).WithinCharsOf source :=
  ⟨fun _ absurd => (Token.noConfusion absurd : False).elim, fun _ member _ isChar => mem_of_mem_lexemes member isChar⟩

theorem Cursor.WithinCharsOf.stoppedAt_advance {source : String} {cursor : Cursor}
    (within : cursor.WithinCharsOf source) : (stoppedAt (advance cursor)).WithinCharsOf source := by
  obtain ⟨current, place, unread, finish⟩ := cursor
  rcases unread with _ | ⟨⟨token | run, found⟩, later⟩
  · exact ⟨fun _ absurd => (Token.noConfusion absurd : False).elim, within.unread⟩
  · obtain ⟨here, behind⟩ := List.forall_mem_cons.mp within.unread
    exact ⟨fun symbol isChar => here symbol (congrArg Item.token isChar), behind⟩
  · exact ⟨within.current, (List.forall_mem_cons.mp within.unread).2⟩

/-! ## Parsing under tables that agree -/

open OperatorTable

theorem resemblance_agreesOn (source : String) :
    Resemblance (fun left right => left = right ∧ left.WithinCharsOf source) (AgreesOn source) Eq where
  bisim := .ofInvariant fun _ within => within.stoppedAt_advance
  comparable agrees := by
    rintro cursor _ ⟨rfl, within⟩
    exact agrees.precedence within.current
  record agrees forms := agrees.declareAll _
  diagnosed := by
    rintro cursor _ ⟨rfl, _⟩ fault
    rfl

theorem parse_agreesOn {source : String} {table other : OperatorTable} (agrees : AgreesOn source table other) :
    (parse table source).notifications = (parse other source).notifications ∧
      (parse table source).diagnostics = (parse other source).diagnostics ∧
      AgreesOn source (parse table source).table (parse other source).table := by
  obtain ⟨told, diagnosed, agreesAfter⟩ :=
    (resemblance_agreesOn source).parse ⟨rfl, Cursor.withinCharsOf_ofSource source⟩ agrees
  rw [List.forall₂_eq_eq_eq] at diagnosed
  exact ⟨told, diagnosed, agreesAfter⟩

/-- Operators that a source does not use do not interfere with it. Under two tables that agree on its ASCII
characters, where precedences below zero are as good as none, the listener is told the same and the same is diagnosed;
the tables gain the same declarations and agree again. In particular all but what is in force may be left out. -/
theorem unused_operators_irrelevant {source : String} {table other : OperatorTable}
    (agrees : AgreesOn source table other) :
    (parse table source).notifications = (parse other source).notifications ∧
      (parse table source).diagnostics = (parse other source).diagnostics ∧
      AgreesOn source (parse table source).table (parse other source).table ∧
      (∃ operators, (parse table source).table = table.declareAll operators ∧
        (parse other source).table = other.declareAll operators) ∧
      (parse (table.inForce source) source).notifications = (parse table source).notifications ∧
      (parse (table.inForce source) source).diagnostics = (parse table source).diagnostics := by
  obtain ⟨told, diagnosed, agreesAfter⟩ := parse_agreesOn agrees
  obtain ⟨toldInForce, diagnosedInForce, _⟩ := parse_agreesOn (agreesOn_inForce source table)
  have forms : (parse table source).forms = (parse other source).forms :=
    congrArg (List.filterMap Notification.completed?) told
  refine ⟨told, diagnosed, agreesAfter, ?_, toldInForce.symm, diagnosedInForce.symm⟩
  have recorded := (parse_record table source).1
  rw [forms] at recorded
  exact ⟨_, recorded, (parse_record other source).1⟩

/-- An operator that is declared on the way is used under both tables. One has it with a negative precedence before, and
the other has precedences for an operator that does not occur and for an arrow, which is none. -/
theorem unused_operators_irrelevant_or :
    let table : OperatorTable := ⟨[('|', -7), ('+', 20)]⟩
    let other : OperatorTable := ⟨[('+', 20), ('%', 40), ('→', 3)]⟩
    AgreesOn "a | 1; def binary | 5 (a b) a; a + 1 | 2 → 3" table other ∧
      (parse table "a | 1; def binary | 5 (a b) a; a + 1 | 2 → 3").notifications =
        (parse other "a | 1; def binary | 5 (a b) a; a + 1 | 2 → 3").notifications ∧
      (parse table "a | 1; def binary | 5 (a b) a; a + 1 | 2 → 3").forms.length = 5 ∧
      other.inForce "a | 1; def binary | 5 (a b) a; a + 1 | 2 → 3" = ⟨[('+', 20)]⟩ := by
  intro table other
  have agrees : AgreesOn "a | 1; def binary | 5 (a b) a; a + 1 | 2 → 3" table other := by decide +kernel
  exact ⟨agrees, (unused_operators_irrelevant agrees).1, by decide +kernel, by decide +kernel⟩

end OpLang

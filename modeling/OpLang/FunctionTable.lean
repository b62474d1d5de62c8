import OpLang.Error
import OpLang.Form

/-! # Function tables

A table holds the prototypes of the functions that may be used. A function may be declared many times as
long as it keeps its number of parameters; the latest declaration counts. Operators are functions too,
and they are found by the names of the functions behind them.
-/

namespace OpLang

/-- The known functions, latest declaration first. -/
structure FunctionTable where
  entries : List (String × Prototype) := []
  deriving DecidableEq

namespace FunctionTable

def find? (functions : FunctionTable) (name : String) : Option Prototype :=
  functions.entries.lookup name

def knows (functions : FunctionTable) (name : String) : Bool := (functions.find? name).isSome

theorem knows_iff {functions : FunctionTable} {name : String} :
    functions.knows name ↔ ∃ proto, functions.find? name = some proto := Option.isSome_iff_exists

/-- Makes a prototype the one that is known under a name. -/
def insert (functions : FunctionTable) (name : String) (proto : Prototype) : FunctionTable :=
  ⟨(name, proto) :: functions.entries⟩

/-- Forgets a name. -/
def erase (functions : FunctionTable) (name : String) : FunctionTable :=
  ⟨functions.entries.filter fun entry => entry.1 ≠ name⟩

/-- Makes a function known. A known function keeps its number of parameters. -/
def declare (functions : FunctionTable) (proto : Prototype) : Except Error FunctionTable :=
  match functions.find? proto.name with
  | none => .ok (functions.insert proto.name proto)
  | some known =>
    if known.params.length = proto.params.length then .ok (functions.insert proto.name proto)
    else .error (.arityMismatch proto.name known.params.length proto.params.length)

/-- Takes a declaration back: the name has its previous prototype again, or is forgotten if it had none. -/
def restore (functions : FunctionTable) (name : String) (previous : Option Prototype) : FunctionTable :=
  match previous with
  | some proto => functions.insert name proto
  | none => functions.erase name

@[simp] theorem find?_insert (functions : FunctionTable) (name other : String) (proto : Prototype) :
    (functions.insert name proto).find? other = if other = name then some proto else functions.find? other := by
  by_cases same : other = name
  · simp [find?, insert, same]
  · simp [find?, insert, List.lookup_cons, same, beq_eq_false_iff_ne.mpr same]

@[simp] theorem knows_insert (functions : FunctionTable) (name : String) (proto : Prototype) :
    (functions.insert name proto).knows name := by
  simp [knows]

@[simp] theorem find?_erase (functions : FunctionTable) (name other : String) :
    (functions.erase name).find? other = if other = name then none else functions.find? other := by
  obtain ⟨entries⟩ := functions
  simp only [find?, erase]
  induction entries with
  | nil => simp
  | cons entry entries ih =>
    obtain ⟨here, proto⟩ := entry
    by_cases erased : here = name
    · by_cases same : other = name
      · simpa [erased, same] using ih
      · simpa [erased, same, List.lookup_cons, beq_eq_false_iff_ne.mpr same] using ih
    · by_cases found : other = here
      · simp [erased, found]
      · simpa [erased, List.lookup_cons, beq_eq_false_iff_ne.mpr found] using ih

/-- Whatever was known before a declaration is known again once it is taken back. -/
theorem find?_restore_insert (functions : FunctionTable) (name : String) (proto : Prototype) :
    ((functions.insert name proto).restore name (functions.find? name)).find? = functions.find? := by
  funext other
  cases known : functions.find? name with
  | none =>
    rw [restore, find?_erase, find?_insert]
    split
    · next same => rw [same, known]
    · rfl
  | some previous =>
    rw [restore, find?_insert, find?_insert]
    split
    · next same => rw [same, known]
    · rfl

/-- Whether a binary operator may be used. -/
def knowsBinary (functions : FunctionTable) (symbol : Char) : Bool :=
  standardOperators.any (fun operator => operator.1 = symbol) || functions.knows (binaryName symbol)

/-- A binary operator may be used if it is built in or the function behind it is known. -/
theorem knowsBinary_iff {functions : FunctionTable} {symbol : Char} :
    functions.knowsBinary symbol ↔ (∃ precedence, (symbol, precedence) ∈ standardOperators) ∨
      ∃ proto, functions.find? (binaryName symbol) = some proto := by
  rw [knowsBinary, Bool.or_eq_true, knows_iff, List.any_eq_true]
  refine or_congr_left ⟨?_, ?_⟩
  · rintro ⟨⟨_, precedence⟩, member, same⟩
    exact ⟨precedence, of_decide_eq_true same ▸ member⟩
  · rintro ⟨precedence, member⟩
    exact ⟨_, member, decide_eq_true rfl⟩

end FunctionTable

end OpLang

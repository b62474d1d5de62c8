import OpLang.Proofs.LastingVerdicts
import OpLang.Proofs.WellFormed

/-! # Agreement on binary operators

A parser takes in the operator of every infix form that it reads, and a resolver knows the function behind it only if
it found no fault in the form. So they may disagree, but in one way only: a binary operator that the parser has read
is unknown to the resolver only if it was declared, and if each form that declared it was a definition with a fault in
its body.
-/

namespace OpLang

open Visitable

/-! ## Sources one after the other -/

/-- What comes of sources that are read one after the other, each with the operators that the ones before have left. -/
def parseAll (table : OperatorTable) : List String → Outcome
  | [] => ⟨[], [], table⟩
  | source :: sources =>
    let first := parse table source
    let later := parseAll first.table sources
    ⟨first.notifications ++ later.notifications, first.diagnostics ++ later.diagnostics, later.table⟩

theorem forms_parseAll_cons (table : OperatorTable) (source : String) (sources : List String) :
    (parseAll table (source :: sources)).forms =
      (parse table source).forms ++ (parseAll (parse table source).table sources).forms :=
  List.filterMap_append

theorem parseAll_in_turn (table : OperatorTable) (sources : List String) :
    WrittenInTurn table (parseAll table sources).forms := by
  induction sources generalizing table with
  | nil => exact .nil
  | cons source sources ih =>
    obtain ⟨recorded, _, written⟩ := parse_in_turn table source
    rw [forms_parseAll_cons]
    exact written.append (recorded ▸ ih (parse table source).table)

/-! ## Declared operators -/

/-- The form is a definition or a declaration of the binary operator. -/
def Form.Declares (form : Form) (symbol : Char) : Prop := ∃ precedence, form.operator? = some (symbol, precedence)

namespace OperatorTable

theorem mem_of_precedence?_declareAll {table : OperatorTable} {operators : List (Char × Int)} {symbol : Char}
    {precedence : Int} (found : (table.declareAll operators).precedence? symbol = some precedence) :
    (symbol, precedence) ∈ operators ∨ table.precedence? symbol = some precedence := by
  rw [precedence?_declareAll, Option.or_eq_some_iff] at found
  obtain declared | ⟨_, older⟩ := found
  · exact .inl (mem_of_lookup_reverse declared)
  · exact .inr older

/-- An operator in force is built in or declared. -/
theorem declared_of_record {forms : List Form} {symbol : Char}
    (inForce : 0 ≤ (standard.record forms).precedence (.char symbol)) :
    (∃ precedence, (symbol, precedence) ∈ standardOperators) ∨ ∃ form ∈ forms, form.Declares symbol := by
  obtain ⟨_, same, _, found, _⟩ := infix_iff.mpr ⟨rfl, inForce⟩
  cases same
  obtain declared | builtIn := mem_of_precedence?_declareAll found
  · obtain ⟨form, member, declares⟩ := List.mem_filterMap.mp declared
    exact .inr ⟨form, member, _, declares⟩
  · obtain member | absent := mem_of_precedence?_declareAll builtIn
    · exact .inl ⟨_, member⟩
    · cases absent

end OperatorTable

theorem Form.WellFormed.body {table : OperatorTable} {form : Form} {function : Function}
    (wellFormed : form.WellFormed table) (checked : form = .definition function ∨ form = .expression function) :
    function.body.WellFormed table := by
  obtain rfl | rfl := checked <;> exact wellFormed.2

/-- A node of an expression in a function is one of its body. -/
theorem Expr.WellFormed.of_mem_trace {table : OperatorTable} {function : Function} {label : Label}
    (wellFormed : function.body.WellFormed table) (member : label ∈ trace function) :
    label = .function ∨ label = .prototype function.proto ∨ label.WellFormed table := by
  rw [Function.trace_eq, List.mem_cons, List.mem_cons] at member
  exact member.imp_right (Or.imp_right (wellFormed label))

theorem Function.unknownBinary {functions : FunctionTable} {scope : List String} {function : Function} {symbol : Char}
    (faulty : function.resolveIn functions scope = .error (.unknownBinaryOperator symbol)) :
    .binary symbol ∈ trace function ∧ ¬ functions.knowsBinary symbol := by
  obtain ⟨label, member, fault⟩ | ⟨name, absurd⟩ := (function.demands scope).blame faulty
  · obtain ⟨_, _, same⟩ | ⟨_, rfl, same, unknown⟩ | ⟨_, _, _, same | ⟨_, same⟩⟩ := Label.resolve_eq_error fault
    · cases same
    · cases same
      exact ⟨member, Bool.eq_false_iff.mp unknown⟩
    · cases same
    · cases same
  · cases absurd

namespace Resolver

/-- The definition is refused for a fault in its body and for nothing else. -/
structure RefusesBody (resolver : Resolver) (function : Function) (error : Error) : Prop where
  fresh : function.proto.name ∉ resolver.defined
  admits : resolver.functions.Admits function.proto
  faulty : (resolver.knowing function.proto).fault? function = some error

/-- What is defined is known. -/
theorem knows_of_defined {forms : List Form} {name : String} (defined : name ∈ (ofForms forms).defined) :
    (ofForms forms).functions.knows name := by
  have tells := tells_history forms
  obtain ⟨function, member, named⟩ := (tells.defined name).mp defined
  rw [FunctionTable.knows, tells.latest, List.find?_isSome]
  refine ⟨function.proto, List.mem_reverse.mpr (List.mem_filterMap.mpr ⟨_, member, rfl⟩), ?_⟩
  exact decide_eq_true named

/-- If what a form declares is unknown after it, then the form is a definition with a fault in its body. -/
theorem Receives.refusesBody {forms : List Form} {form : Form} {fault? : Option Error} {proto : Prototype}
    {next : Resolver} (receives : (ofForms forms).Receives form fault? next) (known : form.prototype? = some proto)
    (unknown : ¬ next.functions.knows proto.name) :
    ∃ function error, form = .definition function ∧ fault? = some error ∧
      (ofForms forms).RefusesBody function error := by
  cases receives with
  | declared _ functions | defined _ _ _ functions =>
    cases known
    exact absurd (functions ▸ FunctionTable.knows_insert ..) unknown
  | redefinition again agrees =>
    cases known
    exact absurd ((FunctionTable.Retains.of_find?_eq agrees.functions).knows (knows_of_defined again)) unknown
  | clash makes _ found _ agrees =>
    cases makes.symm.trans known
    have knewIt := FunctionTable.knows_iff.mpr ⟨_, found⟩
    exact absurd ((FunctionTable.Retains.of_find?_eq agrees.functions).knows knewIt) unknown
  | body fresh admits faulty => exact ⟨_, _, rfl, rfl, fresh, admits, faulty⟩
  | expression => cases known

/-- A binary operator is unknown if nothing behind it is known, not even the function that uses it. -/
theorem Receives.unknownBinary {resolver next : Resolver} {form : Form} {symbol : Char}
    (receives : resolver.Receives form (some (.unknownBinaryOperator symbol)) next)
    (closed : resolver.scopes.frames = []) :
    ∃ function, (form = .definition function ∨ form = .expression function) ∧ .binary symbol ∈ trace function ∧
      ¬ resolver.functions.knowsBinary symbol := by
  generalize isFault : some (Error.unknownBinaryOperator symbol) = fault? at receives
  cases receives with
  | declared | defined | redefinition | clash => cases isFault
  | @body function _ _ _ admits faulty =>
    cases isFault
    have inside := (fault?_eq_some_iff (frames_knowing closed function.proto)).mp faulty
    obtain ⟨member, unknown⟩ := Function.unknownBinary inside
    exact ⟨function, .inl rfl, member, fun known => unknown ((FunctionTable.Retains.insert admits).knowsBinary known)⟩
  | @expression function _ _ =>
    obtain ⟨member, unknown⟩ := Function.unknownBinary ((fault?_eq_some_iff closed).mp isFault.symm)
    exact ⟨function, .inr rfl, member, unknown⟩

/-- The fault lies in the use of other names than that of the operator itself. -/
theorem RefusesBody.ne_of_named {resolver : Resolver} {table : OperatorTable} {function : Function} {error : Error}
    {symbol : Char} (refuses : resolver.RefusesBody function error) (closed : resolver.scopes.frames = [])
    (wellFormed : function.body.WellFormed table) (operator : IsOperator symbol)
    (named : function.proto.name = binaryName symbol) :
    error ≠ .redefinition function.proto.name ∧
      ∀ wanted found, error ≠ .arityMismatch function.proto.name wanted found := by
  have faulty := (fault?_eq_some_iff (frames_knowing closed function.proto)).mp refuses.faulty
  obtain ⟨label, member, fault⟩ | ⟨name, rfl⟩ := (function.demands []).blame faulty
  · obtain ⟨_, rfl, rfl⟩ | ⟨_, rfl, rfl, _⟩ | ⟨callee, argCount, rfl, missing⟩ := Label.resolve_eq_error fault
    · exact ⟨nofun, nofun⟩
    · exact ⟨nofun, nofun⟩
    · have isName : IsName callee := by simpa [Label.WellFormed] using wellFormed.of_mem_trace member
      obtain rfl | ⟨_, rfl⟩ := missing
      · exact ⟨nofun, nofun⟩
      · refine ⟨nofun, fun wanted found same => isName.ne_binaryName operator ?_⟩
        rw [Error.arityMismatch.injEq] at same
        exact same.1.trans named
  · exact ⟨nofun, nofun⟩

end Resolver

/-! ## The agreement -/

/-- A binary operator of a form that a source can contain is built in or declared by an earlier form. -/
theorem WrittenInTurn.binary_declared {before after : List Form} {form : Form} {function : Function} {symbol : Char}
    (written : WrittenInTurn .standard (before ++ form :: after))
    (checked : form = .definition function ∨ form = .expression function) (member : .binary symbol ∈ trace function) :
    (∃ precedence, (symbol, precedence) ∈ standardOperators) ∨ ∃ earlier ∈ before, earlier.Declares symbol := by
  have labelled := (written.under.wellFormed.body checked).of_mem_trace member
  simp only [reduceCtorEq, false_or] at labelled
  exact OperatorTable.declared_of_record labelled.2

/-- The function behind a declared operator bears its name. -/
theorem Form.Declares.named {form : Form} {symbol : Char} (declares : form.Declares symbol) (written : form.Written) :
    ∃ proto, form.prototype? = some proto ∧ proto.name = binaryName symbol ∧ IsOperator symbol := by
  obtain ⟨precedence, declared⟩ := declares
  obtain ⟨proto, known, isInfix, _, _⟩ := (form.operator?_eq_some_iff _).mp declared
  obtain ⟨other, named, same, isDeclaration⟩ := written.declares known isInfix
  obtain ⟨rfl, _⟩ := Prod.mk.inj (Option.some.inj (same.symm.trans declared))
  exact ⟨proto, known, named, isDeclaration.operator⟩

theorem FunctionTable.knowsBinary_of_mem {functions : FunctionTable} {symbol : Char} {precedence : Int}
    (builtIn : (symbol, precedence) ∈ standardOperators) : functions.knowsBinary symbol :=
  knowsBinary_iff.mpr (.inl ⟨_, builtIn⟩)

theorem FunctionTable.knowsBinary_of_knows {functions : FunctionTable} {symbol : Char}
    (known : functions.knows (binaryName symbol)) : functions.knowsBinary symbol :=
  knowsBinary_iff.mpr (.inr (knows_iff.mp known))

/-- As long as an operator is unknown, each form that has declared it was refused for its body. -/
theorem Resolver.refusesBody_of_declares {forms : List Form} {table : OperatorTable}
    {prior between : List (Form × Option Error)} {earlier : Form} {fault? : Option Error} {symbol : Char}
    (split : history forms = prior ++ (earlier, fault?) :: between) (written : WrittenInTurn table forms)
    (declares : earlier.Declares symbol) (unknown : ¬ (ofForms forms).functions.knowsBinary symbol) :
    ∃ function error, earlier = .definition function ∧ fault? = some error ∧
      (ofForms (prior.map Prod.fst)).RefusesBody function error ∧
      error ≠ .redefinition function.proto.name ∧
      ∀ wanted found, error ≠ .arityMismatch function.proto.name wanted found := by
  obtain ⟨whole, _, receives⟩ := history_split split
  have member : earlier ∈ forms := by
    rw [whole]
    simp
  obtain ⟨proto, known, named, operator⟩ := declares.named (written.of_mem member)
  have retained := retains_append (prior.map Prod.fst ++ [earlier]) (between.map Prod.fst)
  rw [← whole, ofForms_concat] at retained
  obtain ⟨function, error, rfl, rfl, refuses⟩ := receives.refusesBody known fun stillKnown =>
    unknown (FunctionTable.knowsBinary_of_knows (named ▸ retained.knows stillKnown))
  cases known
  have inTurn : WrittenInTurn table (prior.map Prod.fst ++ .definition function :: between.map Prod.fst) := by
    rwa [whole, List.append_assoc] at written
  have wellFormed := inTurn.under.wellFormed.body (.inl rfl)
  exact ⟨function, error, rfl, rfl, refuses, refuses.ne_of_named (frames_ofForms _) wellFormed operator named⟩

/-- A parser that starts with the standard operators and a resolver that listens to it agree on binary operators: each
that is read is built in or declared by an earlier form; and it is unknown to the resolver only if there is such a
form, and each was a definition in the body of which there was a fault. -/
theorem operators_agree (sources : List String) :
    Resolver.hearAll {} (parseAll .standard sources).notifications =
        Resolver.ofForms (parseAll .standard sources).forms ∧
      (∀ before form after function symbol, (parseAll .standard sources).forms = before ++ form :: after →
        (form = .definition function ∨ form = .expression function) → .binary symbol ∈ trace function →
        (∃ precedence, (symbol, precedence) ∈ standardOperators) ∨ ∃ earlier ∈ before, earlier.Declares symbol) ∧
      ∀ before form after symbol, Resolver.history (parseAll .standard sources).forms =
          before ++ (form, some (.unknownBinaryOperator symbol)) :: after →
        (∃ entry ∈ before, entry.1.Declares symbol) ∧
          ∀ prior earlier fault? between, before = prior ++ (earlier, fault?) :: between →
            earlier.Declares symbol →
            ∃ function error, earlier = .definition function ∧ fault? = some error ∧
              (Resolver.ofForms (prior.map Prod.fst)).RefusesBody function error ∧
              error ≠ .redefinition function.proto.name ∧
              ∀ wanted found, error ≠ .arityMismatch function.proto.name wanted found := by
  have written := parseAll_in_turn .standard sources
  refine ⟨Resolver.hearAll_eq_foldl _ _, ?_, ?_⟩
  · intro before form after function symbol split checked member
    exact (split ▸ written).binary_declared checked member
  · intro before form after symbol split
    obtain ⟨whole, past, receives⟩ := Resolver.history_split split
    rw [List.append_assoc] at whole
    obtain ⟨function, checked, member, unknown⟩ := receives.unknownBinary (Resolver.frames_ofForms _)
    rw [whole] at written
    refine ⟨?_, fun prior earlier fault? between same declares => ?_⟩
    · obtain ⟨_, builtIn⟩ | ⟨earlier, inside, declares⟩ := written.binary_declared checked member
      · exact absurd (FunctionTable.knowsBinary_of_mem builtIn) unknown
      · obtain ⟨entry, isEntry, rfl⟩ := List.mem_map.mp inside
        exact ⟨entry, isEntry, declares⟩
    · exact Resolver.refusesBody_of_declares (past.trans same) written.of_append declares unknown

/-- An operator that one source declares in vain is read in the next one, and is unknown there. -/
theorem operators_agree_in_vain :
    let declaration : Function := ⟨⟨"binary|", ["a", "b"], .infixOp, 30⟩, .var "c"⟩
    let user : Function := ⟨⟨"f", ["x"], .none, 30⟩, .binary '|' (.var "x") (.var "x")⟩
    Resolver.history (parseAll .standard ["def binary | (a b) c", "def f(x) x | x"]).forms =
        [(.definition declaration, some (.unknownVariable "c"))] ++
          (.definition user, some (.unknownBinaryOperator '|')) :: [] ∧
      (Resolver.ofForms []).RefusesBody declaration (.unknownVariable "c") := by
  refine ⟨?history, ?_⟩
  · decide +kernel
  · obtain ⟨_, _, unknown⟩ := operators_agree ["def binary | (a b) c", "def f(x) x | x"]
    obtain ⟨_, refused⟩ := unknown _ _ _ _ ?history
    obtain ⟨function, error, same, fault, refuses, _⟩ := refused [] _ _ [] rfl ⟨30, rfl⟩
    cases same
    cases fault
    exact refuses

end OpLang

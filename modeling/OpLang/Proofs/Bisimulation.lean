import OpLang.Proofs.Alike

/-! # What productions see of a cursor

A production looks at the current token and steps forward; places, and what lies behind the token it
stops on, it never sees. So a relation of cursors that agrees on the current token and is kept by steps
is kept by every production, which returns the same result or fails with the same error on both sides.
Read with equal cursors, this says that what every step keeps is kept by every production.
-/

namespace OpLang

/-- The same result or the same error, with cursors that are related again. -/
inductive Agree {α : Type} (R : Cursor → Cursor → Prop) :
    EStateM.Result Error Cursor α → EStateM.Result Error Cursor α → Prop
  | ok {value : α} {first second : Cursor} (related : R first second) :
      Agree R (.ok value first) (.ok value second)
  | error {fault : Error} {first second : Cursor} (related : R first second) :
      Agree R (.error fault first) (.error fault second)

/-- A production that cannot tell related cursors apart. -/
def Blind {α : Type} (R : Cursor → Cursor → Prop) (production : Parse α) : Prop :=
  ∀ first second, R first second → Agree R (production first) (production second)

/-- Related cursors stand on the same token with as much to be read, and stay related by steps. -/
structure Cursor.Bisimulation (R : Cursor → Cursor → Prop) : Prop where
  current {first second : Cursor} (related : R first second) : first.current = second.current
  remaining {first second : Cursor} (related : R first second) : first.remaining = second.remaining
  advance : Blind R Cursor.advance

variable {R : Cursor → Cursor → Prop} {α β : Type}

theorem Blind.alike {production : Parse α} (blind : Blind R production) :
    Alike R (fun _ => R) production production := by
  intro left right related
  have agrees := blind left right related
  generalize production left = one, production right = other at agrees ⊢
  cases agrees with
  | ok related => exact .ok related
  | error related => exact .error related

/-- Productions that are alike for the same operators and end on related cursors, errors or not. -/
theorem Alike.blind {production : Parse α} (alike : Alike R (fun _ => R) production production) :
    Blind R production := by
  intro left right related
  have outcomes := alike left right related
  generalize production left = one, production right = other at outcomes ⊢
  cases outcomes with
  | ok related => exact .ok related
  | error related => exact .error related

/-- Cursors that cannot be told apart go side by side, wherever an error stops them. -/
theorem Cursor.Bisimulation.parallel (bisim : Cursor.Bisimulation R) : Cursor.Parallel R fun _ => R where
  current := bisim.current
  remaining := bisim.remaining
  advance := bisim.advance.alike
  raise _ _ _ related := related

/-- With the same operators no comparison of precedences tells related cursors apart. -/
theorem Cursor.Bisimulation.comparable (bisim : Cursor.Bisimulation R) (bound : Int) (table : OperatorTable) :
    table.Comparable R bound table :=
  .refl bisim.parallel bound table

/-! ## Invariants -/

/-- Where a computation has left the cursor, whether it succeeded or failed. -/
def stoppedAt : EStateM.Result Error Cursor α → Cursor
  | .ok _ cursor => cursor
  | .error _ cursor => cursor

/-- What every step keeps is a bisimulation of each cursor with itself. -/
theorem Cursor.Bisimulation.ofInvariant {P : Cursor → Prop}
    (kept : ∀ cursor, P cursor → P (stoppedAt (Cursor.advance cursor))) :
    Cursor.Bisimulation fun first second => first = second ∧ P first where
  current related := congrArg Cursor.current related.1
  remaining related := congrArg Cursor.remaining related.1
  advance := by
    rintro cursor _ ⟨rfl, holds⟩
    have after := kept cursor holds
    generalize Cursor.advance cursor = outcome at after ⊢
    cases outcome with
    | ok value next => exact .ok ⟨rfl, after⟩
    | error fault next => exact .error ⟨rfl, after⟩

theorem Blind.invariant {P : Cursor → Prop} {production : Parse α}
    (blind : Blind (fun first second => first = second ∧ P first) production) {cursor : Cursor}
    (holds : P cursor) :
    P (stoppedAt (production cursor)) := by
  have agrees := blind cursor cursor ⟨rfl, holds⟩
  generalize production cursor = one at agrees ⊢
  cases agrees with
  | ok related => exact related.2
  | error related => exact related.2

end OpLang

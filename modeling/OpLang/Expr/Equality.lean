import OpLang.Expr.Basic

/-! # Equality of expressions

Two equalities are told apart. Identity of trees is decidable; it takes a number for what it is, so that
the two zeros differ. `equals` compares numbers as arithmetic does, so that a tree that holds something
which is not a number differs even from itself.
-/

namespace OpLang.Expr

/-! ## Identity -/

mutual

/-- Compares trees node by node. -/
def decEq : (x y : Expr) → Decidable (x = y)
  | .number a, y =>
    match y with
    | .number b => decidable_of_iff (a = b) (by simp)
    | .var _ | .unary _ _ | .binary _ _ _ | .call _ _ | .ifElse _ _ _ | .forIn _ _ _ _ _
    | .varIn _ _ => isFalse nofun
  | .var a, y =>
    match y with
    | .var b => decidable_of_iff (a = b) (by simp)
    | .number _ | .unary _ _ | .binary _ _ _ | .call _ _ | .ifElse _ _ _ | .forIn _ _ _ _ _
    | .varIn _ _ => isFalse nofun
  | .unary a x, y =>
    match y with
    | .unary b y =>
      have := decEq x y
      decidable_of_iff (a = b ∧ x = y) (by simp)
    | .number _ | .var _ | .binary _ _ _ | .call _ _ | .ifElse _ _ _ | .forIn _ _ _ _ _
    | .varIn _ _ => isFalse nofun
  | .binary a x x', y =>
    match y with
    | .binary b y y' =>
      have := decEq x y
      have := decEq x' y'
      decidable_of_iff (a = b ∧ x = y ∧ x' = y') (by simp)
    | .number _ | .var _ | .unary _ _ | .call _ _ | .ifElse _ _ _ | .forIn _ _ _ _ _
    | .varIn _ _ => isFalse nofun
  | .call f xs, y =>
    match y with
    | .call g ys =>
      have := decEqArgs xs ys
      decidable_of_iff (f = g ∧ xs = ys) (by simp)
    | .number _ | .var _ | .unary _ _ | .binary _ _ _ | .ifElse _ _ _ | .forIn _ _ _ _ _
    | .varIn _ _ => isFalse nofun
  | .ifElse x x' x'', y =>
    match y with
    | .ifElse y y' y'' =>
      have := decEq x y
      have := decEq x' y'
      have := decEq x'' y''
      decidable_of_iff (x = y ∧ x' = y' ∧ x'' = y'') (by simp)
    | .number _ | .var _ | .unary _ _ | .binary _ _ _ | .call _ _ | .forIn _ _ _ _ _
    | .varIn _ _ => isFalse nofun
  | .forIn m x x' p x'', y =>
    match y with
    | .forIn n y y' q y'' =>
      have := decEq x y
      have := decEq x' y'
      have := decEqStep p q
      have := decEq x'' y''
      decidable_of_iff (m = n ∧ x = y ∧ x' = y' ∧ p = q ∧ x'' = y'') (by simp)
    | .number _ | .var _ | .unary _ _ | .binary _ _ _ | .call _ _ | .ifElse _ _ _
    | .varIn _ _ => isFalse nofun
  | .varIn xs x, y =>
    match y with
    | .varIn ys y =>
      have := decEqBindings xs ys
      have := decEq x y
      decidable_of_iff (xs = ys ∧ x = y) (by simp)
    | .number _ | .var _ | .unary _ _ | .binary _ _ _ | .call _ _ | .ifElse _ _ _
    | .forIn _ _ _ _ _ => isFalse nofun
termination_by structural x => x

def decEqArgs : (xs ys : List Expr) → Decidable (xs = ys)
  | [], [] => isTrue rfl
  | [], _ :: _ => isFalse nofun
  | _ :: _, [] => isFalse nofun
  | x :: xs, y :: ys =>
    have := decEq x y
    have := decEqArgs xs ys
    decidable_of_iff (x = y ∧ xs = ys) (by simp)
termination_by structural xs => xs

def decEqStep : (p q : Option Expr) → Decidable (p = q)
  | none, none => isTrue rfl
  | none, some _ => isFalse nofun
  | some _, none => isFalse nofun
  | some x, some y =>
    have := decEq x y
    decidable_of_iff (x = y) (by simp)
termination_by structural p => p

def decEqBindings : (xs ys : List (String × Option Expr)) → Decidable (xs = ys)
  | [], [] => isTrue rfl
  | [], _ :: _ => isFalse nofun
  | _ :: _, [] => isFalse nofun
  | (m, p) :: xs, (n, q) :: ys =>
    have := decEqStep p q
    have := decEqBindings xs ys
    decidable_of_iff (m = n ∧ p = q ∧ xs = ys) (by simp [and_assoc])
termination_by structural xs => xs

end

instance : DecidableEq Expr := decEq

/-! ## Equality up to arithmetic -/

mutual

/-- Equality of trees with the equality of numbers that arithmetic has. -/
def equals : Expr → Expr → Bool
  | .number x, .number y => x.equals y
  | .var x, .var y => x == y
  | .unary s x, .unary t y => s == t && x.equals y
  | .binary s x x', .binary t y y' => s == t && x.equals y && x'.equals y'
  | .call f xs, .call g ys => f == g && equalsArgs xs ys
  | .ifElse x x' x'', .ifElse y y' y'' => x.equals y && x'.equals y' && x''.equals y''
  | .forIn m x x' p x'', .forIn n y y' q y'' =>
    m == n && x.equals y && x'.equals y' && equalsStep p q && x''.equals y''
  | .varIn xs x, .varIn ys y => equalsBindings xs ys && x.equals y
  | _, _ => false

def equalsArgs : List Expr → List Expr → Bool
  | [], [] => true
  | x :: xs, y :: ys => x.equals y && equalsArgs xs ys
  | _, _ => false

def equalsStep : Option Expr → Option Expr → Bool
  | none, none => true
  | some x, some y => x.equals y
  | _, _ => false

def equalsBindings : List (String × Option Expr) → List (String × Option Expr) → Bool
  | [], [] => true
  | (m, some x) :: xs, (n, some y) :: ys => m == n && x.equals y && equalsBindings xs ys
  | (m, none) :: xs, (n, none) :: ys => m == n && equalsBindings xs ys
  | _, _ => false

end

end OpLang.Expr

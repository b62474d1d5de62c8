/-! # Scope stacks

A scope stack holds the frames of the scopes that are open, each with the names bound in it. Entering a
scope gives a guard, and releasing the guard closes that scope with all the scopes inside it. Guards may
be released in any order or not at all: a guard whose scope has gone already does nothing, since frames
are told apart by numbers that are never used again.
-/

namespace OpLang

/-- An open scope. -/
structure Frame (β : Type) where
  id : Nat
  /-- The bindings, latest first. -/
  bindings : List (String × β)
  deriving DecidableEq

/-- What is needed to close a scope. -/
structure Guard where
  id : Nat
  /-- How many scopes were open when this one was entered. -/
  depth : Nat
  deriving DecidableEq

/-- The open scopes. -/
structure ScopeStack (β : Type) where
  /-- Innermost first. -/
  frames : List (Frame β) := []
  /-- The number of the next frame. -/
  nextId : Nat := 0
  deriving DecidableEq

namespace Frame

variable {β : Type}

def find? (frame : Frame β) (name : String) : Option β := frame.bindings.lookup name

/-- The index, counted from the outermost frame, of the innermost frame that binds a name. -/
def levelOf? (name : String) : List (Frame β) → Option Nat
  | [] => none
  | frame :: outer => if (frame.find? name).isSome then some outer.length else levelOf? name outer

/-- The frames outside the one with the given number. -/
def outside? (id : Nat) : List (Frame β) → Option (List (Frame β))
  | [] => none
  | frame :: outer => if frame.id = id then some outer else outside? id outer

end Frame

namespace ScopeStack

variable {β : Type}

def empty : ScopeStack β := {}

/-- How many scopes are open. -/
def depth (stack : ScopeStack β) : Nat := stack.frames.length

/-- Opens a scope. -/
def enter (stack : ScopeStack β) : Guard × ScopeStack β :=
  (⟨stack.nextId, stack.depth⟩, ⟨⟨stack.nextId, []⟩ :: stack.frames, stack.nextId + 1⟩)

/-- Binds a name in the innermost scope, and tells whether there is one. -/
def bind (stack : ScopeStack β) (name : String) (value : β) : Bool × ScopeStack β :=
  match stack.frames with
  | [] => (false, stack)
  | frame :: outer =>
    (true, { stack with frames := { frame with bindings := (name, value) :: frame.bindings } :: outer })

/-- The value of a name in the innermost scope that binds it. -/
def find? (stack : ScopeStack β) (name : String) : Option β :=
  stack.frames.findSome? fun frame => frame.find? name

/-- The index, counted from the outermost scope, of the scope that `find?` finds a name in. -/
def levelOf? (stack : ScopeStack β) (name : String) : Option Nat := Frame.levelOf? name stack.frames

/-- Closes the scope of a guard and the scopes inside it. -/
def release (stack : ScopeStack β) (guard : Guard) : ScopeStack β :=
  { stack with frames := (Frame.outside? guard.id stack.frames).getD stack.frames }

theorem bind_eq_false_iff (stack : ScopeStack β) (name : String) (value : β) :
    (stack.bind name value).1 = false ↔ stack.depth = 0 := by
  cases frames : stack.frames <;> simp [bind, depth, frames]

/-- A line that shows how deep the stack is. -/
def describe (stack : ScopeStack β) : String :=
  "ScopeStack \x7b depth: " ++ toString stack.depth ++ " \x7d"

/-- Runs an action in a scope of its own, which is closed whether or not the action succeeds. -/
def within {ε α : Type} (action : EStateM ε (ScopeStack β) α) : EStateM ε (ScopeStack β) α :=
  fun stack =>
    let (guard, inner) := stack.enter
    match action inner with
    | .ok result last => .ok result (last.release guard)
    | .error error last => .error error (last.release guard)

end ScopeStack

end OpLang

import OpLang.Error
import OpLang.Form

/-! # Delivery of forms

Reading a form opens a rule of its kind and closes it again. A form that is accepted when its rule is
closed waits until forms are next handed out: then a listener, if there is one by that time, is told of
its beginning and its end, and otherwise it is forgotten. Rules may lie in each other; the innermost one
is always the one to be closed.
-/

namespace OpLang

/-- What a listener is told about a form. -/
inductive Notification where
  | entered (form : Form)
  | exited (form : Form)
  deriving DecidableEq

namespace Notification

/-- The form that a notification says to be complete. -/
def completed? : Notification → Option Form
  | .entered _ => none
  | .exited form => some form

/-- What a listener is told about one form from first to last. -/
def ofForm (form : Form) : List Notification := [.entered form, .exited form]

end Notification

/-- Forms on their way to listeners, who are told apart by `ι`. -/
structure Delivery (ι : Type) where
  /-- The kinds of the open rules, innermost first. -/
  openRules : List FormKind := []
  /-- Accepted forms that have not been handed out, in the order in which their rules were closed. -/
  pending : List Form := []
  listener : Option ι := none
  /-- What was told so far, and to whom. -/
  delivered : List (ι × Notification) := []
  deriving DecidableEq

namespace Delivery

variable {ι : Type}

/-- Puts a listener in the place of any other. -/
def attach (delivery : Delivery ι) (listener : ι) : Delivery ι :=
  { delivery with listener := some listener }

def openRule (delivery : Delivery ι) (kind : FormKind) : Delivery ι :=
  { delivery with openRules := kind :: delivery.openRules }

/-- Closes the innermost open rule with the form that it produced, if it produced one. A form of another
kind than the rule's is an error and is dropped, but its rule is closed all the same. -/
def closeRule (form? : Option Form) : EStateM Error (Delivery ι) Unit := fun delivery =>
  match delivery.openRules with
  | [] => .error (.internal "exit_rule without enter_rule") delivery
  | kind :: outer =>
    match form? with
    | none => .ok () { delivery with openRules := outer }
    | some form =>
      if form.kind = kind then
        .ok () { delivery with openRules := outer, pending := delivery.pending ++ [form] }
      else
        .error (.internal ("rule " ++ kind.describe ++ " produced a " ++ form.kind.describe))
          { delivery with openRules := outer }

/-- Hands out the pending forms, or forgets them if nobody listens. -/
def handOut (delivery : Delivery ι) : Delivery ι :=
  match delivery.listener with
  | none => { delivery with pending := [] }
  | some listener =>
    let told := delivery.pending.flatMap Notification.ofForm
    { delivery with
      pending := []
      delivered := delivery.delivered ++ told.map fun notification => (listener, notification) }

end Delivery

end OpLang

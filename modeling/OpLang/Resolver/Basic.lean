import OpLang.Delivery
import OpLang.Resolver.Names

/-! # Names in a program

A resolver hears of the forms of a program one after the other and checks the names in each. A function
may be declared many times with one number of parameters, and defined once. A definition knows itself in
its body, but one that does not resolve leaves the known functions as they were.
-/

namespace OpLang

/-- What came of checking a form. -/
structure Verdict where
  kind : FormKind
  name : String
  /-- The first error found in the form, if there is one. -/
  fault? : Option Error
  deriving DecidableEq

/-- What a resolver knows after the forms so far. -/
structure Resolver where
  scopes : ScopeStack Binder := {}
  functions : FunctionTable := {}
  /-- The names of the functions that have been defined. -/
  defined : List String := []
  verdicts : List Verdict := []

namespace Resolver

/-- Runs a check in the state so far. It may move the scopes and nothing else. -/
def check (resolver : Resolver) (action : Resolve Unit) : Except Error Unit × Resolver :=
  match action resolver.scopes with
  | .ok _ scopes => (.ok (), { resolver with scopes := scopes })
  | .error error scopes => (.error error, { resolver with scopes := scopes })

def checkExpr (resolver : Resolver) (expr : Expr) : Except Error Unit × Resolver :=
  resolver.check (Resolve.expr resolver.functions expr)

def checkPrototype (resolver : Resolver) (proto : Prototype) : Except Error Unit × Resolver :=
  resolver.check (Resolve.prototype proto)

def checkFunction (resolver : Resolver) (function : Function) : Except Error Unit × Resolver :=
  resolver.check (Resolve.function resolver.functions function)

/-- Makes a prototype known. -/
def declare (resolver : Resolver) (proto : Prototype) : Except Error Unit × Resolver :=
  match resolver.functions.declare proto with
  | .ok functions => (.ok (), { resolver with functions := functions })
  | .error error => (.error error, resolver)

/-- Makes a function known and defined, provided that its body resolves once it is known; otherwise the
declaration is taken back. -/
def define (resolver : Resolver) (function : Function) : Except Error Unit × Resolver :=
  let name := function.proto.name
  if name ∈ resolver.defined then (.error (.redefinition name), resolver)
  else
    let previous := resolver.functions.find? name
    match resolver.declare function.proto with
    | (.error error, unchanged) => (.error error, unchanged)
    | (.ok _, knowing) =>
      match knowing.checkFunction function with
      | (.ok _, checked) => (.ok (), { checked with defined := name :: checked.defined })
      | (.error error, checked) =>
        (.error error, { checked with functions := checked.functions.restore name previous })

/-- Adds a verdict. -/
def record (kind : FormKind) (name : String) (outcome : Except Error Unit × Resolver) : Resolver :=
  let fault? := match outcome.1 with
    | .ok _ => none
    | .error error => some error
  { outcome.2 with verdicts := outcome.2.verdicts ++ [⟨kind, name, fault?⟩] }

/-- Checks a complete form and takes in what it declares. -/
def receive (resolver : Resolver) : Form → Resolver
  | .definition function => record .definition function.proto.name (resolver.define function)
  | .external proto => record .external proto.name (resolver.declare proto)
  | .expression function => record .expression function.proto.name (resolver.checkFunction function)

/-- A resolver acts when a form is complete. -/
def hear (resolver : Resolver) (notification : Notification) : Resolver :=
  match notification.completed? with
  | some form => resolver.receive form
  | none => resolver

/-- Hears all that a parser tells its listener. -/
def hearAll (resolver : Resolver) (notifications : List Notification) : Resolver :=
  notifications.foldl hear resolver

end Resolver

end OpLang

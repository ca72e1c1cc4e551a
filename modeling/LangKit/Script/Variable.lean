import LangKit.Script.Operator

/-!
# Variables

How the dialects find the value of a name and how an assignment changes it. A name that is bound
gives a copy of its value, except for the kinds of value that are passed on as they are. In the
dialects with closures a name that is not bound can be that of a function; in the dialect with
objects a dotted name is looked up in an object and then along its prototypes.
-/

namespace LangKit.Script

open Run

def Scope.value? (scope : Scope) : Datum → Option Datum
  | .text name => Assoc.get? name scope
  | _ => none

def Dialect.sharedKinds : Dialect → List String
  | .scoped => []
  | .closures => ["func", "lambda"]
  | .objects => ["func", "lambda", "obj"]

/-- The value that a variable gives: the variable's own value if it is asked for by reference or is
of a shared kind, else a copy. -/
def deliver (dialect : Dialect) (byRef : Bool) (value : Datum) : Run Datum := do
  if byRef then return value
  else if dialect.hasClosures then
    if dialect.sharedKinds.contains (← kindOf value) then return value
    else copy value
  else copy value

def functions : Run (List Datum) := fun m => (.ok m.functions, m)

def findFunction (name : Datum) : List Datum → Option Datum → Run (Option Datum)
  | [], found => pure found
  | f :: rest, found => do
    if (← field f "name").same name then
      match found with
      | none => findFunction name rest (some f)
      | some _ => report .name ("Ambigous function " ++ (← textOf name))
    else findFunction name rest found

/-- Looks for a member along a chain of prototypes. The chain is followed for as many steps as there
are nodes. -/
def prototypeMember (byRef : Bool) (member : String) : Nat → Datum → Run (Option Datum)
  | _, .null => pure none
  | 0, _ => throw .outOfFuel
  | fuel + 1, object => do
    match ← field? object member with
    | some v => return some (← deliver .objects byRef v)
    | none => prototypeMember byRef member fuel (← field object "proto")

def nameParts (name : String) : List String :=
  name.splitOn "."

def isDotted (name : String) : Bool :=
  name.toList.contains '.'

/-- The value of a dotted name whose first part is bound. The name has to have a second part. -/
def memberValue (byRef : Bool) (scope : Scope) (name : Datum) : Run (Option Datum) := do
  match name with
  | .text s =>
    match nameParts s with
    | object :: member :: _ =>
      match Assoc.get? object scope with
      | none => return none
      | some o =>
        match ← field? o member with
        | some v => return some (← deliver .objects byRef v)
        | none =>
          let proto ← field o "proto"
          prototypeMember byRef member ((← store).cells.size + 1) proto
    | _ => fail Fault.listIndex
  | other => fail (.noAttribute other.typeName "split")

def variableValue (dialect : Dialect) (byRef : Bool) (scope : Scope) (node : Datum) :
    Run Datum := do
  let name := (← field? node "name").getD .null
  match scope.value? name with
  | some v => deliver dialect byRef v
  | none =>
    let found ← if dialect.hasObjects then memberValue byRef scope name else pure none
    match found with
    | some v => return v
    | none =>
      let function ← if dialect.hasClosures then findFunction name (← functions) none else pure none
      match function with
      | some f => return f
      | none => report .name ("Variable " ++ (← textOf name) ++ " has not been defined")

/-- The values of a scope that a lambda takes along: nothing for the names of its formals, the
values themselves for the shared kinds, and copies for the rest. -/
def captured (dialect : Dialect) (formals : List Datum) (scope : Scope) :
    Scope → Run (List (Datum × Datum))
  | [] => pure []
  | (name, d) :: rest => do
    let kept ←
      if formals.any (·.same (.text name)) then pure .null
      else if dialect.sharedKinds.contains (← kindOf d) then pure (Assoc.getD name scope .null)
      else pure d
    return (.text name, kept) :: (← captured dialect formals scope rest)

def formalNames : List Datum → Run (List Datum)
  | [] => pure []
  | f :: rest => do
    let name ← field f "name"
    return name :: (← formalNames rest)

def lambdaValue (dialect : Dialect) (scope : Scope) (node : Datum) : Run Datum := do
  let formals ← formalNames (← items (← field node "args"))
  let copies ← onStore fun s => s.copyFields scope
  let free ← captured dialect formals scope copies
  let result ← copy node
  setField result "free_vars" (.mapping free)
  return result

/-- Gives the node of a variable the kind and contents of a value. A function is taken over with its
whole field table. -/
def overwrite (dialect : Dialect) (target : Run Datum) (value : Datum) : Run Unit := do
  let kind ← kindOf value
  setKind (← target) kind
  if dialect.hasClosures && (← kindOf (← target)) == "func" then
    shareTable (← target) value
  else
    let new ← contents value
    setField (← target) "val" new

def bound (scope : Scope) (name : String) : Run Datum :=
  match Assoc.get? name scope with
  | some v => pure v
  | none => fail (Fault.missingField name)

def boundMember (scope : Scope) (name : String) : Run Datum :=
  match nameParts name with
  | object :: member :: _ => do field (← bound scope object) member
  | _ => fail Fault.listIndex

def isBound (dialect : Dialect) (scope : Scope) (name : String) : Bool :=
  Assoc.has name scope ||
    (dialect.hasObjects && isDotted name && Assoc.has ((nameParts name).headD "") scope)

def nameText : Datum → Run String
  | .text s => pure s
  | other => textOf other

/-- Assigns a value to a name: a bound name has its value changed, and a new name is bound to the
value itself. Dotted names are never new. -/
def Handling.assign {κ : Type} (h : Handling κ) (dialect : Dialect) (c : κ) (name : String)
    (value : Run Datum) : Run κ := do
  if isBound dialect (← h.scope c) name then
    let v ← value
    if dialect.hasClosures then print (← textOf v)
    if dialect.hasObjects && isDotted name then
      overwrite dialect (do boundMember (← h.scope c) name) v
    else overwrite dialect (do bound (← h.scope c) name) v
    return c
  else if dialect.hasObjects && isDotted name then
    report .name ("Unknown object " ++ name)
  else h.bind c name (← value)

end LangKit.Script

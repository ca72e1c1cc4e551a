import LangKit.Scanner.Check

/-!
# Tables of scanners

The rules of a state are joined to one pattern, in which every rule is a named group: the group that
was closed last tells which rule has matched. Rules that cannot be joined are divided in halves,
which are tried one after the other.
-/

namespace LangKit.Scanner

inductive Handler
  | function (f : ScanFunction)
  | value (t : Tree)
  deriving Repr

def Handler.truth : Handler → Bool
  | .function _ => true
  | .value t => t.truth

/-- What is done with a match: the token's type, and what is called. A rule without a type is passed
over. -/
structure Entry where
  handler : Option Handler
  type : Option String
  deriving Repr

/-- A pattern for several rules, with an entry for each group. -/
structure Master where
  pattern : Pattern.Compiled
  entries : Array (Option Entry)
  deriving Repr

structure FormedMaster where
  master : Master
  text : String
  names : List (Option String)

structure ScanTable where
  tokens : List String
  literals : Tree
  flags : Int
  states : List (String × String)
  masters : List (String × List Master)
  texts : List (String × List String)
  groupNames : List (String × List (List (Option String)))
  ignored : List (String × String)
  onError : List (String × Option Handler)
  onEnd : List (String × Option Handler)
  checked : Bool
  deriving Repr

def ScanTable.literalTexts (t : ScanTable) : List String :=
  (t.literals.parts?.getD []).filterMap Tree.text?

def ScanTable.knows (t : ScanTable) (type : String) : Bool :=
  t.tokens.contains type || t.literalTexts.contains type

def patternFlagsNumber : Int := 64

/-- The entry of a group with a name. A group that names no member has none; one that names a member
that is no rule cannot be used. -/
def entryFor (spec : ScannerSpec) (made : List (String × String)) (name : String) :
    Except Unit (Option Entry) :=
  let token := match Assoc.get? name made with
    | some t => Except.ok t
    | none => .error ()
  match Assoc.get? name spec.members with
  | none | some (.value .null) => .ok none
  | some (.function f) => token.map fun t => some ⟨some (.function f), some t⟩
  | some (.value _) =>
    if hasPart ignoreMark (name.drop 1).toString then .ok (some ⟨none, none⟩)
    else token.map fun t => some ⟨none, some t⟩

def setAt {α : Type} (items : List (Option α)) (n : Nat) (a : α) : List (Option α) :=
  items.set n (some a)

def groupEntries (spec : ScannerSpec) (made : List (String × String)) :
    List (String × Nat) → List (Option Entry) → List (Option String) →
    Option (List (Option Entry) × List (Option String))
  | [], entries, names => some (entries, names)
  | (name, n) :: rest, entries, names =>
    match entryFor spec made name with
    | .error () => none
    | .ok none => groupEntries spec made rest entries names
    | .ok (some e) => groupEntries spec made rest (setAt entries n e) (setAt names n name)

def formMaster? (spec : ScannerSpec) (made : List (String × String)) (rules : List String) :
    Option FormedMaster :=
  let text := "|".intercalate rules
  match Pattern.parse patternFlags text with
  | .error _ => none
  | .ok p => do
    let last ← (p.names.map (·.2)).max?
    let blank := List.replicate (last + 1) none
    let (entries, names) ← groupEntries spec made p.names blank (List.replicate (last + 1) none)
    return ⟨⟨p, entries.toArray⟩, text, names⟩

def noRules : Fault := .wrongValue "not enough values to unpack (expected 3, got 0)"

/-- The master patterns of rules. A rule that cannot be used alone is divided without end. -/
def formMasters (form : List String → Option FormedMaster) (rules : List String) :
    Except Fault (List FormedMaster) :=
  match form rules with
  | some m => .ok [m]
  | none =>
    if rules.length ≤ 1 then .error .tooDeep
    else do
      let left ← formMasters form (rules.take (rules.length / 2))
      let right ← formMasters form (rules.drop (rules.length / 2))
      return left ++ right
termination_by rules.length
decreasing_by
  all_goals simp only [List.length_take, List.length_drop]; omega

def stateMasters (spec : ScannerSpec) (made : List (String × String)) (rules : List String) :
    Except Fault (List FormedMaster) :=
  if rules.isEmpty then .error noRules else formMasters (formMaster? spec made) rules

end LangKit.Scanner

import LangKit.Grammar.Basic
import LangKit.Fault

/-!
# First and following symbols

`first` gives for each symbol the terminals that a text derived from it can start with, and the
empty mark if it derives the empty text. `follow` gives for each nonterminal the terminals that can
stand right after it. Both are filled in rounds over the rules until a round adds nothing, in the
order in which symbols are met. What has been filled in when a fault stops the work stays.
-/

namespace LangKit.Grammar

abbrev Filling := ExceptT Fault (StateM SymbolSets)

def setOf (sets : SymbolSets) (symbol : String) : Except Fault (List String) :=
  match Assoc.get? symbol sets with
  | some s => .ok s
  | none => .error (Fault.missingField symbol)

def addNew (more : List String) (set : List String) : List String :=
  more.foldl (fun acc s => if acc.contains s then acc else acc ++ [s]) set

/-- The first symbols of a sequence, given those of each symbol; `found` holds what stands
before. -/
def firstOfFrom (first : SymbolSets) : List String → List String → Except Fault (List String)
  | [], found => .ok (found ++ [emptyMark])
  | x :: rest, found => do
    let set ← setOf first x
    let found := addNew (set.filter (· != emptyMark)) found
    if set.contains emptyMark then firstOfFrom first rest found else return found

def firstOf (first : SymbolSets) (symbols : List String) : Except Fault (List String) :=
  firstOfFrom first symbols []

def known {α : Type} : Except Fault α → Filling α
  | .ok a => pure a
  | .error f => throw f

def extend (symbol : String) (more : List String) : Filling Bool := do
  let set ← known (setOf (← get) symbol)
  let set' := addNew more set
  modify (Assoc.put symbol set')
  return set'.length != set.length

def currentFirst (symbols : List String) : Filling (List String) := do
  known (firstOf (← get) symbols)

def firstOfRules (n : String) : List Production → Filling Bool
  | [] => pure false
  | p :: rest => do
    let more ← currentFirst p.body
    let changed ← extend n more
    return (← firstOfRules n rest) || changed

def firstRound (g : Grammar) : List String → Filling Bool
  | [] => pure false
  | n :: rest => do
    if !g.hasRule n then throw (Fault.missingField n)
    let changed ← firstOfRules n (g.rulesOf n)
    return (← firstRound g rest) || changed

def rounds (round : Filling Bool) : Nat → Filling Unit
  | 0 => pure ()
  | fuel + 1 => do if ← round then rounds round fuel

/-- A bound on the rounds: each but the last adds a symbol to a set. -/
def roundLimit (g : Grammar) : Nat :=
  g.nonterminals.length * (g.terminals.length + 2) + 1

def firstStart (g : Grammar) : SymbolSets :=
  Assoc.putAll []
    ((Assoc.keys g.terminals ++ [endMark]).map (fun t => (t, [t])) ++
      (Assoc.keys g.nonterminals).map fun n => (n, []))

/-- Computes the first symbols, unless that has been done. -/
def computeFirst (g : Grammar) : Except Fault Unit × Grammar :=
  if !g.first.isEmpty then (.ok (), g)
  else
    let work := rounds (firstRound g (Assoc.keys g.nonterminals)) g.roundLimit
    let (outcome, first) := work g.firstStart
    (outcome, { g with first })

/-- Adds to the set of a symbol what follows the left side of a rule, if the rule can end with the
symbol. -/
def extendAbove (symbol head : String) (ends : Bool) : Filling Bool :=
  if ends then do extend symbol (← known (setOf (← get) head)) else pure false

/-- Adds what can follow a symbol of a rule where `rest` stands behind it; `first` holds the first
symbols. -/
def followOfPlace (g : Grammar) (first : SymbolSets) (head symbol : String) (rest : List String) :
    Filling Bool :=
  if g.isNonterminal symbol then do
    let next ← known (firstOf first rest)
    let changed ← extend symbol (next.filter (· != emptyMark))
    return (← extendAbove symbol head (next.contains emptyMark || rest.isEmpty)) || changed
  else pure false

def followOfRule (g : Grammar) (first : SymbolSets) (head : String) : List String → Filling Bool
  | [] => pure false
  | b :: rest => do
    let changed ← followOfPlace g first head b rest
    return (← followOfRule g first head rest) || changed

def followRound (g : Grammar) (first : SymbolSets) : List Production → Filling Bool
  | [] => pure false
  | p :: rest => do
    let changed ← followOfRule g first p.head p.body
    return (← followRound g first rest) || changed

/-- The symbol whose follow set starts with the end mark: the given one, or else that of the first
rule. -/
def followStart (g : Grammar) (start : Option String) : Except Fault String :=
  match start with
  | some s => if s.isEmpty then firstHead else .ok s
  | none => firstHead
where
  firstHead : Except Fault String :=
    match g.rules[0]? with
    | some p => .ok p.head
    | none => .error Fault.listIndex

/-- Computes the following symbols, unless that has been done. -/
def computeFollow (g : Grammar) (start : Option String) : Except Fault Unit × Grammar :=
  if !g.follow.isEmpty then (.ok (), g)
  else
    match g.computeFirst with
    | (.error f, g) => (.error f, g)
    | (.ok (), g) =>
      let blank := (Assoc.keys g.nonterminals).map fun n => (n, [])
      match g.followStart start with
      | .error f => (.error f, { g with follow := blank })
      | .ok s =>
        let work := rounds (followRound g g.first g.rules.toList) g.roundLimit
        let (outcome, follow) := work (Assoc.put s [endMark] blank)
        (outcome, { g with follow })

end LangKit.Grammar

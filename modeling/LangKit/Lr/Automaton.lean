import LangKit.Lr.Item

/-!
# The states of a parser

A state is a set of items: a kernel, and the items for the rules of every symbol after a dot. From a
state each symbol leads to the state whose kernel is the items of the state with the dot moved over
that symbol. A kernel is closed once, and the state of a kernel is found again by the kernel.

Each closure has a number, and a rule is marked with the number of the closure that added it last.
The marks are kept with the grammar, while the numbers start again for each automaton.
-/

namespace LangKit.Lr

structure ItemSet where
  kernel : List Item
  items : List Item
  deriving DecidableEq, Repr, Inhabited

structure Automaton where
  marks : List (Nat × Nat)
  states : Array ItemSet
  deriving Inhabited

def addExpansions (stamp : Nat) : List Production → List (Nat × Nat) → List Item × List (Nat × Nat)
  | [], marks => ([], marks)
  | p :: rest, marks =>
    if Assoc.getD p.number marks 0 == stamp then addExpansions stamp rest marks
    else
      let (items, marks) := addExpansions stamp rest (Assoc.put p.number stamp marks)
      (⟨p.number, 0⟩ :: items, marks)

section

variable (g : Grammar)

/-- Closes a list of items: `todo` is what has yet to be expanded. Each round expands an item, and a
rule is added once, so the number of rules bounds the rounds. -/
def closeFrom (stamp : Nat) : Nat → List Item → List (Nat × Nat) → List Item × List (Nat × Nat)
  | 0, todo, marks => (todo, marks)
  | _, [], marks => ([], marks)
  | fuel + 1, i :: todo, marks =>
    let (more, marks) := addExpansions stamp (i.expansions g) marks
    let (rest, marks) := closeFrom stamp fuel (todo ++ more) marks
    (i :: rest, marks)

def Automaton.addState (a : Automaton) (kernel : List Item) : Automaton :=
  let (items, marks) := closeFrom g (a.states.size + 1) (kernel.length + g.size + 1) kernel a.marks
  ⟨marks, a.states.push ⟨kernel, items⟩⟩

def moved (s : ItemSet) (symbol : String) : List Item :=
  (s.items.filter fun i => i.next? g == some symbol).map Item.advance

def numberOf? (states : Array ItemSet) (kernel : List Item) : Option Nat :=
  states.findIdx? fun s => s.kernel == kernel

def goto? (states : Array ItemSet) (s : ItemSet) (symbol : String) : Option Nat :=
  let kernel := moved g s symbol
  if kernel.isEmpty then none else numberOf? states kernel

def setSymbols (s : ItemSet) : List String :=
  Assoc.keys (Assoc.putAll [] ((s.items.flatMap fun i => i.symbols g).map fun x => (x, ())))

/-- Adds the state that a symbol leads to, if it leads anywhere and the state is new. -/
def Automaton.addTarget (s : ItemSet) (a : Automaton) (symbol : String) : Automaton :=
  let kernel := moved g s symbol
  if kernel.isEmpty || (numberOf? a.states kernel).isSome then a else a.addState g kernel

def addStates : Nat → Nat → Automaton → Except Fault Automaton
  | 0, _, _ => .error (.badState "too many states")
  | fuel + 1, i, a =>
    match a.states[i]? with
    | none => .ok a
    | some s => addStates fuel (i + 1) ((setSymbols g s).foldl (Automaton.addTarget g s) a)

end

/-- The states of a grammar, unless there are more than the limit. -/
def buildStates (limit : Nat) (g : Grammar) : Except Fault Automaton :=
  addStates g limit 0 (Automaton.addState g ⟨g.marks, #[]⟩ [⟨0, 0⟩])

def stateAt (states : Array ItemSet) (i : Int) : ItemSet :=
  if 0 ≤ i then states.getD i.toNat ⟨[], []⟩
  else states.getD (states.size + i).toNat ⟨[], []⟩

end LangKit.Lr

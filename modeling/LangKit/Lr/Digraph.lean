import LangKit.Assoc

/-!
# Sets over a relation

Given a start set for each key and a relation between keys, the sets are completed so that each
holds what the sets of the related keys hold. The keys are visited depth first. Keys that reach each
other get one set in common, which is why sets are kept in cells: two keys share a set by having the
same cell. A set that is taken over from earlier work keeps its cell, so that it stays shared.
-/

namespace LangKit.Lr.Digraph

abbrev Cells (α : Type) := Array (List α)

/-- The state of the visit. A key's mark is zero before the visit, then its depth or that of the
lowest key it reaches, and `closed` afterwards. -/
structure State (κ α : Type) where
  marks : List (κ × Nat)
  stack : List κ
  place : List (κ × Nat)
  cells : Cells α

/-- The mark of a key whose set is complete. -/
def closed : Nat := (1 <<< 63) - 1

section

variable {κ α : Type} [BEq κ] [BEq α]

def State.set (s : State κ α) (x : κ) : List α :=
  match Assoc.get? x s.place with
  | some c => s.cells.getD c []
  | none => []

def State.mark? (s : State κ α) (x : κ) : Option Nat :=
  Assoc.get? x s.marks

def State.absorb (s : State κ α) (x y : κ) : State κ α :=
  match Assoc.get? x s.place with
  | none => s
  | some c =>
    let more := s.set y
    { s with cells := s.cells.modify c fun set =>
        more.foldl (fun acc a => if acc.contains a then acc else acc ++ [a]) set }

/-- Goes through the keys related to `x`: visits those that are new, then takes over their marks and
sets. A related key that is not in the list of keys stops the work. -/
def relate (visit : κ → State κ α → Except κ (State κ α)) (x : κ) :
    List κ → State κ α → Except κ (State κ α)
  | [], s => .ok s
  | y :: rest, s => do
    match s.mark? y with
    | none => .error y
    | some m =>
      let s ← if m == 0 then visit y s else .ok s
      let low := min ((s.mark? x).getD 0) ((s.mark? y).getD 0)
      let s := { s with marks := Assoc.put x low s.marks }
      relate visit x rest (s.absorb x y)

/-- Takes keys from the stack down to `x`: they are complete and have the set of `x`. -/
def unwind (x : κ) (cell : Nat) : List κ → State κ α → State κ α
  | [], s => { s with stack := [] }
  | top :: rest, s =>
    let s := { s with
      marks := Assoc.put top closed s.marks
      place := Assoc.put top cell s.place
      stack := rest }
    if top == x then s else unwind x cell rest s

def visit (related : κ → List κ) (initial : κ → Cells α → Nat × Cells α) :
    Nat → κ → State κ α → Except κ (State κ α)
  | 0, _, s => .ok s
  | fuel + 1, x, s => do
    let stack := x :: s.stack
    let depth := stack.length
    let (cell, cells) := initial x s.cells
    let s : State κ α :=
      ⟨Assoc.put x depth s.marks, stack, Assoc.put x cell s.place, cells⟩
    let s ← relate (visit related initial fuel) x (related x) s
    if s.mark? x == some depth then
      return unwind x ((Assoc.get? x s.place).getD 0) s.stack s
    else return s

def visitAll (related : κ → List κ) (initial : κ → Cells α → Nat × Cells α) (fuel : Nat) :
    List κ → State κ α → Except κ (State κ α)
  | [], s => .ok s
  | x :: rest, s => do
    let s ← if s.mark? x == some 0 then visit related initial fuel x s else .ok s
    visitAll related initial fuel rest s

/-- Completes the sets of all keys. Each visit marks a key, so the depth is at most the number of
keys. -/
def solve (keys : List κ) (related : κ → List κ) (initial : κ → Cells α → Nat × Cells α)
    (cells : Cells α) : Except κ (State κ α) :=
  visitAll related initial (keys.length + 1) keys
    ⟨Assoc.putAll [] (keys.map fun x => (x, 0)), [], [], cells⟩

def fresh (start : κ → List α) (x : κ) (cells : Cells α) : Nat × Cells α :=
  (cells.size, cells.push (start x))

def held (s : State κ α) (x : κ) (cells : Cells α) : Nat × Cells α :=
  match Assoc.get? x s.place with
  | some c => (c, cells)
  | none => (cells.size, cells.push [])

def State.entries (s : State κ α) : List (κ × List α) :=
  s.place.map fun (x, c) => (x, s.cells.getD c [])

end

end LangKit.Lr.Digraph

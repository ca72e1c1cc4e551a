import LangKit.Lr.Item
import LangKit.Tree.Display

/-!
# The slots of a rule

An action sees the symbols of its rule as slots: slot zero is the left side, the others are the
right side in order, and negative numbers reach into the stack below. A symbol is a table of
members; of these a place that is missing counts as zero, and a missing end as the start.
-/

namespace LangKit.Lr

abbrev Slot := List (String × Tree)

/-- The slots of a rule and the stack below, with its top last. -/
structure Slots where
  slots : List Slot
  below : List Slot

inductive SlotCall
  | get (n : Int)
  | range (low high : Option Int)
  | set (n : Int) (value : Tree)
  | size
  | place (member : String) (n : Int)
  | setPlace (member : String) (n : Int) (value : Tree)
  | span (start stop : String) (n : Int)
  | error
  | text (n : Int)

def Slot.value (s : Slot) : Except Fault Tree :=
  match Assoc.get? "value" s with
  | some v => .ok v
  | none => .error (.noAttribute "YaccSymbol" "value")

def slotValues : List Slot → Except Fault (List Tree)
  | [] => .ok []
  | s :: rest => do
    let v ← s.value
    let vs ← slotValues rest
    return v :: vs

/-- A bound of a range: negative ones count from the end, and all are kept within the length. -/
def rangeBound (length : Nat) (default : Nat) : Option Int → Nat
  | none => default
  | some i => if i < 0 then (length + i).toNat else min i.toNat length

def slotAt (slots : List Slot) (n : Int) : Except Fault Slot :=
  match entryAt slots n with
  | some s => .ok s
  | none => .error Fault.listIndex

def setMember (slots : List Slot) (n : Int) (member : String) (value : Tree) :
    Except Fault (List Slot) := do
  let s ← slotAt slots n
  let index := if 0 ≤ n then n.toNat else (slots.length + n).toNat
  return slots.set index (Assoc.put member value s)

def Slot.name (s : Slot) : Except Fault String :=
  match Assoc.get? "type" s with
  | some (.text t) => .ok t
  | some other =>
    .error (.wrongType ("__str__ returned non-string (type " ++ other.typeName ++ ")"))
  | none => .error (.noAttribute "YaccSymbol" "type")

def Slots.call (s : Slots) : SlotCall → Except Fault (Tree × Slots)
  | .get n => do
    let slot ← slotAt (if 0 ≤ n then s.slots else s.below) n
    return (← slot.value, s)
  | .range i j => do
    let start := rangeBound s.slots.length 0 i
    let stop := rangeBound s.slots.length s.slots.length j
    return (.list (← slotValues ((s.slots.take stop).drop start)), s)
  | .set n value => do return (.null, { s with slots := ← setMember s.slots n "value" value })
  | .size => .ok (.int s.slots.length, s)
  | .place member n => do
    let slot ← slotAt s.slots n
    return (Assoc.getD member slot (.int 0), s)
  | .setPlace member n value => do
    return (.null, { s with slots := ← setMember s.slots n member value })
  | .span start stop n => do
    let slot ← slotAt s.slots n
    let first := Assoc.getD start slot (.int 0)
    return (.tuple [first, Assoc.getD stop slot first], s)
  | .error => .error (.syntaxError none)
  | .text n => do
    let name ← (← slotAt s.slots n).name
    return (.text (name ++ name), s)

end LangKit.Lr

import LangKit.Grammar.Basic
import LangKit.Fault

/-!
# Items

An item is a production with a dot between two symbols of its right side, or at one of its ends. The
symbols before the dot have been read.
-/

namespace LangKit.Lr

structure Item where
  rule : Nat
  dot : Nat
  deriving DecidableEq, Repr, Inhabited

def dotMark : String := "."

/-- The right side of a production with the dot as a symbol of its own. -/
def dotted (body : List String) (dot : Nat) : List String :=
  body.take dot ++ dotMark :: body.drop dot

def dottedText (head : String) (symbols : List String) : String :=
  head ++ " -> " ++ " ".intercalate symbols

section

variable (g : Grammar)

def Item.head (i : Item) : String :=
  ((g.rule? i.rule).map (·.head)).getD ""

def Item.body (i : Item) : List String :=
  ((g.rule? i.rule).map (·.body)).getD []

def Item.dotted (i : Item) : List String :=
  Lr.dotted (i.body g) i.dot

def Item.text (i : Item) : String :=
  dottedText (i.head g) (i.dotted g)

def Item.next? (i : Item) : Option String :=
  (i.body g)[i.dot]?

def Item.expansions (i : Item) : List Production :=
  match i.next? g with
  | some s => g.rulesOf s
  | none => []

def Item.symbols (i : Item) : List String :=
  ((g.rule? i.rule).map (·.symbols)).getD []

end

def Item.advance (i : Item) : Item :=
  { i with dot := i.dot + 1 }

def entryAt {α : Type} (xs : List α) (i : Int) : Option α :=
  if 0 ≤ i then xs[i.toNat]?
  else if -i ≤ xs.length then xs[(xs.length + i).toNat]?
  else none

/-- The rule at an index, negative ones from the end. There is no rule at zero before a start symbol
is set. -/
def ruleAt (g : Grammar) (index : Int) : Except Fault Production :=
  match entryAt (g.startRule :: g.rules.toList.map some) index with
  | some (some p) => .ok p
  | some none => .error (.wrongType "object of type 'NoneType' has no len()")
  | none => .error Fault.listIndex

/-- The symbol of a rule's right side at an index, negative ones from the end. -/
def symbolAt (p : Production) (index : Int) : Except Fault String :=
  match entryAt p.body index with
  | some s => .ok s
  | none => .error Fault.tupleIndex

/-- An item as it is shown: its text, the rules for the symbol after the dot, and the symbol before
the dot. At the left end the symbol before the dot is the last one. -/
structure ItemView where
  text : String
  after : List String
  before : String
  deriving Repr

def ItemView.shown (v : ItemView) : String :=
  shownAs "LRItem" v.text

def itemView? (g : Grammar) (p : Production) (position : Int) : Option ItemView :=
  if (p.body.length : Int) < position then none
  else
    let dot := if 0 ≤ position then position.toNat else (p.body.length + position).toNat
    let symbols := Lr.dotted p.body dot
    let after := match entryAt symbols (position + 1) with
      | some s => (g.rulesOf s).map (·.text)
      | none => []
    some ⟨dottedText p.head symbols, after, (entryAt symbols (position - 1)).getD ""⟩

def itemViews (g : Grammar) (p : Production) : List ItemView :=
  (List.range (p.body.length + 1)).filterMap fun i : Nat => itemView? g p i

/-- The items of all productions; there are none without a start symbol. -/
def allItemViews (g : Grammar) : Except Fault (List (List ItemView)) :=
  match g.startRule with
  | none => .error (.wrongType "object of type 'NoneType' has no len()")
  | some p => .ok ((p :: g.rules.toList).map (itemViews g))

end LangKit.Lr

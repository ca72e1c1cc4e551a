import LangKit.Lr.Automaton
import LangKit.Lr.Digraph

/-!
# Lookaheads

For a completed item in a state, the lookaheads are the terminals on which the parser reduces. They
come from the transitions over nonterminals: a transition reads the terminals that can come next,
and it includes what a transition at whose end it stands can be followed by. The completed items of
a nonterminal look back to the transitions over it.
-/

namespace LangKit.Lr

/-- A transition over a nonterminal. The state is negative if the transition leads from nowhere. -/
structure Transition where
  state : Int
  symbol : String
  deriving DecidableEq, Repr

def Transition.text (t : Transition) : String :=
  "(" ++ toString t.state ++ ", " ++ Text.quoted t.symbol ++ ")"

/-- The nonterminals that derive the empty text: one round over rules. -/
def nullableRound (rules : List Production) (known : List String) : List String :=
  rules.foldl (fun known p =>
    if p.body.all known.contains && !known.contains p.head then p.head :: known else known) known

def nullableRounds (rules : List Production) : Nat → List String → List String
  | 0, known => known
  | fuel + 1, known =>
    let known' := nullableRound rules known
    if known'.length == known.length then known else nullableRounds rules fuel known'

def nullable (g : Grammar) : List String :=
  nullableRounds g.rules.toList (g.rules.size + 1) []

def transitionsOf (g : Grammar) (state : Nat) (s : ItemSet) : List Transition :=
  s.items.filterMap fun i =>
    match i.next? g with
    | some x => if g.isNonterminal x then some ⟨state, x⟩ else none
    | none => none

def allNullable (g : Grammar) (nullable : List String) (symbols : List String) : Bool :=
  symbols.all fun s => !g.isTerminal s && nullable.contains s

/-- Does an item stand at the end of what another one started? Both are compared with their dots: as
many symbols as there are before the dot of `r` have to be those of `p` from its second place on. -/
def endsIn (g : Grammar) (p r : Item) : Bool :=
  r.head g == p.head g && (r.body g).length == (p.body g).length &&
    (r.dotted g).take r.dot == ((p.dotted g).drop 1).take r.dot

section

variable (g : Grammar) (states : Array ItemSet)

def transitions : List Transition :=
  let all := states.toList.zipIdx.flatMap fun (s, n) => transitionsOf g n s
  all.foldl (fun acc t => if acc.contains t then acc else acc ++ [t]) []

/-- The state that a transition leads to, negative if it leads nowhere. -/
def Transition.target (t : Transition) : Int :=
  match goto? g states (stateAt states t.state) t.symbol with
  | some n => n
  | none => -1

def targetItems (t : Transition) : List Item :=
  let next := t.target g states
  if next < 0 then [] else (stateAt states next).items

def directReads (t : Transition) : List String :=
  let terms := (targetItems g states t).foldl (fun acc i =>
    match i.next? g with
    | some x => if g.isTerminal x && !acc.contains x then acc ++ [x] else acc
    | none => acc) []
  let atStart := t.state == 0 && (g.startRule.bind (·.body.head?)) == some t.symbol
  if atStart then terms ++ [endMark] else terms

/-- The transitions over the empty text right after a transition. -/
def readsRelation (nullable : List String) (t : Transition) : List Transition :=
  (targetItems g states t).filterMap fun i =>
    match i.next? g with
    | some x => if nullable.contains x then some ⟨t.target g states, x⟩ else none
    | none => none

/-- Reads on from a state over the rest of a right side. The answer has the transitions at which the
rest of the rest can be empty, and the state that is reached. -/
def walk (all : List Transition) (nullable : List String) :
    Int → List String → List Transition × Int
  | state, [] => ([], state)
  | state, x :: rest =>
    let t : Transition := ⟨state, x⟩
    let here := if all.contains t && allNullable g nullable rest then [t] else []
    let (more, last) := walk all nullable (t.target g states) rest
    (here ++ more, last)

/-- For the items of a state with a given left side: the completed items they lead to, with their
states, and the transitions that include this one. -/
def lookbackOf (all : List Transition) (nullable : List String) (t : Transition) :
    List Item → List (Int × Item) × List Transition
  | [] => ([], [])
  | p :: rest =>
    let (looks, more) := lookbackOf all nullable t rest
    if p.head g != t.symbol then (looks, more)
    else
      let (includes, last) := walk g states all nullable t.state ((p.body g).drop p.dot)
      let ends := (stateAt states last).items.filter (endsIn g p)
      (ends.map (fun r => (last, r)) ++ looks, includes ++ more)

end

structure Relations where
  lookback : List (Transition × List (Int × Item))
  includes : List (Transition × List Transition)

def addIncludes (t : Transition) (included : List Transition)
    (includes : List (Transition × List Transition)) : List (Transition × List Transition) :=
  included.foldl (fun acc i => Assoc.put i (Assoc.getD i acc [] ++ [t]) acc) includes

def relations (g : Grammar) (states : Array ItemSet) (all : List Transition)
    (nullable : List String) : Relations :=
  all.foldl (fun r t =>
    let (looks, includes) := lookbackOf g states all nullable t (stateAt states t.state).items
    ⟨Assoc.put t looks r.lookback, addIncludes t includes r.includes⟩) ⟨[], []⟩

abbrev Lookaheads := List ((Item × Int) × List String)

def addLookaheads (key : Item × Int) (terms : List String) (l : Lookaheads) : Lookaheads :=
  let set := terms.foldl (fun acc a => if acc.contains a then acc else acc ++ [a])
    (Assoc.getD key l [])
  Assoc.put key set l

def solved {β : Type} : Except Transition β → Except Fault β
  | .ok b => .ok b
  | .error t => .error (.missingKey t.text)

def lookaheads (g : Grammar) (states : Array ItemSet) : Except Fault Lookaheads := do
  let empty := nullable g
  let all := transitions g states
  let readSets ← solved (Digraph.solve all (readsRelation g states empty)
    (Digraph.fresh (directReads g states)) #[])
  let r := relations g states all empty
  let followSets ← solved (Digraph.solve all (fun t => Assoc.getD t r.includes [])
    (Digraph.held readSets) readSets.cells)
  return r.lookback.foldl (fun l (t, looks) =>
    looks.foldl (fun l (state, item) => addLookaheads (item, state) (followSets.set t) l) l) []

end LangKit.Lr

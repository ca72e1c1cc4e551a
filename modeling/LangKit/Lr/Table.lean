import LangKit.Lr.Lookahead
import LangKit.Lr.Machine
import LangKit.Text.Blank
import LangKit.Grammar.First

/-!
# Parsing tables

A table has a row for each state: what to do on a terminal and where to go after a reduction. Where
a state could both shift and reduce, the precedences of the terminal and of the rule decide; where
it could reduce by two rules, the rule that was written first wins. Conflicts that no precedence
decides are reported. The log shows every state with its items and its moves.
-/

namespace LangKit.Lr

inductive Method
  | slr
  | lalr
  deriving DecidableEq, Repr, Inhabited

namespace Method

def label : Method → String
  | slr => "SLR"
  | lalr => "LALR"

def ofLabel (s : String) : Except Fault Method :=
  if s == "SLR" then .ok slr
  else if s == "LALR" then .ok lalr
  else .error (.tableError ("Unsupported method " ++ s))

end Method

inductive Resolution
  | shift
  | reduce
  | neither
  deriving DecidableEq, Repr

/-- The tighter one wins; at the same level the associativity of the rule decides. -/
def resolve (token rule : Precedence) : Resolution :=
  if token.level < rule.level || (token.level == rule.level && rule.assoc == .left) then .reduce
  else if token.level == rule.level && rule.assoc == .nonassoc then .neither
  else .shift

/-- The entries of a state for terminals. An entry without a move is an error on purpose. -/
abbrev ActionRow := List (String × Option Action)

abbrev GotoRow := List (String × Nat)

/-- A choice between a shift and a reduction that no precedence decides. -/
structure ShiftReduce where
  state : Nat
  token : String
  resolution : String
  deriving Repr

structure ReduceReduce where
  state : Nat
  chosen : Production
  rejected : Production
  deriving Repr

structure Table where
  method : Method
  actions : Array ActionRow
  gotos : Array GotoRow
  shiftReduce : List ShiftReduce
  reduceReduce : List ReduceReduce
  log : String
  deriving Inhabited, Repr

/-- A row under construction: its entries, the items they come from, and all moves that were
considered, each with its text. -/
structure Row where
  actions : ActionRow
  owners : List (String × Item)
  considered : List (String × Item × String)

structure Notes where
  shiftReduce : List ShiftReduce
  reduceReduce : List ReduceReduce
  log : String
  counted : List (Nat × Int)

abbrev Tabling := ExceptT Fault (StateM Notes)

def noteLine (line : String) : Tabling Unit :=
  modify fun n => { n with log := n.log ++ line ++ "\n" }

def countReduced (rule : Nat) (change : Int) : Tabling Unit :=
  modify fun n => { n with counted := n.counted ++ [(rule, change)] }

def noteShiftReduce (state : Nat) (token resolution : String) : Tabling Unit := do
  noteLine ("  ! shift/reduce conflict for " ++ token ++ " resolved as " ++ resolution)
  modify fun n => { n with shiftReduce := n.shiftReduce ++ [⟨state, token, resolution⟩] }

def ruleOf (g : Grammar) (number : Nat) : Production :=
  (g.rule? number).getD default

def Row.set (r : Row) (token : String) (action : Action) (owner : Item) : Row :=
  { r with
    actions := Assoc.put token (some action) r.actions
    owners := Assoc.put token owner r.owners }

def Row.forbid (r : Row) (token : String) : Row :=
  { r with actions := Assoc.put token none r.actions }

def Row.action? (r : Row) (token : String) : Option Action :=
  (Assoc.get? token r.actions).join

def Row.consider (r : Row) (token : String) (item : Item) (text : String) : Row :=
  { r with considered := r.considered ++ [(token, item, text)] }

section

variable (g : Grammar)

/-- The row with a reduction on a terminal. A shift gives way to it by precedence, and another
reduction if its rule was written later. -/
def Row.reduce (item : Item) (r : Row) (token : String) : Row :=
  match r.action? token with
  | none => r.set token (.reduce item.rule) item
  | some (.shift _) =>
    match resolve (g.precedenceOf token) (ruleOf g item.rule).precedence with
    | .reduce => r.set token (.reduce item.rule) item
    | .neither => r.forbid token
    | .shift => r
  | some (.reduce old) =>
    if (ruleOf g item.rule).line < (ruleOf g old).line then
      r.set token (.reduce item.rule) item
    else r
  | some .accept => r

/-- The row with a shift on a terminal. A reduction gives way to it by precedence. -/
def Row.shift (target : Nat) (item : Item) (r : Row) (token : String) : Row :=
  match r.action? token with
  | some (.reduce _) =>
    match resolve (g.precedenceOf token)
        (ruleOf g (Assoc.getD token r.owners item).rule).precedence with
    | .shift => r.set token (.shift target) item
    | .neither => r.forbid token
    | .reduce => r
  | some _ => r
  | none => r.set token (.shift target) item

variable (state : Nat)

def noteReduce (item : Item) (row : Row) (token : String) : Tabling Unit :=
  match row.action? token with
  | none => countReduced item.rule 1
  | some (.shift _) =>
    let tokenPrec := g.precedenceOf token
    let rulePrec := (ruleOf g item.rule).precedence
    match resolve tokenPrec rulePrec with
    | .reduce => do
      if tokenPrec.level == 0 && rulePrec.level == 0 then noteShiftReduce state token "reduce"
      countReduced item.rule 1
    | .neither => pure ()
    | .shift => if rulePrec.level == 0 then noteShiftReduce state token "shift" else pure ()
  | some (.reduce old) => do
    let oldRule := ruleOf g old
    let newRule := ruleOf g item.rule
    let replace := newRule.line < oldRule.line
    if replace then
      countReduced item.rule 1
      countReduced old (-1)
    let (chosen, rejected) := if replace then (newRule, oldRule) else (oldRule, newRule)
    modify fun n => { n with reduceReduce := n.reduceReduce ++ [⟨state, chosen, rejected⟩] }
    let owner := if replace then item else Assoc.getD token row.owners item
    noteLine ("  ! reduce/reduce conflict for " ++ token ++ " resolved using rule " ++
      toString owner.rule ++ " (" ++ owner.text g ++ ")")
  | some .accept => throw (.tableError ("Unknown conflict in state " ++ toString state))

def addReduce (item : Item) (row : Row) (token : String) : Tabling Row := do
  noteReduce g state item row token
  return (row.consider token item
    ("reduce using rule " ++ toString item.rule ++ " (" ++ item.text g ++ ")")).reduce g item token

def addReduces (item : Item) : List String → Row → Tabling Row
  | [], row => pure row
  | token :: rest, row => do
    let row ← addReduce g state item row token
    addReduces item rest row

def noteShift (target : Nat) (item : Item) (row : Row) (token : String) : Tabling Unit :=
  match row.action? token with
  | none => pure ()
  | some (.shift old) =>
    if old != target then
      throw (.tableError ("Shift/shift conflict in state " ++ toString state))
    else pure ()
  | some (.reduce _) =>
    let owner := Assoc.getD token row.owners item
    let tokenPrec := g.precedenceOf token
    let rulePrec := (ruleOf g owner.rule).precedence
    match resolve tokenPrec rulePrec with
    | .shift => do
      countReduced owner.rule (-1)
      if rulePrec.level == 0 then noteShiftReduce state token "shift"
    | .neither => pure ()
    | .reduce =>
      if tokenPrec.level == 0 && rulePrec.level == 0 then
        noteShiftReduce state token "reduce"
      else pure ()
  | some .accept => throw (.tableError ("Unknown conflict in state " ++ toString state))

def addShift (target : Nat) (item : Item) (row : Row) (token : String) : Tabling Row := do
  noteShift g state target item row token
  return (row.consider token item ("shift and go to state " ++ toString target)).shift g
    target item token

def reduceOn (method : Method) (l : Lookaheads) (item : Item) : Except Fault (List String) :=
  match method with
  | .lalr =>
    match Assoc.get? (item, (state : Int)) l with
    | some set => .ok set
    | none => .error (.missingKey (toString state))
  | .slr =>
    match Assoc.get? (item.head g) g.follow with
    | some set => .ok set
    | none => .error (Fault.missingField (item.head g))

def addItem (method : Method) (l : Lookaheads) (states : Array ItemSet)
    (s : ItemSet) (item : Item) (row : Row) :
    Tabling Row :=
  match item.next? g with
  | none =>
    if item.head g == startHead then pure (row.set endMark .accept item)
    else
      match reduceOn g state method l item with
      | .ok tokens => addReduces g state item tokens row
      | .error f => throw f
  | some token =>
    if g.isTerminal token then
      match goto? g states s token with
      | some next => addShift g state next item row token
      | none => pure row
    else pure row

def addItems (method : Method) (l : Lookaheads) (states : Array ItemSet) (s : ItemSet) :
    List Item → Row → Tabling Row
  | [], row => pure row
  | item :: rest, row => do
    let row ← addItem g state method l states s item row
    addItems method l states s rest row

end

/-- Logs the moves that a row makes. The answer has the texts that were logged. -/
def noteMade (row : Row) : List (String × Item × String) → List (String × String) →
    Tabling (List (String × String))
  | [], shown => pure shown
  | (token, item, text) :: rest, shown => do
    if Assoc.get? token row.owners == some item then
      noteLine ("    " ++ Text.padRight 15 token ++ " " ++ text)
      noteMade row rest ((token, text) :: shown)
    else noteMade row rest shown

def noteUnused (row : Row) : List (String × Item × String) → List (String × String) → Bool →
    Tabling Bool
  | [], _, any => pure any
  | (token, item, text) :: rest, shown, any => do
    if Assoc.get? token row.owners != some item && !shown.contains (token, text) then
      noteLine ("  ! " ++ Text.padRight 15 token ++ " [ " ++ text ++ " ]")
      noteUnused row rest ((token, text) :: shown) true
    else noteUnused row rest shown any

def setNonterminals (g : Grammar) (s : ItemSet) : List String :=
  (setSymbols g s).filter g.isNonterminal

def gotoRow (g : Grammar) (states : Array ItemSet) (s : ItemSet) : GotoRow :=
  (setNonterminals g s).filterMap fun n => (goto? g states s n).map fun next => (n, next)

def noteLines : List String → Tabling Unit
  | [] => pure ()
  | line :: rest => do
    noteLine line
    noteLines rest

def addRow (g : Grammar) (method : Method) (l : Lookaheads) (states : Array ItemSet)
    (state : Nat) (s : ItemSet) :
    Tabling (ActionRow × GotoRow) := do
  noteLines (["", "state " ++ toString state, ""] ++
    s.items.map (fun i => "    (" ++ toString i.rule ++ ") " ++ i.text g) ++ [""])
  let row ← addItems g state method l states s s.items ⟨[], [], []⟩
  let shown ← noteMade row row.considered []
  noteLine ""
  if ← noteUnused row row.considered shown false then noteLine ""
  let gotos := gotoRow g states s
  noteLines (gotos.map fun (n, next) => "    " ++ Text.padRight 30 n ++ " shift and go to state " ++
    toString next)
  return (row.actions, gotos)

def addRows (g : Grammar) (method : Method) (l : Lookaheads) (states : Array ItemSet) :
    Nat → List ItemSet → Tabling (List (ActionRow × GotoRow))
  | _, [] => pure []
  | state, s :: rest => do
    let row ← addRow g method l states state s
    return row :: (← addRows g method l states (state + 1) rest)

def lookaheadsBy (method : Method) (g : Grammar) (states : Array ItemSet) :
    Except Fault Lookaheads :=
  match method with
  | .lalr => lookaheads g states
  | .slr => .ok []

/-- The table of a grammar whose first and following symbols are known. The grammar keeps the marks
of its closures and the counts of its reductions, also if there is no table. -/
def buildRows (limit : Nat) (g : Grammar) (method : Method) : Except Fault Table × Grammar :=
  match buildStates limit g with
  | .error f => (.error f, g)
  | .ok a =>
    match lookaheadsBy method g a.states with
    | .error f => (.error f, { g with marks := a.marks })
    | .ok l =>
      let (rows, notes) := addRows g method l a.states 0 a.states.toList
        ⟨[], [], "Parsing method: " ++ method.label ++ "\n", []⟩
      let reduced := notes.counted.foldl
        (fun counts (rule, change) => Assoc.put rule (Assoc.getD rule counts 0 + change) counts)
          g.reduced
      (rows.map fun rows => ⟨method, (rows.map (·.1)).toArray, (rows.map (·.2)).toArray,
        notes.shiftReduce, notes.reduceReduce, notes.log⟩, { g with marks := a.marks, reduced })

def buildTable (limit : Nat) (g : Grammar) (method : Method) : Except Fault Table × Grammar :=
  if g.startRule.isNone then (.error (.wrongType "object of type 'NoneType' has no len()"), g)
  else
    match g.computeFirst with
    | (.error f, g) => (.error f, g)
    | (.ok (), g) =>
      match g.computeFollow none with
      | (.error f, g) => (.error f, g)
      | (.ok (), g) => buildRows limit g method

def buildTableNamed (limit : Nat) (g : Grammar) (method : String) : Except Fault Table × Grammar :=
  match Method.ofLabel method with
  | .error f => (.error f, g)
  | .ok m => buildTable limit g m

end LangKit.Lr

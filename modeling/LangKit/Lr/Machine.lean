import LangKit.Fault

/-!
# The LR machine

One pass over a token source with an action table and a goto table. A configuration holds the two
stacks, the token in hand, the tokens put back, and the state of error recovery; `step` makes one
move. Position tracking and the log are switches of the machine: they watch the moves and do not
choose them.

Recovery is by panic mode. At an error the machine calls the error handler (unless it is still
recovering from the last error), then puts an error symbol before the token that failed and pops the
stack until the error symbol can be shifted. When the stack is empty the token is dropped.
-/

namespace LangKit.Lr

inductive Action
  | shift (state : Nat)
  | reduce (rule : Nat)
  | accept
  deriving DecidableEq, Repr, Inhabited

structure RuleInfo (σ : Type) where
  sort : σ
  length : Nat
  text : String
  deriving Repr

/-- The tables of a parser. `sole s` is the reduction that state `s` makes without looking at the
next token, if it has no other move. -/
structure Tables (σ : Type) where
  action : Nat → σ → Option Action
  sole : Nat → Option Nat
  goto : Nat → σ → Option Nat
  rule : Nat → Option (RuleInfo σ)

inductive Origin
  | token
  | bareToken
  | machine
  deriving DecidableEq, Repr

def Origin.typeName : Origin → String
  | .token => "LexToken"
  | .bareToken => "BareToken"
  | .machine => "YaccSymbol"

/-- A symbol on the stack or in hand. What is not known of it is `none`. -/
structure Entry (σ ν : Type) where
  sort : σ
  origin : Origin
  value : Option ν
  line : Option Int
  pos : Option Int
  endLine : Option Int
  endPos : Option Int
  deriving Repr

def Entry.bare {σ ν : Type} (sort : σ) (value : Option ν) : Entry σ ν :=
  ⟨sort, .machine, value, none, none, none, none⟩

/-- How a rule's action fails: it declares a syntax error, or it stops the parse. -/
inductive ActionError
  | syntaxError
  | fault (f : Fault)

structure ErrorReply (σ ν : Type) where
  recovered : Bool
  restart : Bool
  next : Option (Entry σ ν)

/-- What the machine is told by its user: the token source and error handler, which act on a state
of their own, the meaning of the rules, and the texts for the log. -/
structure Setup (σ ν ω : Type) where
  tables : Tables σ
  endSort : σ
  errorSort : σ
  pull : ω → Except Fault (Option (Entry σ ν)) × ω
  place : ω → Int × Int
  act : Nat → List (Entry σ ν) → List (Entry σ ν) → Except ActionError ν
  onError : Option (ω → Option (Entry σ ν) → Except Fault (ErrorReply σ ν) × ω)
  asValue : Entry σ ν → ν
  declaredError : ν
  nameOf : σ → String
  showEntry : Entry σ ν → String
  showValue : Option ν → String
  showResult : Option ν → String
  tracking : Bool
  logging : Bool

/-- The state of a parse. Stacks have their top first. `state` is the state that decides the next
move; it is the top of `states` unless an error handler has emptied the stacks. -/
structure Config (σ ν ω : Type) where
  state : Nat
  states : List Nat
  stack : List (Entry σ ν)
  look : Option (Entry σ ν)
  putBack : List (Option (Entry σ ν))
  recovering : Nat
  errorOk : Bool
  world : ω
  log : String

inductive Step (σ ν ω : Type)
  | next (c : Config σ ν ω)
  | done (result : Option ν) (c : Config σ ν ω)
  | fault (f : Fault) (c : Config σ ν ω)

def recoveryLength : Nat := 3

section

variable {σ ν ω : Type}

def Config.start (setup : Setup σ ν ω) (errorOk : Bool) (world : ω) (log : String) :
    Config σ ν ω where
  state := 0
  states := [0]
  stack := [.bare setup.endSort none]
  look := none
  putBack := []
  recovering := 0
  errorOk := errorOk
  world := world
  log := log

/-- Adds a line to the log, if there is one. The line is only made when it is needed. -/
def Config.note (setup : Setup σ ν ω) (line : Unit → String) (c : Config σ ν ω) : Config σ ν ω :=
  if setup.logging then { c with log := c.log ++ line () ++ "\n" } else c

def Config.picture (setup : Setup σ ν ω) (c : Config σ ν ω) : String :=
  let names := (c.stack.reverse.drop 1).map fun e => setup.nameOf e.sort
  let hand := match c.look with
    | some e => setup.showEntry e
    | none => "None"
  if names.isEmpty then ". " ++ hand else " ".intercalate names ++ " . " ++ hand

/-- Takes the next token in hand if there is none: one that was put back, else one from the source,
else the end mark. -/
def Config.fill (setup : Setup σ ν ω) (c : Config σ ν ω) :
    Except Fault (Config σ ν ω) × Config σ ν ω :=
  match c.look with
  | some _ => (.ok c, c)
  | none =>
    let finish := fun (got : Option (Entry σ ν)) (c : Config σ ν ω) =>
      { c with look := some (got.getD (.bare setup.endSort none)) }
    match c.putBack with
    | got :: rest => let c' := finish got { c with putBack := rest }; (.ok c', c')
    | [] =>
      match setup.pull c.world with
      | (.error f, w) => (.error f, { c with world := w })
      | (.ok got, w) => let c' := finish got { c with world := w }; (.ok c', c')

/-- The values of the entries of a rule's right side, for the log. -/
def valueList (setup : Setup σ ν ω) (entries : List (Entry σ ν)) : Except Fault String :=
  match entries.find? fun e => e.value.isNone with
  | some e => .error (.noAttribute e.origin.typeName "value")
  | none => .ok ("[" ++ ",".intercalate (entries.map fun e => setup.showValue e.value) ++ "]")

/-- The log lines before a reduction. They look up the goto entry, so they can fail. -/
def Config.noteReduce (setup : Setup σ ν ω) (rule : RuleInfo σ) (c : Config σ ν ω) :
    Except Fault (Config σ ν ω) :=
  if setup.logging then do
    let values ← valueList setup ((c.stack.take rule.length).reverse)
    let below ← match c.states.drop rule.length with
      | s :: _ => .ok s
      | [] => .error Fault.listIndex
    let target ← match setup.tables.goto below rule.sort with
      | some t => .ok t
      | none => .error (Fault.missingField (setup.nameOf rule.sort))
    return c.note setup fun _ => "Action : Reduce rule [" ++ rule.text ++ "] with " ++ values ++
      " and goto state " ++ toString target
  else .ok c

def Entry.need {α : Type} (e : Entry σ ν) (member : String) (value : Option α) : Except Fault α :=
  match value with
  | some a => .ok a
  | none => .error (.noAttribute e.origin.typeName member)

/-- Gives the entry of a rule the places of its right side, when tracking. An empty right side has
the place that the source has reached. -/
def spanOf (setup : Setup σ ν ω) (world : ω) (length : Nat) (right : List (Entry σ ν))
    (e : Entry σ ν) : Except Fault (Entry σ ν) :=
  if !setup.tracking then .ok e
  else if length == 0 then
    let (line, pos) := setup.place world
    .ok { e with line := some line, pos := some pos }
  else
    match right.head?, right.getLast? with
    | some first, some last => do
      let line ← first.need "lineno" first.line
      let pos ← first.need "lexpos" first.pos
      let lastLine ← last.need "lineno" last.line
      let lastPos ← last.need "lexpos" last.pos
      return { e with
        line := some line
        pos := some pos
        endLine := some (last.endLine.getD lastLine)
        endPos := some (last.endPos.getD lastPos) }
    | _, _ => .error Fault.listIndex

def Config.goTo (setup : Setup σ ν ω) (rule : RuleInfo σ) (e : Entry σ ν) (c : Config σ ν ω) :
    Step σ ν ω :=
  let c := { c with stack := e :: c.stack }
  match c.states with
  | [] => .fault Fault.listIndex c
  | below :: _ =>
    match setup.tables.goto below rule.sort with
    | none => .fault (Fault.missingField (setup.nameOf rule.sort)) c
    | some target => .next { c with state := target, states := target :: c.states }

/-- Enters recovery because a rule's action declared a syntax error: the token in hand is put back,
the right side but for its last entry returns to the stack, and an error symbol is in hand. -/
def Config.declareError (setup : Setup σ ν ω) (right : List (Entry σ ν)) (e : Entry σ ν)
    (c : Config σ ν ω) : Step σ ν ω :=
  let c := { c with
    putBack := c.look :: c.putBack
    stack := right.dropLast.reverse ++ c.stack }
  match c.states with
  | [] => .fault Fault.emptyPop c
  | [_] => .fault Fault.listIndex { c with states := [] }
  | _ :: s :: rest =>
    .next { c with
      states := s :: rest
      state := s
      look := some { e with sort := setup.errorSort, value := some setup.declaredError }
      recovering := recoveryLength
      errorOk := false }

def Config.reduce (setup : Setup σ ν ω) (number : Nat) (rule : RuleInfo σ) (c : Config σ ν ω) :
    Step σ ν ω :=
  match c.noteReduce setup rule with
  | .error f => .fault f c
  | .ok c =>
    -- The entry below the right side gives its slot to the new entry, so a short stack loses one.
    let window := (c.stack.take (rule.length + 1)).reverse
    if rule.length != 0 && window.isEmpty then
      .fault (.outOfRange "list assignment index out of range") c
    else
      let right := if rule.length == 0 then [] else window.drop 1
      match spanOf setup c.world rule.length right (.bare rule.sort none) with
      | .error f => .fault f c
      | .ok e =>
        let popped := { c with stack := c.stack.drop rule.length }
        match setup.act number right popped.stack with
        | .error (.fault f) => .fault f popped
        | .error .syntaxError => popped.declareError setup right e
        | .ok value =>
          let popped := { popped with states := popped.states.drop rule.length }
          let popped := popped.note setup fun _ => "Result : " ++ setup.showResult (some value)
          popped.goTo setup rule { e with value := some value }

/-- Calls the error handler, or reports the error in the log if there is none. The answer says
whether the parse is over, whether the handler has recovered, or whether recovery goes on. -/
inductive ErrorCall (σ ν ω : Type)
  | stop (c : Config σ ν ω)
  | recovered (c : Config σ ν ω)
  | goOn (c : Config σ ν ω)
  | fault (f : Fault) (c : Config σ ν ω)

def Config.callHandler (setup : Setup σ ν ω) [BEq σ] (look : Entry σ ν) (c : Config σ ν ω) :
    ErrorCall σ ν ω :=
  let c := { c with recovering := recoveryLength, errorOk := false }
  let token := if look.sort == setup.endSort then none else some look
  match setup.onError with
  | some handler =>
    match handler c.world token with
    | (.error f, w) => .fault f { c with world := w }
    | (.ok reply, w) =>
      let c := { c with world := w, errorOk := reply.recovered }
      let c := if reply.restart then
        { c with states := [0], stack := [.bare setup.endSort none] } else c
      if reply.recovered then .recovered { c with look := reply.next } else .goOn c
  | none =>
    match token with
    | none => .stop { c with log := c.log ++ "yacc: Parse error in input. EOF\n" }
    | some e =>
      let line := e.line.getD 0
      let text := if line == 0 then "yacc: Syntax error, token=" ++ setup.nameOf e.sort
        else "yacc: Syntax error at line " ++ toString line ++ ", token=" ++ setup.nameOf
          e.sort ++ "\n"
      .goOn { c with log := c.log ++ text }

def errorEntry (setup : Setup σ ν ω) (look : Entry σ ν) : Entry σ ν where
  sort := setup.errorSort
  origin := .machine
  value := some (setup.asValue look)
  line := look.line
  pos := look.pos
  endLine := look.line
  endPos := look.pos

/-- Recovers from an error with the given token in hand. -/
def Config.recover (setup : Setup σ ν ω) [BEq σ] (look : Entry σ ν) (c : Config σ ν ω) :
    Step σ ν ω :=
  if c.states.length ≤ 1 && look.sort != setup.endSort then
    -- Everything is popped: the token is dropped, and so is all that was put back.
    .next { c with look := none, state := 0, putBack := [] }
  else if look.sort == setup.endSort then .done none c
  else if look.sort != setup.errorSort then
    match c.stack with
    | [] => .fault Fault.listIndex c
    | top :: rest =>
      if top.sort == setup.errorSort then
        -- An error symbol is on top already: it takes in the token.
        let grow := fun (own other : Option Int) (member : String) =>
          (top.need member own).map fun n => some (other.getD n)
        if setup.tracking then
          match grow top.line look.line "lineno", grow top.pos look.pos "lexpos" with
          | .error f, _ => .fault f c
          | _, .error f => .fault f c
          | .ok endLine, .ok endPos =>
            .next { c with look := none, stack := { top with endLine, endPos } :: rest }
        else .next { c with look := none }
      else
        .next { c with look := some (errorEntry setup look), putBack := some look :: c.putBack }
  else
    match c.stack with
    | [] => .fault Fault.emptyPop c
    | top :: rest =>
      let c := { c with stack := rest }
      let moved : Except Fault (Entry σ ν) :=
        if setup.tracking then do
          let line ← top.need "lineno" top.line
          let pos ← top.need "lexpos" top.pos
          return { look with line := some line, pos := some pos }
        else .ok look
      match moved with
      | .error f => .fault f c
      | .ok look =>
        let c := { c with look := some look }
        match c.states with
        | [] => .fault Fault.emptyPop c
        | [_] => .fault Fault.listIndex { c with states := [] }
        | _ :: s :: states => .next { c with states := s :: states, state := s }

/-- The move at an empty entry of the action table. -/
def Config.failure (setup : Setup σ ν ω) [BEq σ] (c : Config σ ν ω) : Step σ ν ω :=
  match c.look with
  | none => .fault (.noAttribute "NoneType" "type") c
  | some look =>
    let c := c.note setup fun _ => "ERROR: Error  : " ++ c.picture setup
    if c.recovering == 0 || c.errorOk then
      match c.callHandler setup look with
      | .stop c => .done none c
      | .recovered c => .next c
      | .fault f c => .fault f c
      | .goOn c => c.recover setup look
    else
      ({ c with recovering := recoveryLength } : Config σ ν ω).recover setup look

def step (setup : Setup σ ν ω) [BEq σ] (c : Config σ ν ω) : Step σ ν ω :=
  let c := (c.note setup fun _ => "").note setup fun _ => "State  : " ++ toString c.state
  let decided : Except Fault (Option Action × Config σ ν ω) × Config σ ν ω :=
    match setup.tables.sole c.state with
    | some rule =>
      let c := c.note setup fun _ =>
        "Defaulted state " ++ toString c.state ++ ": Reduce using " ++ toString rule
      (.ok (some (.reduce rule), c), c)
    | none =>
      match c.fill setup with
      | (.error f, c) => (.error f, c)
      | (.ok c, _) =>
        (.ok (c.look.bind fun e => setup.tables.action c.state e.sort, c), c)
  match decided with
  | (.error f, c) => .fault f c
  | (.ok (action, c), _) =>
    let c := c.note setup fun _ => "Stack  : " ++ c.picture setup
    match action with
    | some (.shift target) =>
      let c := c.note setup fun _ => "Action : Shift and goto state " ++ toString target
      match c.look with
      | none => .fault (.noAttribute "NoneType" "type") c
      | some e =>
        .next { c with
          state := target
          states := target :: c.states
          stack := e :: c.stack
          look := none
          recovering := c.recovering - 1 }
    | some (.reduce number) =>
      match setup.tables.rule number with
      | none => .fault Fault.listIndex c
      | some rule => c.reduce setup number rule
    | some .accept =>
      let result := c.stack.head?.bind (·.value)
      let c := (c.note setup fun _ => "Done   : Returning " ++ setup.showResult result).note setup
        fun _ => "PLY: PARSE DEBUG END"
      .done result c
    | none => c.failure setup

/-- Moves until the parse ends or the fuel is used up. -/
def run (setup : Setup σ ν ω) [BEq σ] : Nat → Config σ ν ω → Step σ ν ω
  | 0, c => .next c
  | fuel + 1, c =>
    match step setup c with
    | .next c' => run setup fuel c'
    | other => other

end

def logHeader : String := "PLY: PARSE DEBUG START\n"

end LangKit.Lr

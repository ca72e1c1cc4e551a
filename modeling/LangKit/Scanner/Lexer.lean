import LangKit.Scanner.Table

/-!
# Scanning

A lexer has a table, a text and a position in it. It passes over ignored characters, takes the first
rule that matches, and calls the rule's function, which may change the state, the position or the
whole text. A character that no rule takes is a literal, or goes to the function for errors.
-/

namespace LangKit.Scanner

structure Token where
  type : String
  value : Tree
  line : Int
  position : Int
  deriving Repr

structure Lexer where
  table : ScanTable
  state : String
  stack : List String
  masters : List Master
  ignored : String
  onError : Option Handler
  onEnd : Option Handler
  text : Option (Array Char)
  position : Int
  line : Int
  deriving Repr

/-- A lexer with what its functions have printed, and the functions that have asked for more
text. -/
structure Desk where
  lexer : Lexer
  output : String
  asked : List String
  deriving Repr

/-- Work with a lexer. What has been done before a fault stays done. -/
abbrev Scan := ExceptT Fault (StateM Desk)

namespace Lexer

def enter (state : String) (l : Lexer) : Except Fault Lexer :=
  match Assoc.get? state l.table.masters with
  | none => .error (.wrongValue "Undefined state")
  | some masters => .ok { l with
      state, masters
      ignored := Assoc.getD state l.table.ignored ""
      onError := Assoc.getD state l.table.onError none
      onEnd := Assoc.getD state l.table.onEnd none }

def start (table : ScanTable) : Lexer :=
  { table, state := initialState, stack := []
    masters := Assoc.getD initialState table.masters []
    ignored := Assoc.getD initialState table.ignored ""
    onError := Assoc.getD initialState table.onError none
    onEnd := Assoc.getD initialState table.onEnd none
    text := none, position := 0, line := 1 }

end Lexer

namespace Scan

def lexer : Scan Lexer := do return (← get).lexer

def change (f : Lexer → Lexer) : Scan Unit :=
  modify fun d => { d with lexer := f d.lexer }

def lift {α : Type} : Except Fault α → Scan α
  | .ok a => pure a
  | .error f => throw f

def moveTo (n : Int) : Scan Unit := change fun l => { l with position := n }

def enter (state : String) : Scan Unit := do
  let l ← lift ((← lexer).enter state)
  change fun _ => l

def push (state : String) : Scan Unit := do
  change fun l => { l with stack := l.state :: l.stack }
  enter state

def pop : Scan Unit := do
  match (← lexer).stack with
  | [] => throw .emptyPop
  | state :: rest =>
    change fun l => { l with stack := rest }
    enter state

def skip (n : Int) : Scan Unit :=
  change fun l => { l with position := l.position + n }

def print (s : String) : Scan Unit :=
  modify fun d => { d with output := d.output ++ s }

def input : Tree → Scan Unit
  | .text s => change fun l => { l with text := some s.toList.toArray, position := 0 }
  | .list _ | .tuple _ => throw (.wrongValue "Expected a string")
  | .mapping _ => throw (.wrongType "unhashable type: 'slice'")
  | t => throw (.wrongType ("'" ++ t.typeName ++ "' object is not subscriptable"))

end Scan

open Scan

def readInteger : Tree → Except Fault Int
  | .int n => .ok n
  | .bool b => .ok (if b then 1 else 0)
  | .text s =>
    match Text.Decimal.read s with
    | .ok n => .ok n
    | .error .malformed => .error (.malformedInteger s)
    | .error (.tooLong digits) => .error (.overlongInteger digits)
  | t => .error (.wrongType
      ("int() argument must be a string, a bytes-like object or a real number, not '" ++
        t.typeName ++ "'"))

def countLines : Tree → Except Fault Nat
  | .text s => .ok (s.toList.count '\n')
  | .list items | .tuple items => .ok ((items.filter fun t => t.text? == some "\n").length)
  | t => .error (.noAttribute t.typeName "count")

def valueText (t : Tree) : Except Fault String :=
  match t with
  | .text s => .ok s
  | other => match other.display? Tree.nodeMark with
    | some s => .ok s
    | none => .error .unprintableInteger

/-- The character at a position. Positions below zero count from the end. -/
def charAt? (text : Array Char) (n : Int) : Option Char :=
  let n := if n < 0 then n + text.size else n
  if n < 0 then none else text[n.toNat]?

/-- The text from a position on. Positions below zero count from the end. -/
def restFrom (text : Array Char) (n : Int) : String :=
  let n := if n < 0 then n + text.size else n
  String.ofList (text.toList.drop n.toNat)

def firstMatch (text : Array Char) (n : Nat) : List Master → Option (Master × Pattern.Match)
  | [] => none
  | m :: rest =>
    match m.pattern.matchAt text n with
    | some found => some (m, found)
    | none => firstMatch text n rest

def matchEntry (m : Master) (found : Pattern.Match) : Except Fault Entry :=
  match found.last with
  | none => .error (.wrongType "list indices must be integers or slices, not NoneType")
  | some n =>
    match m.entries[n]? with
    | none => .error .listIndex
    | some none => .error (.wrongType "cannot unpack non-iterable NoneType object")
    | some (some e) => .ok e

/-- The result of a function so far: nothing, its own token, or another one. -/
inductive Outcome
  | nothing
  | own
  | other (t : Option Token)

def Outcome.token (t : Token) : Outcome → Option Token
  | .nothing => none
  | .own => some t
  | .other t => t

def unending : Fault := .badState "scanning does not end"

inductive Next
  | goOn (position : Int)
  | resume
  | done (t : Option Token)

mutual

def nextToken : Nat → Scan (Option Token)
  | 0 => throw unending
  | fuel + 1 => do
    let l ← lexer
    scanFrom fuel l.text l.ignored l.position

/-- The next token from a position of a text. Ignored characters are passed over. -/
def scanFrom : Nat → Option (Array Char) → String → Int → Scan (Option Token)
  | 0, _, _, _ => throw unending
  | fuel + 1, text, ignored, n => do
    let chars := text.getD #[]
    if n < chars.size then
      if text.isNone then throw (.wrongType "'NoneType' object is not subscriptable")
      match charAt? chars n with
      | none => throw .stringIndex
      | some c =>
        if ignored.toList.contains c then scanFrom fuel text ignored (n + 1)
        else
          let next ← match firstMatch chars n.toNat (← lexer).masters with
            | some (m, found) => takeMatch fuel chars n m found
            | none => takeUnmatched fuel chars n c
          match next with
          | .done t => return t
          | .goOn n => scanFrom fuel text ignored n
          | .resume =>
            let l ← lexer
            scanFrom fuel text l.ignored l.position
    else scanEnd fuel text n

def takeMatch : Nat → Array Char → Int → Master → Pattern.Match → Scan Next
  | 0, _, _, _, _ => throw unending
  | fuel + 1, text, n, m, found => do
    let value := String.ofList ((text.extract n.toNat found.stop).toList)
    let e ← lift (matchEntry m found)
    let token : Token := ⟨e.type.getD "None", .text value, (← lexer).line, n⟩
    match e.handler.filter Handler.truth with
    | none =>
      if (e.type.getD "").isEmpty then return .goOn found.stop
      moveTo found.stop
      return .done (some token)
    | some h =>
      moveTo found.stop
      match ← call fuel h token with
      | none => return .resume
      | some t =>
        let table := (← lexer).table
        if table.checked && !table.knows t.type then
          let label := match h with
            | .function f => f.place ++ "Rule '" ++ f.name ++ "'"
            | .value _ => ""
          throw (.scanError (label ++ " returned an unknown token type '" ++ t.type ++ "'")
            (restFrom text found.stop))
        return .done (some t)

def takeUnmatched : Nat → Array Char → Int → Char → Scan Next
  | 0, _, _, _ => throw unending
  | fuel + 1, text, n, c => do
    let l ← lexer
    if l.table.literalTexts.contains c.toString then
      moveTo (n + 1)
      return .done (some ⟨c.toString, .text c.toString, l.line, n⟩)
    moveTo n
    match l.onError.filter Handler.truth with
    | none =>
      throw (.scanError ("Illegal character '" ++ c.toString ++ "' at index " ++ toString n)
        (restFrom text n))
    | some h =>
      let t ← call fuel h ⟨"error", .text (restFrom (l.text.getD #[]) n), l.line, n⟩
      let after := (← lexer).position
      if after == n then
        throw (.scanError ("Scanning error. Illegal character '" ++ c.toString ++ "'")
          (restFrom text n))
      match t with
      | none => return .goOn after
      | some t => return .done (some t)

def scanEnd : Nat → Option (Array Char) → Int → Scan (Option Token)
  | 0, _, _ => throw unending
  | fuel + 1, _, n => do
    let l ← lexer
    match l.onEnd.filter Handler.truth with
    | some h =>
      moveTo n
      call fuel h ⟨"eof", .text "", l.line, n⟩
    | none =>
      moveTo (n + 1)
      if l.text.isNone then throw (.badState "No input string given with input()")
      return none

def call : Nat → Handler → Token → Scan (Option Token)
  | 0, _, _ => throw unending
  | _ + 1, .value t, _ => throw (.wrongType ("'" ++ t.typeName ++ "' object is not callable"))
  | fuel + 1, .function f, t => runSteps fuel f.name f.steps t .nothing

def runSteps : Nat → String → List Step → Token → Outcome → Scan (Option Token)
  | 0, _, _, _, _ => throw unending
  | _ + 1, _, [], t, outcome => return outcome.token t
  | fuel + 1, name, step :: rest, t, outcome => do
    match step with
    | .keep => runSteps fuel name rest t .own
    | .setType type => runSteps fuel name rest { t with type } outcome
    | .setValue value => runSteps fuel name rest { t with value } outcome
    | .readInteger =>
      let n ← lift (readInteger t.value)
      runSteps fuel name rest { t with value := .int n } outcome
    | .countLines =>
      let n ← lift (countLines t.value)
      change fun l => { l with line := l.line + n }
      runSteps fuel name rest t outcome
    | .enter state =>
      enter state
      runSteps fuel name rest t outcome
    | .push state =>
      push state
      runSteps fuel name rest t outcome
    | .pop =>
      pop
      runSteps fuel name rest t outcome
    | .skip n =>
      skip n
      runSteps fuel name rest t outcome
    | .print =>
      print (t.type ++ " " ++ (← lift (valueText t.value)) ++ "\n")
      runSteps fuel name rest t outcome
    | .more text =>
      if (← get).asked.contains name then runSteps fuel name rest t outcome
      else
        modify fun d => { d with asked := name :: d.asked }
        input (.text text)
        let found ← nextToken fuel
        runSteps fuel name rest t (.other found)

end

/-- A bound on the steps of scanning: an ignored character or a match takes one step for each part
of the work on it. -/
def scanLimit : Nat := 1000000

def token : Scan (Option Token) := nextToken scanLimit

def tokensFrom : Nat → List Token → Desk → List Token × Except Fault Unit × Desk
  | 0, found, d => (found.reverse, .error unending, d)
  | fuel + 1, found, d =>
    match token d with
    | (.error f, d) => (found.reverse, .error f, d)
    | (.ok none, d) => (found.reverse, .ok (), d)
    | (.ok (some t), d) => tokensFrom fuel (t :: found) d

def allTokens (d : Desk) : List Token × Except Fault Unit × Desk := tokensFrom scanLimit [] d

end LangKit.Scanner

import LangKit.Script.Table
import LangKit.Script.Scan
import LangKit.Lr.Show

/-!
# Parsing a program text

The parser takes the events of the scanner one by one. A character that starts no token and a syntax
error are each reported by a printed line, in the order in which the parser meets them.

Texts are read one after the other by the same reader. It does not go back to the first line for a
new text, and it keeps the parser's leave to report an error while it recovers from one.
-/

namespace LangKit.Script

/-- What the parser has yet to read, where the scanner stands, and what has been printed. -/
structure Source where
  events : List Event
  line : Nat
  pos : Nat
  printed : String
  deriving Repr

/-- What is left from the texts that have been read before: whether an error may be reported while
the parser recovers from one, and the line that the scanner is in. -/
structure Reader where
  errorOk : Bool
  line : Nat
  deriving Repr, Inhabited

def Reader.new : Reader :=
  ⟨true, 1⟩

def Reader.source (r : Reader) (text : String) : Source :=
  ⟨scanFrom r.line 0 text.toList, r.line, 0, ""⟩

def Source.ofText (text : String) : Source :=
  Reader.new.source text

abbrev Entry := Lr.Entry Symbol Tree

def Token.entry (t : Token) : Entry where
  sort := .token t.kind
  origin := .token
  value := some t.value.tree
  line := some t.line
  pos := some t.start
  endLine := none
  endPos := none

/-- Reads events up to the next token; `printed` is what has been printed so far. -/
def pullFrom (line pos : Nat) (printed : String) :
    List Event → Except Fault (Option Entry) × Source
  | [] => (.ok none, ⟨[], line, pos, printed⟩)
  | .illegal c :: rest => pullFrom line pos (printed ++ illegalMessage c ++ "\n") rest
  | .token t after :: rest => (.ok (some t.entry), ⟨rest, t.line, after, printed⟩)
  | .overlong digits line after :: rest =>
    (.error (.overlongInteger digits), ⟨rest, line, after, printed⟩)
  | .done line after :: rest => (.ok none, ⟨rest, line, after, printed⟩)

def Source.pull (s : Source) : Except Fault (Option Entry) × Source :=
  pullFrom s.line s.pos s.printed s.events

def errorLine : Option Entry → String
  | none => "Syntax error at EOF"
  | some e =>
    let shown := match e.value with
      | some (.text s) => s
      | some (.int n) => toString n
      | _ => ""
    "Syntax error at '" ++ shown ++ "'"

def reportError (s : Source) (e : Option Entry) :
    Except Fault (Lr.ErrorReply Symbol Tree) × Source :=
  (.ok ⟨false, false, none⟩, { s with printed := s.printed ++ errorLine e ++ "\n" })

def showEntry (e : Entry) : String :=
  match e.origin with
  | .machine => e.sort.label
  | _ =>
    let shown := match e.value with
      | some t => (t.display? Tree.nodeMark).getD ""
      | none => ""
    let number := fun (n : Option Int) => toString (n.getD 0)
    "LexToken(" ++ e.sort.label ++ "," ++ shown ++ "," ++ number e.line ++ "," ++
      number e.pos ++ ")"

def showWith (f : Tree → Except Fault String) (value : Option Tree) : String :=
  match value with
  | some t => (f t).toOption.getD ""
  | none => "None"

def setup (tracking logging : Bool) : Lr.Setup Symbol Tree Source where
  tables := tables
  endSort := .endMark
  errorSort := .errorMark
  pull := Source.pull
  place s := (s.line, s.pos)
  act number right _ :=
    match rules[number]? with
    | some r => .ok (r.meaning (right.map fun e => e.value.getD .null))
    | none => .error (.fault Fault.listIndex)
  onError := some reportError
  asValue _ := .null
  declaredError := .null
  nameOf := Symbol.label
  showEntry := showEntry
  showValue := showWith Lr.treeEntryText
  showResult := showWith Lr.treeResultText
  tracking := tracking
  logging := logging

/-- What a parse leaves: the tree of the program, if there is one, what was printed and logged, and
the reader for the next text. -/
structure Parsed where
  outcome : Except Fault (Option Tree)
  printed : String
  log : String
  reader : Reader

/-- Moves that suffice for a number of events: a token is shifted and popped once, and at most a few
rules with a single part are reduced in between. -/
def fuelFor (events : Nat) : Nat :=
  32 * (events + 2)

def Reader.parse (r : Reader) (tracking logging : Bool) (text : String) : Parsed :=
  let source := r.source text
  let m := setup tracking logging
  let header := if logging then Lr.logHeader else ""
  match Lr.run m (fuelFor source.events.length) (.start m r.errorOk source header) with
  | .next c => ⟨.ok none, c.world.printed, c.log, ⟨c.errorOk, c.world.line⟩⟩
  | .done result c => ⟨.ok result, c.world.printed, c.log, ⟨c.errorOk, c.world.line⟩⟩
  | .fault f c => ⟨.error f, c.world.printed, c.log, ⟨c.errorOk, c.world.line⟩⟩

def parse (tracking logging : Bool) (text : String) : Parsed :=
  Reader.new.parse tracking logging text

/-- The tree of a program, and what was printed. A text with a syntax error that recovery cannot get
over is refused. -/
def Parsed.program (parsed : Parsed) : Except Fault Tree × String :=
  match parsed.outcome with
  | .ok (some t) => (.ok t, parsed.printed)
  | .ok none => (.error (.syntaxError (some "Syntax error")), parsed.printed)
  | .error f => (.error f, parsed.printed)

def parseProgram (text : String) : Except Fault Tree × String :=
  (parse false false text).program

end LangKit.Script

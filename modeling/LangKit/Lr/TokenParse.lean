import LangKit.Lr.RuleAction
import LangKit.Lr.Table

/-!
# Parsing a list of tokens

A parse over a generated table takes its tokens from a list, gives each rule a stock action, and
meets errors with a stock handler. The source counts what it has given out and keeps the errors it
was told.
-/

namespace LangKit.Lr

structure Feed where
  tokens : List TextEntry
  line : Int
  pos : Int
  errors : List (Option TextEntry)

def Feed.ofTokens (tokens : List TextEntry) : Feed :=
  ⟨tokens, 1, 0, []⟩

def Feed.next (f : Feed) : Option TextEntry × Feed :=
  match f.tokens with
  | [] => (none, f)
  | t :: rest =>
    (some t, { f with tokens := rest, line := t.line.getD f.line, pos := t.pos.getD f.pos })

def skipTo (sort : String) (f : Feed) : List TextEntry → Option TextEntry × Feed
  | [] => (none, { f with tokens := [] })
  | t :: rest =>
    let f := { f with tokens := rest, line := t.line.getD f.line, pos := t.pos.getD f.pos }
    if t.sort == sort then (some t, f) else skipTo sort f rest

/-- What is done about an error, after it is noted. All but `note` and `nested` act on a token only
and do nothing at the end of the input. -/
inductive ErrorHandler
  | note
  | goOn
  | retryNext
  | sync (sort : String)
  | restart
  /-- Parse the empty text with the same parser first; then the machine recovers. -/
  | nested
  deriving DecidableEq, Repr

/-- The parser of a table: the tables, the name and action of each rule, and the handler, if any. -/
structure Parser where
  tables : Tables String
  name : Nat → String
  action : Nat → RuleAction
  handler : Option ErrorHandler

/-- The answer of a handler that leaves recovery to the machine. -/
def leave : ErrorReply String Value := ⟨false, false, none⟩

def ErrorHandler.call (h : ErrorHandler) (nestedParse : Feed → Except Fault Unit × Feed) (f : Feed)
    (token : Option TextEntry) : Except Fault (ErrorReply String Value) × Feed :=
  let f := { f with errors := f.errors ++ [token] }
  match h, token with
  | .note, _ => (.ok leave, f)
  | .nested, _ =>
    let (r, f) := nestedParse f
    (r.map fun _ => leave, f)
  | _, none => (.ok leave, f)
  | .goOn, some _ => (.ok ⟨true, false, none⟩, f)
  | .retryNext, some _ =>
    let (t, f) := f.next
    (.ok ⟨true, false, t⟩, f)
  | .sync sort, some _ =>
    let (t, f) := skipTo sort f f.tokens
    (.ok ⟨true, false, t⟩, f)
  | .restart, some _ => (.ok ⟨true, true, none⟩, f)

def Parser.setup (p : Parser) (onError : Option (Feed → Option TextEntry →
    Except Fault (ErrorReply String Value) × Feed)) (tracking logging : Bool) :
    Setup String Value Feed where
  tables := p.tables
  endSort := endMark
  errorSort := errorMark
  pull f := let (t, f) := f.next; (.ok t, f)
  place f := (f.line, f.pos)
  act number right below := (p.action number).run (p.name number) right below
  onError := onError
  asValue := TextEntry.asValue
  declaredError := .text errorMark
  nameOf s := s
  showEntry := TextEntry.text
  showValue v := (v.getD .none).entryText
  showResult v := (v.getD .none).resultText
  tracking := tracking
  logging := logging

/-- The moves that a parse over a generated table may make. -/
def parseFuel : Nat := 10000000

structure ParseOutcome where
  result : Except Fault Value
  feed : Feed
  log : String

def outcomeOf : Step String Value Feed → ParseOutcome
  | .next c => ⟨.error (.badState "too many moves"), c.world, c.log⟩
  | .done result c => ⟨.ok (result.getD .none), c.world, c.log⟩
  | .fault f c => ⟨.error f, c.world, c.log⟩

/-- Parses the empty text in the middle of another parse. Its errors are noted with the others. -/
def Parser.parseNested (p : Parser) (f : Feed) : Except Fault Unit × Feed :=
  let handler := fun (f : Feed) token => ErrorHandler.note.call (fun f => (.ok (), f)) f token
  let m := p.setup (some handler) false false
  let inner : Feed := { Feed.ofTokens [] with errors := f.errors }
  let o := outcomeOf (run m parseFuel (.start m false inner ""))
  (o.result.map fun _ => (), { f with errors := o.feed.errors })

def Parser.parse (p : Parser) (tracking logging : Bool) (tokens : List TextEntry) : ParseOutcome :=
  let onError := p.handler.map fun h f token => h.call p.parseNested f token
  let m := p.setup onError tracking logging
  let header := if logging then logHeader else ""
  outcomeOf (run m parseFuel (.start m true (.ofTokens tokens) header))

/-- The states of a table that have one entry, a reduction. An only entry that is an error on
purpose cannot be compared with a reduction. -/
def defaultedFrom : Nat → List ActionRow → Except Fault (List (Nat × Nat))
  | _, [] => .ok []
  | state, row :: rest =>
    match row with
    | [(_, some (.reduce rule))] => (defaultedFrom (state + 1) rest).map ((state, rule) :: ·)
    | [(_, none)] =>
      .error (.wrongType "'<' not supported between instances of 'NoneType' and 'int'")
    | _ => defaultedFrom (state + 1) rest

def Table.defaulted (t : Table) : Except Fault (List (Nat × Nat)) :=
  defaultedFrom 0 t.actions.toList

/-- The tables of a machine, from a generated table and the rules. Defaulted states can be turned
off. -/
def Table.toTables (t : Table) (rule : Nat → Option (RuleInfo String)) (useDefaulted : Bool) :
    Tables String where
  action s symbol := (t.actions[s]?.bind (Assoc.get? symbol ·)).join
  sole s :=
    if useDefaulted then
      match t.actions[s]? with
      | some [(_, some (.reduce n))] => some n
      | _ => none
    else none
  goto s symbol := t.gotos[s]?.bind (Assoc.get? symbol ·)
  rule := rule

def ruleInfo (p : Production) : RuleInfo String :=
  ⟨p.head, p.body.length, p.text⟩

end LangKit.Lr

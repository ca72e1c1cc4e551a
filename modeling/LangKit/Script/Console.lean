import LangKit.Store.Display

/-!
# The console of a running program

What a program sees of the world: inputs, given as a list or typed line by line, and the log of what
it has put out. The console also keeps the printed text and the last error that was reported.
-/

namespace LangKit.Script

structure Console where
  echo : Bool
  trace : Bool
  inputs : List Datum
  cursor : Nat
  typed : List Char
  log : Array Datum
  printed : String
  errorKind : Option ErrorKind
  errorLine : Option Int
  deriving Inhabited, Repr

namespace Console

def start (echo trace : Bool) (inputs : List Datum) (typed : String) : Console where
  echo := echo
  trace := trace
  inputs := inputs
  cursor := 0
  typed := typed.toList
  log := #[]
  printed := ""
  errorKind := none
  errorLine := none

/-- Empties the log, goes back to the first input and forgets the last error. -/
def reset (c : Console) : Console :=
  { c with log := #[], cursor := 0, errorKind := none, errorLine := none }

def print (c : Console) (line : String) : Console :=
  { c with printed := (c.printed ++ line).push '\n' }

/-- The first line of a text without its end, and the rest; none if the text is empty. -/
def splitLine (cs : List Char) : Option (String × List Char) :=
  if cs.isEmpty then none
  else
    let line := cs.takeWhile (· != '\n')
    some (String.ofList line, (cs.dropWhile (· != '\n')).drop 1)

/-- The next input. Given inputs that are used up give nothing; at the end of what is typed reading
fails. -/
def input (c : Console) : Except Fault Datum × Console :=
  if c.inputs.isEmpty then
    match splitLine c.typed with
    | some (line, rest) => (.ok (.text line), { c with typed := rest })
    | none => (.error .endOfInput, c)
  else
    match c.inputs[c.cursor]? with
    | some d => (.ok d, { c with cursor := c.cursor + 1 })
    | none => (.ok .null, c)

/-- Puts a value out: prints its text if the console echoes, then logs it. -/
def output (c : Console) (store : Store) (d : Datum) : Except Fault Unit × Console :=
  if c.echo then
    match store.textOf d with
    | .ok s => (.ok (), { c.print s with log := c.log.push d })
    | .error f => (.error f, c)
  else (.ok (), { c with log := c.log.push d })

def report (c : Console) (kind : ErrorKind) (text : Option String) (line : Option Int) :
    Fault × Console :=
  (.reported kind text line, { c with errorKind := some kind, errorLine := line })

end Console

end LangKit.Script

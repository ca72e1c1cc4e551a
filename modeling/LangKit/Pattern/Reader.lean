import LangKit.Pattern.Width
import LangKit.Text.Word

/-!
# Reading a pattern: characters and escapes

A pattern is read as a list of signs: a character, or a backslash with the character after it. The
reader counts groups and keeps their names and widths, because later parts refer to them.
-/

namespace LangKit.Pattern

/-- A sign of a pattern: a character, with or without a backslash before it. -/
structure Sign where
  char : Char
  escaped : Bool
  position : Nat
  deriving Repr

def Sign.text (s : Sign) : String :=
  if s.escaped then "\\" ++ s.char.toString else s.char.toString

def Sign.length (s : Sign) : Nat :=
  if s.escaped then 2 else 1

def Sign.is (s : Sign) (c : Char) : Bool :=
  !s.escaped && s.char == c

def signsFrom : Nat → List Char → List Sign
  | _, [] => []
  | _, ['\\'] => []
  | n, '\\' :: c :: rest => ⟨c, true, n⟩ :: signsFrom (n + 2) rest
  | n, c :: rest => ⟨c, false, n⟩ :: signsFrom (n + 1) rest

def endsBroken : List Char → Bool
  | [] => false
  | ['\\'] => true
  | '\\' :: _ :: rest => endsBroken rest
  | _ :: rest => endsBroken rest

structure Reader where
  signs : List Sign
  length : Nat
  broken : Bool
  flags : Flags
  widths : Array (Option Width)
  names : List (String × Nat)
  behind : Option Nat
  conditions : List (Nat × Nat)
  uneven : Bool

abbrev Reading := StateT Reader (Except PatternError)

namespace Reading

def refuseAt {α : Type} (message : String) (position : Nat) : Reading α :=
  throw (.malformed message (some position))

def position : Reading Nat := do
  let r ← get
  return match r.signs with
    | s :: _ => s.position
    | [] => r.length

/-- Refuses the pattern, so many characters before the next sign. -/
def refuse {α : Type} (message : String) (back : Nat) : Reading α := do
  refuseAt message ((← position) - back)

def peek : Reading (Option Sign) := do
  return (← get).signs.head?

/-- Passes over the next sign. A lone backslash at the end is refused when it comes next. -/
def skip : Reading Unit := do
  modify fun r => { r with signs := r.signs.drop 1 }
  let r ← get
  if r.signs.isEmpty && r.broken then
    refuseAt "bad escape (end of pattern)" (r.length - 1)

def take : Reading (Option Sign) := do
  let s ← peek
  if s.isSome then skip
  return s

/-- Takes the next sign if it is the given character. -/
def accept (c : Char) : Reading Bool := do
  match ← peek with
  | some s => if s.is c then skip; return true else return false
  | none => return false

def nextIs (p : Char → Bool) : Reading Bool := do
  return match ← peek with
    | some s => !s.escaped && p s.char
    | none => false

/-- Takes up to so many characters of a class. -/
def takeWhile (p : Char → Bool) : Nat → Reading String
  | 0 => pure ""
  | n + 1 => do
    if ← nextIs p then
      match ← take with
      | some s => return s.char.toString ++ (← takeWhile p n)
      | none => return ""
    else return ""

/-- Takes signs up to a terminator, which is passed over; `limit` bounds the number of signs. -/
def takeUntil (terminator : Char) (what : String) : Nat → String → Reading String
  | 0, found => pure found
  | limit + 1, found => do
    match ← take with
    | none =>
      if found.isEmpty then refuse ("missing " ++ what) 0
      else refuse ("missing " ++ terminator.toString ++ ", unterminated name") found.length
    | some s =>
      if s.is terminator then
        if found.isEmpty then refuse ("missing " ++ what) 1 else return found
      else takeUntil terminator what limit (found ++ s.text)

def name (terminator : Char) (what : String) : Reading String := do
  takeUntil terminator what ((← get).signs.length + 1) ""

def groupCount : Reading Nat := do
  return (← get).widths.size

def isClosed (n : Nat) : Reading Bool := do
  return ((← get).widths[n]?.join).isSome

/-- In an assertion that looks back, only groups before it can be referred to. -/
def checkBehind (n : Nat) : Reading Unit := do
  match (← get).behind with
  | none => pure ()
  | some limit =>
    if !(← isClosed n) then refuse "cannot refer to an open group" 0
    if limit ≤ n then
      refuse "cannot refer to group defined in the same lookbehind subpattern" 0

end Reading

open Reading

def isOctal (c : Char) : Bool := '0' ≤ c && c ≤ '7'

def isHex (c : Char) : Bool :=
  c.isDigit || ('a' ≤ c && c ≤ 'f') || ('A' ≤ c && c ≤ 'F')

def hexDigitValue (c : Char) : Nat :=
  if c.isDigit then c.toNat - '0'.toNat
  else if 'a' ≤ c then c.toNat - 'a'.toNat + 10
  else c.toNat - 'A'.toNat + 10

def numeral (base : Nat) (s : String) : Nat :=
  s.toList.foldl (fun n c => n * base + hexDigitValue c) 0

def control? : Char → Option Nat
  | 'a' => some 7
  | 'b' => some 8
  | 'f' => some 12
  | 'n' => some 10
  | 'r' => some 13
  | 't' => some 9
  | 'v' => some 11
  | '\\' => some 92
  | _ => none

/-- The class of characters that an escape with a letter stands for. -/
def category? : Char → Option SetItem
  | 'd' => some (.category .digit false)
  | 'D' => some (.category .digit true)
  | 's' => some (.category .space false)
  | 'S' => some (.category .space true)
  | 'w' => some (.category .word false)
  | 'W' => some (.category .word true)
  | _ => none

def anchor? : Char → Option Anchor
  | 'A' => some .textStart
  | 'b' => some .wordEdge
  | 'B' => some .insideWord
  | 'Z' => some .textEnd
  | _ => none

/-- The number of hexadecimal digits after an escape with a letter. -/
def hexLength? : Char → Option Nat
  | 'x' => some 2
  | 'u' => some 4
  | 'U' => some 8
  | _ => none

def maxCode : Nat := 0x10ffff

def badEscape {α : Type} (text : String) : Reading α :=
  refuse ("bad escape " ++ text) text.length

def readHex (s : Sign) (count : Nat) : Reading Nat := do
  let digits ← takeWhile isHex count
  let text := s.text ++ digits
  if digits.length != count then refuse ("incomplete escape " ++ text) text.length
  else if maxCode < numeral 16 digits then badEscape text
  else return numeral 16 digits

def readNamed : Reading Nat := do
  if !(← accept '{') then refuse "missing \x7b" 0
  let found ← name '}' "character name"
  refuse ("undefined character name " ++ Text.quoted found) (found.length + 4)

def readOctal (text : String) : Reading Nat := do
  let value := numeral 8 (text.drop 1).toString
  if 0o377 < value then
    refuse ("octal escape value " ++ text ++ " outside of range 0-0o377") text.length
  else return value

/-- An escape that stands for itself; letters and digits do not. -/
def readPlain (s : Sign) : Reading Nat := do
  if s.char.isAlpha || s.char.isDigit then badEscape s.text else return s.char.toNat

def readSetEscape (s : Sign) : Reading SetItem := do
  match control? s.char, category? s.char, hexLength? s.char with
  | some code, _, _ => return .single code
  | _, some item, _ => return item
  | _, _, some count => return .single (← readHex s count)
  | _, _, _ =>
    if s.char == 'N' then return .single (← readNamed)
    else if isOctal s.char then
      return .single (← readOctal (s.text ++ (← takeWhile isOctal 2)))
    else return .single (← readPlain s)

/-- A reference to a group, or an octal number of three digits. -/
def readReference (s : Sign) : Reading Node := do
  let second ← takeWhile Char.isDigit 1
  let text := s.text ++ second
  let octal := isOctal s.char && !second.isEmpty && second.toList.all isOctal
  if octal && (← nextIs isOctal) then
    return .char (← readOctal (text ++ (← takeWhile isOctal 1)))
  let group := numeral 10 (text.drop 1).toString
  if group < (← groupCount) then
    if !(← isClosed group) then refuse "cannot refer to an open group" text.length
    checkBehind group
    return .backref group
  else refuse ("invalid group reference " ++ toString group) (text.length - 1)

def readEscape (s : Sign) : Reading Node := do
  match anchor? s.char, category? s.char, control? s.char, hexLength? s.char with
  | some a, _, _, _ => return .anchor a
  | _, some item, _, _ => return .set false [item]
  | _, _, some code, _ => return .char code
  | _, _, _, some count => return .char (← readHex s count)
  | _, _, _, _ =>
    if s.char == 'N' then return .char (← readNamed)
    else if s.char == '0' then
      return .char (numeral 8 (← takeWhile isOctal 2))
    else if s.char.isDigit then readReference s
    else return .char (← readPlain s)

end LangKit.Pattern

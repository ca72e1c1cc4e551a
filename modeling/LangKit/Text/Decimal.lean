import LangKit.Text.Blank
import LangKit.Text.Digit

/-!
# Integers as decimal text

Reading takes an optional sign and digits of any script, with single underscores allowed between
digits and blanks allowed at the two ends. Reading and writing both refuse numbers of more than
`digitLimit` digits.
-/

namespace LangKit.Text.Decimal

def digitLimit : Nat := 4300

inductive ReadError
  | malformed
  | tooLong (digits : Nat)
  deriving DecidableEq, Repr

/-- The number that a list of digit values denotes, most significant first. -/
def ofDigits (ds : List Nat) : Nat :=
  ds.foldl (fun n d => 10 * n + d) 0

/-- A blank that may stand beside a number: the control characters that separate records do not. -/
def isPadding (c : Char) : Bool :=
  isBlank c && !(0x1c ≤ c.toNat && c.toNat ≤ 0x1f)

/-- The digit values at the front of a text and the rest, where `after` says whether a digit has
just been read. An underscore is passed over when a digit stands on both of its sides; the answer is
`none` when no digit stands where one has to. -/
def digitRun : Bool → List Char → Option (List Nat × List Char)
  | after, [] => if after then some ([], []) else none
  | after, c :: rest =>
    match digitValue? c with
    | some d => (digitRun true rest).map fun r => (d :: r.1, r.2)
    | none =>
      if !after then none
      else if c == '_' then digitRun false rest
      else some ([], c :: rest)

def readMagnitude (cs : List Char) : Except ReadError Nat :=
  match digitRun false cs with
  | none => .error .malformed
  | some (ds, rest) =>
    if digitLimit < ds.length then .error (.tooLong ds.length)
    else if rest.all isPadding then .ok (ofDigits ds)
    else .error .malformed

def read (s : String) : Except ReadError Int :=
  match s.toList.dropWhile isPadding with
  | '-' :: cs => (readMagnitude cs).map fun n => -(n : Int)
  | '+' :: cs => (readMagnitude cs).map fun n => (n : Int)
  | cs => (readMagnitude cs).map fun n => (n : Int)

/-- The decimal digits of a number, most significant first. -/
def digits (n : Nat) : List Char :=
  (toString n).toList

/-- Writes an integer; `none` if it has more digits than the limit. -/
def write? (n : Int) : Option String :=
  let text := toString n.natAbs
  if digitLimit < text.length then none
  else some (if n < 0 then "-" ++ text else text)

end LangKit.Text.Decimal

import LangKit.Number.Binary

/-!
# Floating numbers and their texts

A floating number is a binary number with a sign, an infinity, or no number at all. It is written
with the fewest digits that read back, positionally for exponents from -4 to 15, and a positional
text always has a point.
-/

namespace LangKit.Number

inductive Floating
  | finite (negative : Bool) (b : Binary)
  | infinite (negative : Bool)
  | nan
  deriving DecidableEq, Repr, Inhabited

def trimZeros (ds : List Char) : List Char :=
  (ds.reverse.dropWhile (· == '0')).reverse

def exponentText (e : Int) : String :=
  let digits := toString e.natAbs
  "e" ++ (if e < 0 then "-" else "+") ++ (if digits.length < 2 then "0" else "") ++ digits

def zeros (n : Nat) : String := String.ofList (List.replicate n '0')

def Decimal.text (d : Decimal) : String :=
  if d.digits == 0 then "0.0"
  else
    let all := Nat.toDigits 10 d.digits
    let e : Int := d.exponent + all.length - 1
    let ds := trimZeros all
    if -4 ≤ e && e < 16 then
      if e < 0 then "0." ++ zeros (e.natAbs - 1) ++ String.ofList ds
      else
        let whole := ds.take (e.toNat + 1)
        let rest := ds.drop (e.toNat + 1)
        String.ofList whole ++ zeros (e.toNat + 1 - whole.length) ++ "." ++
          (if rest.isEmpty then "0" else String.ofList rest)
    else
      let rest := ds.drop 1
      String.ofList (ds.take 1) ++ (if rest.isEmpty then "" else "." ++ String.ofList rest) ++
        exponentText e

def signText (negative : Bool) : String := if negative then "-" else ""

def Floating.text : Floating → String
  | .nan => "nan"
  | .infinite negative => signText negative ++ "inf"
  | .finite negative b => signText negative ++ b.shortest.text

def Floating.ofDecimal (negative : Bool) (d : Decimal) : Floating :=
  match d.binary? with
  | some b => .finite negative b
  | none => .infinite negative

/-- A floating number rounded to a count of significant digits. Zero loses its sign. -/
def Floating.rounded (count : Nat) : Floating → Floating
  | .finite negative b =>
    if b.mantissa == 0 then .finite false b else .ofDecimal negative (b.significant count)
  | x => x

def readDigits (cs : List Char) : Nat :=
  cs.foldl (fun n c => 10 * n + (c.toNat - '0'.toNat)) 0

def readExponent? : List Char → Option Int
  | '-' :: ds => if ds.isEmpty || !ds.all Char.isDigit then none else some (-(readDigits ds : Int))
  | '+' :: ds => if ds.isEmpty || !ds.all Char.isDigit then none else some (readDigits ds)
  | ds => if ds.isEmpty || !ds.all Char.isDigit then none else some (readDigits ds)

def readDecimal? (cs : List Char) : Option Decimal :=
  let whole := cs.takeWhile Char.isDigit
  let rest := cs.drop whole.length
  let (part, rest) := match rest with
    | '.' :: more => (more.takeWhile Char.isDigit, more.dropWhile Char.isDigit)
    | _ => ([], rest)
  if whole.isEmpty && part.isEmpty then none
  else
    let digits := readDigits (whole ++ part)
    match rest with
    | [] => some ⟨digits, -(part.length : Int)⟩
    | 'e' :: e | 'E' :: e => (readExponent? e).map fun e => ⟨digits, e - part.length⟩
    | _ => none

/-- The floating number that a text without a sign denotes. -/
def readMagnitude? (negative : Bool) (s : String) : Option Floating :=
  match s with
  | "inf" | "infinity" => some (.infinite negative)
  | "nan" => some .nan
  | _ => (readDecimal? s.toList).map (Floating.ofDecimal negative)

def Floating.read? (s : String) : Option Floating :=
  match s.toList with
  | '-' :: cs => readMagnitude? true (String.ofList cs)
  | '+' :: cs => readMagnitude? false (String.ofList cs)
  | _ => readMagnitude? false s

end LangKit.Number

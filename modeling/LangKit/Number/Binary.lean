/-!
# Binary numbers and their decimals

A binary number has a mantissa of at most 53 bits and an exponent of two. A quotient of naturals has
a nearest binary number, and a binary number has decimals with a given number of significant digits;
halves go to the even neighbour in both. The shortest decimal of a number is the first that reads
back as the number. All of this is exact arithmetic on naturals.
-/

namespace LangKit.Number

/-- The nearest natural to a quotient; a half goes to the even one. -/
def roundDiv (num den : Nat) : Nat :=
  let q := num / den
  let rest := 2 * (num % den)
  if rest < den then q
  else if den < rest then q + 1
  else q + q % 2

def powerRatio (base : Nat) : Int → Nat × Nat
  | .ofNat n => (base.pow n, 1)
  | .negSucc n => (1, base.pow (n + 1))

def scale (base : Nat) (e : Int) (num den : Nat) : Nat × Nat :=
  let (a, b) := powerRatio base e
  (num * a, den * b)

structure Binary where
  mantissa : Nat
  exponent : Int
  deriving DecidableEq, Repr, Inhabited

structure Decimal where
  digits : Nat
  exponent : Int
  deriving DecidableEq, Repr, Inhabited

def minExponent : Int := -1074

def mantissaBits : Nat := 53

def maxExponent : Int := 971

/-- The power of two below a quotient that is not zero: the largest exponent with
`2 ^ e ≤ num / den`. -/
def floorLog2 (num den : Nat) : Int :=
  let guess : Int := (num.log2 : Int) - den.log2
  let (n, d) := scale 2 (-guess) num den
  if d ≤ n then guess else guess - 1

def nearest? (num den : Nat) : Option Binary :=
  if num == 0 then some ⟨0, minExponent⟩
  else
    let e := max (floorLog2 num den - (mantissaBits - 1 : Nat)) minExponent
    let (n, d) := scale 2 (-e) num den
    let m := roundDiv n d
    let b : Binary := if m == 1 <<< mantissaBits then ⟨m / 2, e + 1⟩ else ⟨m, e⟩
    if maxExponent < b.exponent then none else some b

def Binary.ratio (b : Binary) : Nat × Nat := scale 2 b.exponent b.mantissa 1

def Decimal.ratio (d : Decimal) : Nat × Nat := scale 10 d.exponent d.digits 1

def Decimal.binary? (d : Decimal) : Option Binary :=
  let (n, m) := d.ratio
  nearest? n m

def digitCount (n : Nat) : Nat := (Nat.toDigits 10 n).length

/-- The power of ten below a quotient that is not zero. -/
def floorLog10 (num den : Nat) : Int :=
  let guess : Int := (digitCount num : Int) - digitCount den
  let (n, d) := scale 10 (-guess) num den
  if d ≤ n then guess else guess - 1

def Binary.significant (count : Nat) (b : Binary) : Decimal :=
  if b.mantissa == 0 then ⟨0, 0⟩
  else
    let (num, den) := b.ratio
    let e := floorLog10 num den - ((count : Int) - 1)
    let (n, d) := scale 10 (-e) num den
    ⟨roundDiv n d, e⟩

/-- The first decimal, from `count` digits on, that reads back as the number. -/
def Binary.shortestFrom (b : Binary) : Nat → Nat → Decimal
  | 0, count => b.significant count
  | fuel + 1, count =>
    let d := b.significant count
    if d.binary? == some b then d else b.shortestFrom fuel (count + 1)

/-- The shortest decimal of a number; seventeen digits always read back. -/
def Binary.shortest (b : Binary) : Decimal := b.shortestFrom 16 1

end LangKit.Number

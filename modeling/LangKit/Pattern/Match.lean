import LangKit.Pattern.Basic
import LangKit.Text.Blank
import LangKit.Text.Digit
import LangKit.Text.LetterCase
import LangKit.Text.Word

/-!
# Matching a pattern

A pattern is matched at a position of a text. Every part is given what is to follow, and tries its
possibilities in order until one of them lets the rest match. A repetition does not go on after a
round that has matched nothing, so the length of the text bounds the rounds.
-/

namespace LangKit.Pattern

/-- How far a match has come: the position, what the groups have matched, and the group that was
closed last. -/
structure Progress where
  position : Nat
  groups : List (Nat × Nat × Nat)
  last : Option Nat
  deriving Repr

abbrev Rest := Progress → Option Progress

abbrev Matcher := Progress → Rest → Option Progress

def Category.holds (ascii : Bool) (c : Char) : Category → Bool
  | .digit => if ascii then c.isDigit else Text.isDigit c
  | .space => if ascii then c.toNat < 128 && Text.isBlank c && !(0x1c ≤ c.toNat && c.toNat ≤ 0x1f)
      else Text.isBlank c
  | .word => if ascii then c.isAlphanum || c == '_' else Text.isWord c

def SetItem.holds (ascii : Bool) (c : Char) : SetItem → Bool
  | .single code => c.toNat == code
  | .range low high => low ≤ c.toNat && c.toNat ≤ high
  | .category k negated => k.holds ascii c != negated

def lowerAscii (code : Nat) : Nat :=
  if 0x41 ≤ code && code ≤ 0x5a then code + 32 else code

/-- The code points that count as the same as a character when case is ignored. -/
def caseVariants (ascii : Bool) (c : Char) : List Nat :=
  if ascii then
    let small := lowerAscii c.toNat
    if 0x61 ≤ small && small ≤ 0x7a then [small, small - 32] else [small]
  else
    let small := Text.variants (Text.lowerCode c.toNat)
    small ++ small.flatMap Text.capitals

def SetItem.holdsFolded (ascii : Bool) (c : Char) : SetItem → Bool
  | .single code => (caseVariants ascii c).contains code
  | .range low high => (caseVariants ascii c).any fun code => low ≤ code && code ≤ high
  | .category k negated =>
    k.holds ascii
      (Char.ofNat (if ascii then lowerAscii c.toNat else Text.lowerCode c.toNat)) != negated

def setHolds (flags : Flags) (negated : Bool) (items : List SetItem) (c : Char) : Bool :=
  (if flags.ignoreCase then items.any (·.holdsFolded flags.ascii c)
    else items.any (·.holds flags.ascii c)) != negated

def sameChar (flags : Flags) (a b : Char) : Bool :=
  if flags.ignoreCase then (caseVariants flags.ascii a).contains b.toNat else a == b

section

variable (text : Array Char)

def wordAt (flags : Flags) (n : Nat) : Bool :=
  match text[n]? with
  | some c => Category.word.holds flags.ascii c
  | none => false

def Anchor.holds (flags : Flags) (n : Nat) : Anchor → Bool
  | .textStart => n == 0
  | .textEnd => n == text.size
  | .lineStart => n == 0 || (flags.multiline && text[n - 1]? == some '\n')
  | .lineEnd =>
    if flags.multiline then n == text.size || text[n]? == some '\n'
    else n == text.size || (n + 1 == text.size && text[n]? == some '\n')
  | .wordEdge => ((n != 0 && wordAt text flags (n - 1)) != wordAt text flags n) && text.size != 0
  | .insideWord => ((n != 0 && wordAt text flags (n - 1)) == wordAt text flags n) && text.size != 0

def matchChar (p : Char → Bool) : Matcher := fun s k =>
  match text[s.position]? with
  | some c => if p c then k { s with position := s.position + 1 } else none
  | none => none

def matchSame (flags : Flags) : Nat → Nat → Progress → Option Progress
  | 0, _, s => some s
  | n + 1, start, s =>
    match text[start]?, text[s.position]? with
    | some a, some b =>
      if sameChar flags a b then matchSame flags n (start + 1) { s with position := s.position + 1 }
      else none
    | _, _ => none

end

/-- Repeats a part from the least count upwards or from the most downwards. `count` rounds are done,
and the last round that was not required started at `start`. -/
def repeatFrom (body : Matcher) (eager : Bool) (min : Nat) (max : Option Nat) (k : Rest) :
    Nat → Nat → Option Nat → Progress → Option Progress
  | 0, _, _, s => k s
  | fuel + 1, count, start, s =>
    if count < min then
      body s fun s' => repeatFrom body eager min max k fuel (count + 1) start s'
    else
      let more := fun (_ : Unit) =>
        if (max.any (· ≤ count)) || start == some s.position then none
        else body s fun s' =>
          repeatFrom body eager min max k fuel (count + 1) (some s.position) s'
      if eager then
        match more () with
        | some r => some r
        | none => k s
      else
        match k s with
        | some r => some r
        | none => more ()

def repeatAll (body : Matcher) (min : Nat) (max : Option Nat) :
    Nat → Nat → Option Nat → Progress → Option Progress
  | 0, _, _, s => some s
  | fuel + 1, count, start, s =>
    if count < min then
      match body s some with
      | some s' => repeatAll body min max fuel (count + 1) start s'
      | none => none
    else if (max.any (· ≤ count)) || start == some s.position then some s
    else
      match body s some with
      | some s' => repeatAll body min max fuel (count + 1) (some s.position) s'
      | none => some s

/-- How many characters from a position on have a property, at most so many. -/
def runLength (text : Array Char) (p : Char → Bool) : Nat → Nat → Nat
  | 0, _ => 0
  | limit + 1, n =>
    match text[n]? with
    | some c => if p c then runLength text p limit (n + 1) + 1 else 0
    | none => 0

/-- Tries what follows after `min + extra` characters, then after one less, down to `min`. -/
def tryDown (k : Rest) (s : Progress) (min : Nat) : Nat → Option Progress
  | 0 => k { s with position := s.position + min }
  | extra + 1 =>
    match k { s with position := s.position + min + extra + 1 } with
    | some r => some r
    | none => tryDown k s min extra

/-- The property of the characters that a part matches, if it matches one character. -/
def charTest? (flags : Flags) : Node → Option (Char → Bool)
  | .char code =>
    some fun c => if flags.ignoreCase then (caseVariants flags.ascii c).contains code
      else c.toNat == code
  | .any => some fun c => flags.dotAll || c != '\n'
  | .set negated items => some (setHolds flags negated items)
  | _ => none

mutual

def Node.run (text : Array Char) (flags : Flags) : Node → Matcher
  | .char code => matchChar text ((charTest? flags (.char code)).getD fun _ => false)
  | .any => matchChar text fun c => flags.dotAll || c != '\n'
  | .set negated items => matchChar text (setHolds flags negated items)
  | .anchor a => fun s k => if a.holds text flags s.position then k s else none
  | .backref n => fun s k =>
    match s.groups.lookup n with
    | none => none
    | some (start, stop) => (matchSame text flags (stop - start) start s).bind k
  | .branch alternatives => runBranch text flags alternatives
  | .group number on off body => fun s k =>
    runSequence text ((flags.or on).without off) body s fun s' =>
      match number with
      | none => k s'
      | some n =>
        k { s' with
          groups := (n, s.position, s'.position) :: s'.groups.filter (·.1 != n)
          last := some n }
  | .atomic body => fun s k => (runSequence text flags body s some).bind k
  | .look direction negated body => fun s k =>
    let found := match direction with
      | .ahead => runSequence text flags body s some
      | .behind width =>
        if s.position < width then none
        else runSequence text flags body { s with position := s.position - width } some
    match found, negated with
    | none, true => k s
    | some s', false => k { s' with position := s.position }
    | _, _ => none
  | .ifGroup n yes no => fun s k =>
    if (s.groups.lookup n).isSome then runSequence text flags yes s k
    else runSequence text flags no s k
  | .repeated mode min max body => fun s k =>
    let limit := min + (text.size - s.position) + 2
    match mode with
    | .possessive => (repeatAll (runSequence text flags body) min max limit 0 none s).bind k
    | .lazy => repeatFrom (runSequence text flags body) false min max k limit 0 none s
    | .greedy =>
      match body with
      | [one] =>
        match charTest? flags one with
        | some p =>
          -- One character a round: count the characters, then give them back one by one.
          let most := runLength text p (max.getD text.size) s.position
          if most < min then none else tryDown k s min (most - min)
        | none => repeatFrom (runSequence text flags body) true min max k limit 0 none s
      | _ => repeatFrom (runSequence text flags body) true min max k limit 0 none s

def runSequence (text : Array Char) (flags : Flags) : List Node → Matcher
  | [] => fun s k => k s
  | n :: rest => fun s k => n.run text flags s fun s' => runSequence text flags rest s' k

def runBranch (text : Array Char) (flags : Flags) : List (List Node) → Matcher
  | [] => fun _ _ => none
  | a :: rest => fun s k =>
    match runSequence text flags a s k with
    | some r => some r
    | none => runBranch text flags rest s k

end

structure Match where
  stop : Nat
  last : Option Nat
  deriving Repr

def Compiled.matchAt (p : Compiled) (text : Array Char) (start : Nat) : Option Match :=
  (runSequence text p.flags p.body ⟨start, [], none⟩ some).map fun s => ⟨s.position, s.last⟩

def Compiled.matchesEmpty (p : Compiled) : Bool :=
  (p.matchAt #[] 0).isSome

end LangKit.Pattern

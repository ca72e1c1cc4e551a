import LangKit.Pattern.Basic

/-!
# The width of a pattern

The least and the most characters that a pattern can match. A pattern that looks back needs them to
be the same. The width of what a group has matched is that of the group.
-/

namespace LangKit.Pattern

abbrev Width := Nat × Nat

def maxWidth : Nat := 1 <<< 64

def maxRepeat : Nat := (1 <<< 32) - 1

def repeatWidth (min : Nat) (max : Option Nat) (w : Width) : Width :=
  let high := match max with
    | none => if w.2 == 0 then 0 else maxWidth
    | some n => w.2 * n
  (w.1 * min, high)

def eitherWidth (a b : Width) : Width :=
  (min a.1 b.1, max a.2 b.2)

def thenWidth (a b : Width) : Width :=
  (min (a.1 + b.1) maxWidth, min (a.2 + b.2) maxWidth)

mutual

def Node.width (groups : Nat → Width) : Node → Width
  | .char _ | .any | .set _ _ => (1, 1)
  | .anchor _ | .look _ _ _ => (0, 0)
  | .backref n => groups n
  | .branch alternatives => branchWidth groups alternatives
  | .group _ _ _ body | .atomic body => sequenceWidth groups body
  | .ifGroup _ yes no => eitherWidth (sequenceWidth groups yes) (sequenceWidth groups no)
  | .repeated _ min max body => repeatWidth min max (sequenceWidth groups body)

def sequenceWidth (groups : Nat → Width) : List Node → Width
  | [] => (0, 0)
  | n :: rest => thenWidth (n.width groups) (sequenceWidth groups rest)

def branchWidth (groups : Nat → Width) : List (List Node) → Width
  | [] => (maxWidth, 0)
  | a :: rest => eitherWidth (sequenceWidth groups a) (branchWidth groups rest)

end

end LangKit.Pattern

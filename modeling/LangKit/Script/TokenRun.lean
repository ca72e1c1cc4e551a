import LangKit.Script.Scan
import LangKit.Fault

/-!
# The tokens of a text

All tokens of a text with what the scanner prints on the way, where it stands in the end, and the
fault that stopped it, if one did.
-/

namespace LangKit.Script

structure TokenRun where
  tokens : List Token
  printed : String
  line : Nat
  position : Nat
  fault : Option Fault
  deriving Repr

/-- Takes one more event into account; the last token comes first. -/
def TokenRun.add (r : TokenRun) : Event → TokenRun
  | .token t after => { r with tokens := t :: r.tokens, line := t.line, position := after }
  | .illegal c => { r with printed := r.printed ++ illegalMessage c ++ "\n" }
  | .overlong digits line after =>
    { r with line, position := after, fault := some (.overlongInteger digits) }
  | .done line after => { r with line, position := after }

def tokenRun (text : String) : TokenRun :=
  let r := (scan text).foldl TokenRun.add ⟨[], "", 1, 0, none⟩
  { r with tokens := r.tokens.reverse }

end LangKit.Script

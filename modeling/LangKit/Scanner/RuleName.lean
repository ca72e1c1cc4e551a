import LangKit.Fault

/-!
# Names of scanner rules

The name of a scanner rule says in which states it holds and what it makes: `t_comment_END` makes an
`END` in the state `comment`. All states can be named together, and a rule that names none belongs
to the initial state.
-/

namespace LangKit.Scanner

def initialState : String := "INITIAL"

def anyState : String := "ANY"

structure RuleName where
  states : List String
  token : String
  deriving DecidableEq, Repr, Inhabited

/-- How many words at the start are states. The last word is never counted: it belongs to the name
of the token. -/
def stateWords (isState : String → Bool) : List String → Nat
  | [] | [_] => 0
  | w :: rest => if isState w then stateWords isState rest + 1 else 0

def readRuleName (states : List String) (name : String) : Except Fault RuleName :=
  match (name.splitOn "_").drop 1 with
  | [] => .error (.unboundLocal "i")
  | words =>
    let count := stateWords (fun w => states.contains w || w == anyState) words
    let named := words.take count
    let chosen :=
      if count == 0 then [initialState]
      else if named.contains anyState then states
      else named
    .ok ⟨chosen, "_".intercalate (words.drop count)⟩

end LangKit.Scanner

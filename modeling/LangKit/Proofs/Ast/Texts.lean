import LangKit.Proofs.Parser.RoundTrip

/-!
# Properties of programs and of their texts

A property of the syntax trees of programs is one of texts too: a text has it if, as far as it can
be parsed, it is the text of a program that has it. Programs are written down with texts and numbers
that need no proof that they can stand in a program.
-/

namespace LangKit.Script.Ast

def TextHas (P : Program → Bool) (text : String) : Prop :=
  ∀ tree printed, parseProgram text = (.ok tree, printed) → ∃ p : Program, p.tree = tree ∧
    P p = true

theorem parseProgram_of_text (p : Program) : parseProgram p.text = (.ok p.tree, "") := by
  obtain ⟨hfault, hreport, hranked⟩ := p.text_ranked
  obtain ⟨houtcome, hprinted, -⟩ := parse_complete hfault hranked
  rw [parseProgram_of_some houtcome, hprinted, hreport]

theorem textHas_text {P : Program → Bool} (h : P p = true) : TextHas P p.text := by
  intro tree printed hparse
  rw [parseProgram_of_text] at hparse
  obtain rfl : p.tree = tree := Except.ok.inj (Prod.mk.inj hparse).1
  exact ⟨p, rfl, h⟩

/-! ## Writing programs down -/

def Name.of (text : String) : Name :=
  if h : isName text = true then ⟨text, h⟩ else ⟨"_", by decide⟩

/-- The number with a value, and zero if it is too long. -/
def Numeral.of (value : Nat) : Numeral :=
  if h : (Text.Decimal.digits value).length ≤ Text.Decimal.digitLimit then ⟨value, h⟩ else ⟨0,
    by decide⟩

/-- The text between quotes, and nothing if it cannot stand there. -/
def Quotable.of (text : String) : Quotable :=
  if h : isQuotable text = true then ⟨text, h⟩ else ⟨"", by decide⟩

def Expr.variable (name : String) : Expr :=
  .var (.plain (.of name))

end LangKit.Script.Ast

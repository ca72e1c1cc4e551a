import LangKit.Proofs.Parser.Completeness
import LangKit.Proofs.Parser.Spelling

/-!
# Programs are read as they are written

`Program.words` writes a program as words. Parentheses stand only around an operation of a binary
operator that binds less tightly than its place asks for. Such words have a ranked derivation whose
value is the program's tree (`Program.ranked`), and they are sound, so the text of a program is
scanned to its words and parsed to its tree, without an error: `parseProgram_text`.
-/

namespace LangKit.Script

variable {rank rank1 rank2 : Nat} {ws ws' : List Word} {ts : List Tree}
  {t : Tree} {opening closing : TokenKind}

def TokenKind.word (kind : TokenKind) : Word :=
  ⟨kind, .text kind.text⟩

namespace Ast

def Name.word (x : Name) : Word := ⟨.name, .text x.text⟩

def Place.words : Place → List Word
  | .plain x => [x.word]
  | .member x y => [x.word, TokenKind.dot.word, y.word]

def Formal.words (f : Formal) : List Word :=
  if f.byRef then [TokenKind.ref.word, f.name.word] else [f.name.word]

def formalsAfter : List Formal → List Word
  | [] => []
  | f :: fs => TokenKind.comma.word :: (f.words ++ formalsAfter fs)

def formalWords : List Formal → List Word
  | [] => []
  | f :: fs => f.words ++ formalsAfter fs

def between (opening closing : TokenKind) (ws : List Word) : List Word :=
  opening.word :: (ws ++ [closing.word])

abbrev inParens := between .lparen .rparen

abbrev inBraces := between .lbrace .rbrace

mutual

def Expr.words (rank : Nat) : Expr → List Word
  | .int n => [⟨.number, .number n.value⟩]
  | .bool b => [if b then TokenKind.true.word else TokenKind.false.word]
  | .nil => [TokenKind.nil.word]
  | .object => [TokenKind.at.word]
  | .string s => [⟨.string, .text s.text⟩]
  | .var x => x.words
  | .unary op e => op.token.word :: e.words topRank
  | .binary op left right =>
    let ws := left.words op.token.rank ++ op.token.word :: right.words (op.token.rank + 1)
    if rank ≤ op.token.rank then ws else inParens ws
  | .call f args => f.word :: inParens args.words
  | .method object method args =>
    object.word :: TokenKind.dot.word :: method.word :: inParens args.words
  | .lambda formals body =>
    TokenKind.lambda.word :: (inParens (formalWords formals) ++ inBraces body.words)

def Args.words : Args → List Word
  | .nil => []
  | .cons e rest => e.words 0 ++ rest.wordsAfter

def Args.wordsAfter : Args → List Word
  | .nil => []
  | .cons e rest => TokenKind.comma.word :: (e.words 0 ++ rest.wordsAfter)

def Stmt.words : Stmt → List Word
  | .assign x e => x.words ++ TokenKind.assign.word :: (e.words 0 ++ [TokenKind.semi.word])
  | .choice condition body =>
    TokenKind.if.word :: (inParens (condition.words 0) ++ inBraces body.words)
  | .choiceElse condition body other =>
    TokenKind.if.word :: (inParens (condition.words 0) ++ inBraces body.words ++
      TokenKind.else.word :: inBraces other.words)
  | .loop condition body =>
    TokenKind.while.word :: (inParens (condition.words 0) ++ inBraces body.words)
  | .result e => TokenKind.return.word :: (e.words 0 ++ [TokenKind.semi.word])
  | .noResult => [TokenKind.return.word, TokenKind.semi.word]
  | .expr e => e.words 0 ++ [TokenKind.semi.word]

def Block.words : Block → List Word
  | .last s => s.words
  | .cons s rest => s.words ++ rest.words

end

def Function.words (f : Function) : List Word :=
  TokenKind.func.word :: f.name.word :: (inParens (formalWords f.formals) ++ inBraces f.body.words)

def Program.words (p : Program) : List Word :=
  p.functions.flatMap Function.words

def Program.text (p : Program) : String :=
  spell p.words

/-! ## Derivations -/

theorem ranked_of_rule {n : Nat} {r : Rule} {p : Phrase} (hr : rules[n]? = some r)
    (hhead : r.head = p) (hrank : rank ≤ r.rank) (hparts : RankedAll r.parts ws ts)
    (ht : r.meaning ts = t) :
    Ranked rank (.phrase p) ws t := by
  subst hhead ht
  exact .rule hr hrank hparts

/-- The rule of a number. -/
def ruleAt (n : Nat) : Rule := rules.getD n rules[0]

theorem ranked_by (n : Nat) (hrank : rank ≤ (ruleAt n).rank)
    (hparts : RankedAll (ruleAt n).parts ws ts) (hr : rules[n]? = some (ruleAt n) := by rfl) :
    Ranked rank (.phrase (ruleAt n).head) ws ((ruleAt n).meaning ts) :=
  .rule hr hrank hparts

theorem Place.ranked (x : Place) : Ranked topRank (.phrase .variable) x.words (.text x.text) := by
  cases x with
  | plain x => exact ranked_by 16 (Nat.le_refl _) (.cons_word x.word .nil)
  | member x y =>
    exact ranked_by 15 (Nat.le_refl _)
      (.cons_word x.word (.cons_word TokenKind.dot.word (.cons_word y.word .nil)))

theorem Formal.ranked (f : Formal) : Ranked topRank (.phrase .formal) f.words f.tree := by
  obtain ⟨x, byRef⟩ := f
  cases byRef with
  | false => exact ranked_by 10 (Nat.le_refl _) (.cons_word x.word .nil)
  | true =>
    exact ranked_by 11 (Nat.le_refl _)
      (.cons_word TokenKind.ref.word (.cons_word x.word .nil))

theorem formalsAfter_ranked (h : Ranked topRank (.phrase .formals) ws (.list ts)) :
    Ranked topRank (.phrase .formals) (ws ++ formalsAfter fs)
      (.list (ts ++ fs.map Formal.tree)) := by
  induction fs generalizing ws ts with
  | nil => simpa [formalsAfter] using h
  | cons f fs ih =>
    have hnext : Ranked topRank (.phrase .formals) (ws ++ TokenKind.comma.word :: f.words)
        (.list (ts ++ [f.tree])) :=
      ranked_by 8 (Nat.le_refl _)
        (.cons h (.cons_word TokenKind.comma.word (.single f.ranked)))
    have hall := ih hnext
    simpa [formalsAfter] using hall

theorem formalWords_ranked (f : Formal) (fs : List Formal) :
    Ranked topRank (.phrase .formals) (formalWords (f :: fs))
      (.list ((f :: fs).map Formal.tree)) := by
  have hfirst : Ranked topRank (.phrase .formals) f.words (.list [f.tree]) :=
    ranked_by 9 (Nat.le_refl _) (.single f.ranked)
  exact formalsAfter_ranked hfirst

theorem rankedAll_between (h : Ranked rank x ws t)
    (hrest : RankedAll xs ws' ts) :
    RankedAll ((.token opening, rank1) :: (x, rank) :: (.token closing, rank2) :: xs)
      (between opening closing ws ++ ws')
      (.text opening.text :: t :: .text closing.text :: ts) := by
  have hsplit : between opening closing ws ++ ws' = opening.word ::
      (ws ++ closing.word :: ws') := by
    simp [between]
  rw [hsplit]
  exact .cons_word opening.word (.cons h (.cons_word closing.word hrest))

theorem rankedAll_between_nil (h : Ranked rank x ws t) :
    RankedAll [(.token opening, rank1), (x, rank), (.token closing, rank2)]
      (between opening closing ws) [.text opening.text, t, .text closing.text] := by
  rw [← List.append_nil (between opening closing ws)]
  exact rankedAll_between h .nil

def binaryNumber : BinaryOp → Nat
  | .equal => 25
  | .order .greater => 26
  | .order .less => 27
  | .notEqual => 28
  | .order .greaterEqual => 29
  | .order .lessEqual => 30
  | .add => 31
  | .subtract => 32
  | .multiply => 33
  | .divide => 34
  | .or => 36
  | .and => 37

theorem rules_binaryNumber (op : BinaryOp) :
    rules[binaryNumber op]? = some (binaryRule op.token) := by
  cases op with
  | order o => cases o <;> rfl
  | _ => rfl

/-- An operation of a binary operator between operands that bind tightly enough. -/
theorem ranked_binary (op : BinaryOp) {left right : List Word}
    (hleft : Ranked op.token.rank (.phrase .expression) left t)
    (hright : Ranked (op.token.rank + 1) (.phrase .expression) right u)
    (hrank : rank ≤ op.token.rank) :
    Ranked rank (.phrase .expression) (left ++ op.token.word :: right)
      (.node op.nodeKind [("op1", t), ("op2", u)]) := by
  refine ranked_of_rule (rules_binaryNumber op) rfl hrank
    (.cons hleft (.cons_word op.token.word (.single hright))) ?_
  rw [← op.text_token]
  rfl

theorem ranked_unary (op : UnaryOp) (h : Ranked topRank (.phrase .expression) ws t)
    (hrank : rank ≤ topRank) :
    Ranked rank (.phrase .expression) (op.token.word :: ws) (.node op.nodeKind [("op1", t)]) := by
  cases op with
  | negate =>
    exact ranked_by 24 hrank (.cons_word TokenKind.minus.word (.single h))
  | not => exact ranked_by 23 hrank (.cons_word TokenKind.not.word (.single h))

theorem ranked_argument (h : Ranked 0 (.phrase .expression) ws t) :
    Ranked topRank (.phrase .arguments) ws (.list [t]) :=
  ranked_by 51 (Nat.le_refl _) (.single h)

theorem ranked_statement (h : Ranked topRank (.phrase .statement) ws t) :
    Ranked topRank (.phrase .statements) ws (.list [t]) :=
  ranked_by 13 (Nat.le_refl _) (.single h)

mutual

theorem Expr.ranked (e : Expr) {rank : Nat} (hrank : rank ≤ topRank) :
    Ranked rank (.phrase .expression) (e.words rank) e.tree :=
  match e with
  | .int n =>
    ranked_by 38 hrank (.cons_word ⟨.number, .number n.value⟩ .nil)
  | .bool true => ranked_by 40 hrank (.cons_word TokenKind.true.word .nil)
  | .bool false => ranked_by 41 hrank (.cons_word TokenKind.false.word .nil)
  | .nil => ranked_by 42 hrank (.cons_word TokenKind.nil.word .nil)
  | .object => ranked_by 43 hrank (.cons_word TokenKind.at.word .nil)
  | .string s => ranked_by 44 hrank (.cons_word ⟨.string, .text s.text⟩ .nil)
  | .var x => ranked_by 45 hrank (.single x.ranked)
  | .unary op e => ranked_unary op (e.ranked (Nat.le_refl _)) hrank
  | .binary op left right => by
    have hleft : Ranked op.token.rank (.phrase .expression) (left.words op.token.rank) left.tree :=
      left.ranked (Nat.le_of_lt op.token.rank_lt)
    have hright : Ranked (op.token.rank + 1) (.phrase .expression)
        (right.words (op.token.rank + 1)) right.tree := right.ranked op.token.rank_lt
    simp only [Expr.words]
    split
    · next hle => exact ranked_binary op hleft hright hle
    · exact ranked_by 35 hrank
        (rankedAll_between_nil (ranked_binary op hleft hright (Nat.zero_le _)))
  | .call f .nil =>
    ranked_by 47 hrank (.cons_word f.word
      (.cons_word TokenKind.lparen.word (.cons_word TokenKind.rparen.word .nil)))
  | .call f (.cons e rest) =>
    ranked_by 46 hrank
      (.cons_word f.word (rankedAll_between_nil
        (rest.after_ranked (ranked_argument (e.ranked (Nat.zero_le _))))))
  | .method object method .nil =>
    ranked_by 49 hrank (.cons_word object.word
      (.cons_word TokenKind.dot.word (.cons_word method.word
        (.cons_word TokenKind.lparen.word (.cons_word TokenKind.rparen.word .nil)))))
  | .method object method (.cons e rest) =>
    ranked_by 48 hrank (.cons_word object.word
      (.cons_word TokenKind.dot.word (.cons_word method.word
        (rankedAll_between_nil (rest.after_ranked (ranked_argument (e.ranked (Nat.zero_le _))))))))
  | .lambda [] body => by
    have hlambda : Ranked topRank (.phrase .lambda) ((Expr.lambda [] body).words rank)
        (Expr.lambda [] body).tree :=
      ranked_by 7 (Nat.le_refl _) (.cons_word TokenKind.lambda.word
        (.cons_word TokenKind.lparen.word (.cons_word TokenKind.rparen.word
          (rankedAll_between_nil body.ranked))))
    exact ranked_by 39 hrank (.single hlambda)
  | .lambda (f :: fs) body => by
    have hlambda : Ranked topRank (.phrase .lambda) ((Expr.lambda (f :: fs) body).words rank)
        (Expr.lambda (f :: fs) body).tree :=
      ranked_by 6 (Nat.le_refl _) (.cons_word TokenKind.lambda.word
        (rankedAll_between (formalWords_ranked f fs) (rankedAll_between_nil body.ranked)))
    exact ranked_by 39 hrank (.single hlambda)

theorem Args.after_ranked (args : Args) {ws : List Word} {ts : List Tree}
    (h : Ranked topRank (.phrase .arguments) ws (.list ts)) :
    Ranked topRank (.phrase .arguments) (ws ++ args.wordsAfter) (.list (ts ++ args.trees)) :=
  match args with
  | .nil => by simpa [Args.wordsAfter, Args.trees] using h
  | .cons e rest => by
    have hnext : Ranked topRank (.phrase .arguments) (ws ++ TokenKind.comma.word :: e.words 0)
        (.list (ts ++ [e.tree])) :=
      ranked_by 50 (Nat.le_refl _)
        (.cons h (.cons_word TokenKind.comma.word (.single (e.ranked (Nat.zero_le _)))))
    have hall := rest.after_ranked hnext
    simpa [Args.wordsAfter, Args.trees] using hall

theorem Stmt.ranked (s : Stmt) : Ranked topRank (.phrase .statement) s.words s.tree :=
  match s with
  | .assign x e =>
    ranked_by 14 (Nat.le_refl _) (.cons x.ranked
      (.cons_word TokenKind.assign.word (.cons (e.ranked (Nat.zero_le _))
        (.cons_word TokenKind.semi.word .nil))))
  | .choice condition body =>
    ranked_by 17 (Nat.le_refl _) (.cons_word TokenKind.if.word
      (rankedAll_between (condition.ranked (Nat.zero_le _)) (rankedAll_between_nil body.ranked)))
  | .choiceElse condition body other => by
    rw [Stmt.words, List.append_assoc]
    exact ranked_by 18 (Nat.le_refl _) (.cons_word TokenKind.if.word
      (rankedAll_between (condition.ranked (Nat.zero_le _)) (rankedAll_between body.ranked
        (.cons_word TokenKind.else.word (rankedAll_between_nil other.ranked)))))
  | .loop condition body =>
    ranked_by 19 (Nat.le_refl _) (.cons_word TokenKind.while.word
      (rankedAll_between (condition.ranked (Nat.zero_le _)) (rankedAll_between_nil body.ranked)))
  | .result e =>
    ranked_by 21 (Nat.le_refl _) (.cons_word TokenKind.return.word
      (.cons (e.ranked (Nat.zero_le _)) (.cons_word TokenKind.semi.word .nil)))
  | .noResult =>
    ranked_by 22 (Nat.le_refl _) (.cons_word TokenKind.return.word
      (.cons_word TokenKind.semi.word .nil))
  | .expr e =>
    ranked_by 20 (Nat.le_refl _) (.cons (e.ranked (Nat.zero_le _))
      (.cons_word TokenKind.semi.word .nil))

theorem Block.ranked (b : Block) : Ranked topRank (.phrase .statements) b.words (.list b.trees) :=
  match b with
  | .last s => ranked_statement s.ranked
  | .cons s rest => rest.after_ranked (ranked_statement s.ranked)

theorem Block.after_ranked (b : Block) {ws : List Word} {ts : List Tree}
    (h : Ranked topRank (.phrase .statements) ws (.list ts)) :
    Ranked topRank (.phrase .statements) (ws ++ b.words) (.list (ts ++ b.trees)) :=
  match b with
  | .last s => ranked_by 12 (Nat.le_refl _) (.cons h (.single s.ranked))
  | .cons s rest => by
    have hnext : Ranked topRank (.phrase .statements) (ws ++ s.words) (.list (ts ++ [s.tree])) :=
      ranked_by 12 (Nat.le_refl _) (.cons h (.single s.ranked))
    have hall := rest.after_ranked hnext
    simpa [Block.words, Block.trees] using hall

end

theorem Function.ranked (f : Function) : Ranked topRank (.phrase .function) f.words f.tree := by
  obtain ⟨name, formals, body⟩ := f
  cases formals with
  | nil =>
    exact ranked_by 5 (Nat.le_refl _) (.cons_word TokenKind.func.word
      (.cons_word name.word (.cons_word TokenKind.lparen.word (.cons_word TokenKind.rparen.word
        (rankedAll_between_nil body.ranked)))))
  | cons f fs =>
    exact ranked_by 4 (Nat.le_refl _) (.cons_word TokenKind.func.word
      (.cons_word name.word (rankedAll_between (formalWords_ranked f fs)
        (rankedAll_between_nil body.ranked))))

theorem functions_ranked {fs : List Function}
    (h : Ranked topRank (.phrase .functions) ws (.list ts)) :
    Ranked topRank (.phrase .functions) (ws ++ fs.flatMap Function.words)
      (.list (ts ++ fs.map Function.tree)) := by
  induction fs generalizing ws ts with
  | nil => simpa using h
  | cons f fs ih =>
    have hnext : Ranked topRank (.phrase .functions) (ws ++ f.words) (.list (ts ++ [f.tree])) :=
      ranked_by 2 (Nat.le_refl _) (.cons h (.single f.ranked))
    have hall := ih hnext
    simpa using hall

theorem Program.ranked (p : Program) : Ranked topRank (.phrase .program) p.words p.tree := by
  have hfirst : Ranked topRank (.phrase .functions) p.first.words (.list [p.first.tree]) :=
    ranked_by 3 (Nat.le_refl _) (.single p.first.ranked)
  have hall : Ranked topRank (.phrase .functions) p.words (.list (p.functions.map Function.tree)) :=
    functions_ranked hfirst
  exact ranked_by 1 (Nat.le_refl _) (.single hall)

/-! ## The words are sound -/

theorem sound_word (kind : TokenKind) (h : kind.text ≠ "") : Sound kind.word := by
  unfold TokenKind.word
  unfold TokenKind.text at h ⊢
  cases hf : (TokenKind.reserved ++ TokenKind.signs).find? (·.2 == kind) with
  | none => simp [hf] at h
  | some e =>
    have hkind := List.find?_some hf
    have hmem := List.mem_of_find?_eq_some hf
    obtain ⟨s, kind'⟩ := e
    obtain rfl : kind' = kind := by simpa using hkind
    rcases List.mem_append.mp hmem with hmem | hmem
    · exact .reserved hmem
    · exact .sign hmem

def AllSound (ws : List Word) : Prop :=
  ∀ w ∈ ws, Sound w

@[simp] theorem allSound_nil : AllSound [] := by
  simp [AllSound]

@[simp] theorem allSound_cons : AllSound (w :: ws) ↔ Sound w ∧ AllSound ws := by
  simp [AllSound]

@[simp] theorem allSound_append : AllSound (ws ++ ws') ↔ AllSound ws ∧ AllSound ws' := by
  simp [AllSound, or_imp, forall_and]

@[simp] theorem allSound_between :
    AllSound (between opening closing ws) ↔
    Sound opening.word ∧ AllSound ws ∧ Sound closing.word := by
  simp [between]

theorem Place.sound (x : Place) : AllSound x.words := by
  cases x <;> simp (disch := decide) [Place.words, Name.word, Sound.name, sound_word]

theorem Formal.sound (f : Formal) : AllSound f.words := by
  obtain ⟨x, byRef⟩ := f
  cases byRef <;> simp (disch := decide) [Formal.words, Name.word, Sound.name, sound_word]

theorem formalsAfter_sound (fs : List Formal) : AllSound (formalsAfter fs) := by
  induction fs with
  | nil => simp [formalsAfter]
  | cons f fs ih => simp (disch := decide) [formalsAfter, f.sound, ih, sound_word]

theorem formalWords_sound (fs : List Formal) : AllSound (formalWords fs) := by
  cases fs with
  | nil => simp [formalWords]
  | cons f fs => simp [formalWords, f.sound, formalsAfter_sound fs]

theorem binary_sound (op : BinaryOp) : Sound op.token.word := by
  refine sound_word op.token ?_
  cases op with
  | order o => cases o <;> decide
  | _ => decide

theorem unary_sound (op : UnaryOp) : Sound op.token.word := by
  refine sound_word op.token ?_
  cases op <;> decide

mutual

theorem Expr.sound (e : Expr) (rank : Nat) : AllSound (e.words rank) := by
  match e with
  | .int n => simp [Expr.words, Sound.number]
  | .bool true | .bool false | .nil | .object => simp (disch := decide) [Expr.words, sound_word]
  | .string s => simp [Expr.words, Sound.string]
  | .var x => exact x.sound
  | .unary op e => simp [Expr.words, unary_sound op, e.sound topRank]
  | .binary op left right =>
    simp only [Expr.words]
    split <;> simp (disch := decide) [sound_word, binary_sound op, left.sound, right.sound]
  | .call f args =>
    simp (disch := decide) [Expr.words, Name.word, Sound.name, sound_word, args.sound]
  | .method object method args =>
    simp (disch := decide) [Expr.words, Name.word, Sound.name, sound_word, args.sound]
  | .lambda formals body =>
    simp (disch := decide) [Expr.words, sound_word, formalWords_sound formals, body.sound]

theorem Args.sound (args : Args) : AllSound args.words := by
  match args with
  | .nil => exact allSound_nil
  | .cons e rest => exact allSound_append.mpr ⟨e.sound 0, rest.sound_after⟩

theorem Args.sound_after (args : Args) : AllSound args.wordsAfter := by
  match args with
  | .nil => exact allSound_nil
  | .cons e rest =>
    simp (disch := decide) [Args.wordsAfter, sound_word, e.sound 0, rest.sound_after]

theorem Stmt.sound (s : Stmt) : AllSound s.words := by
  match s with
  | .assign x e => simp (disch := decide) [Stmt.words, sound_word, x.sound, e.sound 0]
  | .choice condition body | .loop condition body =>
    simp (disch := decide) [Stmt.words, sound_word, condition.sound 0, body.sound]
  | .choiceElse condition body other =>
    simp (disch := decide) [Stmt.words, sound_word, condition.sound 0, body.sound, other.sound]
  | .result e | .expr e => simp (disch := decide) [Stmt.words, sound_word, e.sound 0]
  | .noResult => simp (disch := decide) [Stmt.words, sound_word]

theorem Block.sound (b : Block) : AllSound b.words := by
  match b with
  | .last s => exact s.sound
  | .cons s rest => exact allSound_append.mpr ⟨s.sound, rest.sound⟩

end

theorem Function.sound (f : Function) : AllSound f.words := by
  simp (disch := decide) [Function.words, Name.word, Sound.name, sound_word,
    formalWords_sound f.formals, f.body.sound]

theorem Program.sound (p : Program) : AllSound p.words := by
  intro w hw
  obtain ⟨f, _, hw⟩ := List.mem_flatMap.mp hw
  exact f.sound w hw

/-! ## Round trip -/

theorem Program.text_ranked (p : Program) :
    (tokenRun p.text).fault = none ∧ reportOf (scan p.text) = "" ∧
      Ranked topRank (.phrase .program) (wordsOfText p.text) p.tree := by
  obtain ⟨hfault, hwords, hreport⟩ := scan_spell p.sound
  exact ⟨hfault, hreport, hwords.symm ▸ p.ranked⟩

/-- The text of a program is parsed to the program's tree. The error handler is not called, and
nothing is printed. -/
theorem parseProgram_text (p : Program) :
    parseProgram p.text = (.ok p.tree, "") ∧ errorCalls p.text = [] := by
  obtain ⟨hfault, hreport, hranked⟩ := p.text_ranked
  obtain ⟨houtcome, hprinted, hcalls⟩ := parse_complete hfault hranked
  refine ⟨?_, hcalls⟩
  rw [parseProgram_of_some houtcome, hprinted, hreport]

example : spell ((Expr.binary .multiply (.binary .add .nil .nil) (.unary .negate .nil)).words 0) =
    "( nil + nil ) * - nil" := by
  decide +kernel

end Ast

end LangKit.Script

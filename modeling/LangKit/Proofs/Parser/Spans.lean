import LangKit.Proofs.Parser.Spelling

/-!
# What scanning makes of every character

A text is cut into pieces that follow each other without a gap: tokens, blanks, comments, and single
characters that start nothing. Scanning reports the tokens and the characters that start nothing,
each at its place, and passes over the rest (`scanFrom_pieces`). The pieces are all there is, so
nothing of a text is lost: `tokenRun_account`.
-/

namespace LangKit.Script

/-! ## Pieces -/

inductive Part
  | token (t : Token)
  | blank
  | comment
  | illegal (c : Char)

/-- A piece of a text, from one position up to another. -/
structure Piece where
  part : Part
  start : Nat
  stop : Nat

/-- The characters from one position up to another. -/
def between (cs : List Char) (start stop : Nat) : List Char :=
  (cs.drop start).take (stop - start)

/-- The value of a token is what stands in its span: the number for digits, what is between the
quotes for a quoted text, and the text itself for all others. -/
def Token.Spells (t : Token) (span : List Char) : Prop :=
  match t.kind with
  | .number => t.value = .number (numberValue span)
  | .string => ∃ inside, span = '"' :: inside ++ ['"'] ∧ t.value = .text (String.ofList inside)
  | _ => t.value = .text (String.ofList span)

/-- A piece is what it is said to be. Lines count from one, so the line of a token is one more than
the number of line feeds before it. -/
def Piece.Fits (cs : List Char) (p : Piece) : Prop :=
  match p.part with
  | .token t => t.start = p.start ∧ t.line = 1 + (cs.take p.start).count '\n' ∧
      Written t.kind (between cs p.start p.stop) ∧ t.Spells (between cs p.start p.stop)
  | .blank => ∀ c ∈ between cs p.start p.stop, IsBlank c
  | .comment => IsComment (between cs p.start p.stop)
  | .illegal c => between cs p.start p.stop = [c] ∧ StartsNothing c (cs.drop p.stop)

def Piece.token? (p : Piece) : Option Token :=
  match p.part with
  | .token t => some t
  | _ => none

def Piece.illegal? (p : Piece) : Option Char :=
  match p.part with
  | .illegal c => some c
  | _ => none

def Piece.event? (p : Piece) : Option Event :=
  match p.part with
  | .token t => some (.token t p.stop)
  | .illegal c => some (.illegal c)
  | .blank => none
  | .comment => none

/-- Pieces that follow each other, the first from one position on and the last up to another. -/
inductive Tiles : Nat → List Piece → Nat → Prop
  | nil {a : Nat} : Tiles a [] a
  | cons {p : Piece} {ps : List Piece} {b : Nat} (nonempty : p.start < p.stop)
      (rest : Tiles p.stop ps b) : Tiles p.start (p :: ps) b

variable {a b n : Nat} {ps : List Piece} {c : Char} {cs rest span text : List Char} {form : Form}

theorem Tiles.le (h : Tiles a ps b) : a ≤ b := by
  induction h with
  | nil => exact Nat.le_refl _
  | cons nonempty _ ih => exact Nat.le_trans (Nat.le_of_lt nonempty) ih

theorem Tiles.inside (h : Tiles a ps b) :
    ∀ p ∈ ps, a ≤ p.start ∧ p.start < p.stop ∧ p.stop ≤ b := by
  induction h with
  | nil => simp
  | cons nonempty rest ih =>
    intro q hq
    rcases List.mem_cons.mp hq with rfl | hq
    · exact ⟨Nat.le_refl _, nonempty, rest.le⟩
    · obtain ⟨hstart, hlt, hstop⟩ := ih q hq
      exact ⟨Nat.le_trans (Nat.le_of_lt nonempty) hstart, hlt, hstop⟩

theorem Tiles.ordered (h : Tiles a ps b) : ps.Pairwise fun p q => p.stop ≤ q.start := by
  induction h with
  | nil => exact .nil
  | cons _ rest ih => exact .cons (fun q hq => (rest.inside q hq).1) ih

theorem Tiles.covers (h : Tiles a ps b) (ha : a ≤ i) (hb : i < b) :
    ∃ p ∈ ps, p.start ≤ i ∧ i < p.stop := by
  induction h with
  | nil => omega
  | @cons p ps b _ _ ih =>
    by_cases hi : i < p.stop
    · exact ⟨p, List.mem_cons_self, ha, hi⟩
    · obtain ⟨q, hq, hin⟩ := ih (Nat.not_lt.mp hi) hb
      exact ⟨q, List.mem_cons_of_mem p hq, hin⟩

/-! ## Scanning piece by piece -/

/-- What a lexeme is as a piece. A number that is too long is no piece. -/
def Lexeme.part? (l : Lexeme) (text : List Char) (line pos : Nat) : Option Part :=
  match l.form with
  | .blank | .newline => some .blank
  | .comment => some .comment
  | .illegal => text.head?.map .illegal
  | _ => (l.token? text line pos).map .token

/-- No number of a text has too many digits. -/
def ShortNumbers (cs : List Char) : Prop :=
  ∀ run, run <:+: cs → (∀ c ∈ run, Text.isDigit c = true) → run.length ≤ Text.Decimal.digitLimit

theorem shortNumbers_of_length (h : cs.length ≤ Text.Decimal.digitLimit) : ShortNumbers cs :=
  fun _ hrun _ => Nat.le_trans hrun.length_le h

theorem ShortNumbers.drop {cs : List Char} (h : ShortNumbers cs) (n : Nat) :
    ShortNumbers (cs.drop n) :=
  fun run hrun => h run (hrun.trans (List.drop_suffix n cs).isInfix)

theorem ofWord_cases (s : String) :
    TokenKind.ofWord s ≠ .number ∧ TokenKind.ofWord s ≠ .string := by
  have hall : TokenKind.reserved.all (fun e => e.2 != .number && e.2 != .string) = true := by decide
  unfold TokenKind.ofWord
  cases hl : TokenKind.reserved.lookup s with
  | none => exact ⟨by decide, by decide⟩
  | some kind =>
    obtain ⟨l1, l2, hl, _⟩ := List.lookup_eq_some_iff.mp hl
    have hkind := List.all_eq_true.mp hall (s, kind) (by simp [hl])
    simpa using hkind

theorem spells_text {t : Token} (hnumber : t.kind ≠ .number) (hstring : t.kind ≠ .string)
    (hvalue : t.value = .text (String.ofList span)) : t.Spells span := by
  unfold Token.Spells
  split
  · contradiction
  · contradiction
  · exact hvalue

theorem Form.Reads.written (hreads : form.Reads text rest) {line pos : Nat} {t : Token}
    (ht : Lexeme.token? ⟨form, n⟩ text line pos = some t) :
    t.start = pos ∧ t.line = line ∧ Written t.kind text ∧ t.Spells text := by
  cases form with
  | number =>
    simp only [Lexeme.token?] at ht
    split at ht
    · cases ht
    · cases ht
      exact ⟨rfl, rfl, .number hreads.1 hreads.2, rfl⟩
  | word =>
    cases ht
    obtain ⟨c, cs, rfl, hc, hcs⟩ := hreads
    exact ⟨rfl, rfl, .word hc hcs, spells_text (ofWord_cases _).1 (ofWord_cases _).2 rfl⟩
  | string =>
    obtain ⟨inside, rfl, hplain⟩ := hreads
    cases ht
    exact ⟨rfl, rfl, .string hplain, inside, rfl, by simp⟩
  | operator kind =>
    have hsigns : ∀ e ∈ TokenKind.signs, e.2 ≠ .number ∧ e.2 ≠ .string := by decide
    cases ht
    rcases hreads with hmem | ⟨rfl, rfl⟩
    · exact ⟨rfl, rfl, .sign hmem, spells_text (hsigns _ hmem).1 (hsigns _ hmem).2 rfl⟩
    · exact ⟨rfl, rfl, .quote, rfl⟩
  | _ => cases ht

/-- Scanning takes one piece off the front of a text and reports it. -/
theorem scanFrom_piece (hshort : ShortNumbers (c :: rest)) (line pos : Nat) :
    ∃ part, (lexemeAt c rest).part? (c :: rest.take (lexemeAt c rest).extra) line pos = some part ∧
      scanFrom line pos (c :: rest) =
        (Piece.event? ⟨part, pos, pos + 1 + (lexemeAt c rest).extra⟩).toList ++
          scanFrom (line + (c :: rest.take (lexemeAt c rest).extra).count '\n')
            (pos + 1 + (lexemeAt c rest).extra) (rest.drop (lexemeAt c rest).extra) := by
  rw [scanFrom]
  cases hl : lexemeAt c rest with
  | mk form n =>
    rw [← lines_eq_count (lexemeAt_reads hl).2]
    cases form with
    | number =>
      have hdigits : (c :: rest.take n).length ≤ Text.Decimal.digitLimit :=
        hshort _ (List.prefix_cons_inj c |>.mpr (List.take_prefix n rest)).isInfix
          (lexemeAt_reads hl).2.2
      have hnot := Nat.not_lt.mpr hdigits
      simp only [Lexeme.part?, Lexeme.token?, if_neg hnot]
      exact ⟨_, rfl, rfl⟩
    | _ => exact ⟨_, rfl, rfl⟩

theorem fits_part? {before : List Char} {part : Part}
    (hpart : (lexemeAt c rest).part? (c :: rest.take (lexemeAt c rest).extra)
      (1 + before.count '\n') before.length = some part) :
    Piece.Fits (before ++ c :: rest)
      ⟨part, before.length, before.length + 1 + (lexemeAt c rest).extra⟩ := by
  cases hl : lexemeAt c rest with
  | mk form n =>
    obtain ⟨-, hreads⟩ := lexemeAt_reads hl
    have hspan : between (before ++ c :: rest) before.length (before.length + 1 + n) =
        c :: rest.take n := by
      rw [between, List.drop_left, Nat.add_assoc, Nat.add_sub_cancel_left, Nat.add_comm 1 n,
        List.take_succ_cons]
    have htake : (before ++ c :: rest).take before.length = before := List.take_left
    have htoken : ∀ t, Lexeme.token? ⟨form, n⟩ (c :: rest.take n) (1 + before.count '\n')
        before.length = some t →
        Piece.Fits (before ++ c :: rest) ⟨.token t, before.length, before.length + 1 + n⟩ := by
      intro t ht
      simp only [Piece.Fits, hspan, htake]
      exact hreads.written ht
    rw [hl] at hpart
    cases form with
    | blank =>
      cases hpart
      simp only [Piece.Fits, hspan]
      rcases hreads with h | h <;> simp [h, IsBlank]
    | newline =>
      cases hpart
      simp only [Piece.Fits, hspan]
      exact fun d hd => .inr (.inr (hreads d hd))
    | comment =>
      cases hpart
      simp only [Piece.Fits, hspan]
      exact hreads
    | illegal =>
      cases hpart
      obtain ⟨d, hone, hnothing⟩ := hreads
      have hdrop : (before ++ c :: rest).drop (before.length + 1 + n) = rest.drop n := by
        simp [List.drop_append, Nat.add_assoc, Nat.add_comm 1 n]
      obtain ⟨rfl, -⟩ := List.cons.inj hone
      simp only [Piece.Fits, hspan, hdrop]
      exact ⟨hone, hnothing⟩
    | _ =>
      simp only [Lexeme.part?, Option.map_eq_some_iff] at hpart
      obtain ⟨t, ht, rfl⟩ := hpart
      exact htoken t ht

theorem scanFrom_pieces (hshort : ShortNumbers rest) (before : List Char) :
    ∃ pieces, Tiles before.length pieces (before ++ rest).length ∧
      (∀ p ∈ pieces, p.Fits (before ++ rest)) ∧
      scanFrom (1 + before.count '\n') before.length rest =
        pieces.filterMap Piece.event? ++
          [.done (1 + (before ++ rest).count '\n') ((before ++ rest).length + 1)] := by
  induction rest using lexeme_induction generalizing before with
  | nil =>
    refine ⟨[], ?_, by simp, ?_⟩
    · rw [List.append_nil]
      exact .nil
    · rw [scanFrom, List.append_nil]
      rfl
  | cons c rest ih =>
    obtain ⟨part, hpart, hscan⟩ := scanFrom_piece hshort (1 + before.count '\n') before.length
    have hle : (lexemeAt c rest).extra ≤ rest.length := (lexemeAt_reads rfl).1
    have hfits := fits_part? hpart
    obtain ⟨n, hn⟩ : ∃ n, (lexemeAt c rest).extra = n := ⟨_, rfl⟩
    rw [hn] at hscan hle hfits ih
    have hdrop : ShortNumbers (rest.drop n) := hshort.drop (n + 1)
    have hwhole : before ++ c :: rest.take n ++ rest.drop n = before ++ c :: rest := by
      rw [List.append_assoc, List.cons_append, List.take_append_drop]
    have hlength : (before ++ c :: rest.take n).length = before.length + 1 + n := by
      simp only [List.length_append, List.length_cons, List.length_take]
      omega
    obtain ⟨pieces, htiles, hall, hlater⟩ := ih hdrop (before ++ c :: rest.take n)
    rw [hwhole, hlength] at htiles hlater
    rw [hwhole] at hall
    refine ⟨⟨part, before.length, before.length + 1 + n⟩ :: pieces,
      .cons (p := ⟨part, before.length, before.length + 1 + n⟩) ?_ htiles, ?_, ?_⟩
    · show before.length < before.length + 1 + n
      omega
    · exact List.forall_mem_cons.mpr ⟨hfits, hall⟩
    · rw [hscan, Nat.add_assoc 1, ← List.count_append, hlater]
      cases hevent : Piece.event? ⟨part, before.length, before.length + 1 + n⟩ with
      | none => simp [hevent]
      | some e => simp [hevent]

/-! ## A whole text -/

def illegalLines (cs : List Char) : String :=
  String.join (cs.map fun c => illegalMessage c ++ "\n")

theorem foldl_add_pieces (pieces : List Piece) (r : TokenRun) :
    ∃ line position, (pieces.filterMap Piece.event?).foldl TokenRun.add r =
      ⟨(pieces.filterMap Piece.token?).reverse ++ r.tokens,
        r.printed ++ illegalLines (pieces.filterMap Piece.illegal?), line, position, r.fault⟩ := by
  induction pieces generalizing r with
  | nil => exact ⟨r.line, r.position, by simp [illegalLines]⟩
  | cons p pieces ih =>
    obtain ⟨part, start, stop⟩ := p
    cases part with
    | token t =>
      obtain ⟨line, position, h⟩ := ih (r.add (.token t stop))
      refine ⟨line, position, ?_⟩
      simp only [List.filterMap_cons, Piece.event?, Piece.token?, Piece.illegal?, List.foldl_cons]
      rw [h]
      simp [TokenRun.add]
    | illegal c =>
      obtain ⟨line, position, h⟩ := ih (r.add (.illegal c))
      refine ⟨line, position, ?_⟩
      simp only [List.filterMap_cons, Piece.event?, Piece.token?, Piece.illegal?, List.foldl_cons]
      rw [h]
      simp [TokenRun.add, illegalLines, String.append_assoc]
    | blank | comment => exact ih r

structure Account (text : String) (pieces : List Piece) : Prop where
  inside : ∀ p ∈ pieces, p.start < p.stop ∧ p.stop ≤ text.toList.length
  ordered : pieces.Pairwise fun p q => p.stop ≤ q.start
  covered : ∀ i < text.toList.length, ∃ p ∈ pieces, p.start ≤ i ∧ i < p.stop
  fits : ∀ p ∈ pieces, p.Fits text.toList
  events : scan text = pieces.filterMap Piece.event? ++
    [.done (1 + text.toList.count '\n') (text.toList.length + 1)]
  tokens : (tokenRun text).tokens = pieces.filterMap Piece.token?
  printed : (tokenRun text).printed = illegalLines (pieces.filterMap Piece.illegal?)
  line : (tokenRun text).line = 1 + text.toList.count '\n'
  position : (tokenRun text).position = text.toList.length + 1
  fault : (tokenRun text).fault = none

/-- Scanning loses nothing: in a text without a number that is too long, every character belongs to
a token with its line and its value, is blank, stands in a comment, or starts nothing and is
reported. -/
theorem tokenRun_account (text : String) (hshort : ShortNumbers text.toList) :
    ∃ pieces, Account text pieces := by
  obtain ⟨pieces, htiles, hfits, hscan⟩ := scanFrom_pieces hshort []
  obtain ⟨line, position, hfold⟩ := foldl_add_pieces pieces ⟨[], "", 1, 0, none⟩
  have hevents : scan text = pieces.filterMap Piece.event? ++
      [.done (1 + text.toList.count '\n') (text.toList.length + 1)] := hscan
  have hrun : tokenRun text = ⟨pieces.filterMap Piece.token?,
      illegalLines (pieces.filterMap Piece.illegal?), 1 + text.toList.count '\n',
      text.toList.length + 1, none⟩ := by
    simp [tokenRun, hevents, hfold, TokenRun.add]
  refine ⟨pieces, ⟨fun p hp => (htiles.inside p hp).2, htiles.ordered,
    fun i hi => htiles.covers (Nat.zero_le i) hi, hfits, hevents, ?_, ?_, ?_, ?_, ?_⟩⟩ <;> rw [hrun]

/-- A text with a comment over two lines, a quoted text with a comment mark in it, a character that
starts nothing, and a quote that is not closed. -/
theorem tokenRun_account_mixed :
    ShortNumbers "x1 = 12; # /* a\n*/ \"/*\"\n\"b".toList ∧
      ∃ pieces, Account "x1 = 12; # /* a\n*/ \"/*\"\n\"b" pieces :=
  have hshort := shortNumbers_of_length (by decide)
  ⟨hshort, tokenRun_account _ hshort⟩

end LangKit.Script

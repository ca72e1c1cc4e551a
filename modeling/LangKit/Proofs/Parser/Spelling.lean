import LangKit.Proofs.Ast.Basic
import LangKit.Proofs.Parser.Outcome
import Mathlib.Algebra.Group.Nat.Defs

/-!
# The spelling of words

A word is sound if its value is one that a token of its kind can have: a name, a number of at most
the allowed length, a text without quotes, or the fixed text of a reserved word or a sign. Sound
words are what a scanner gives (`sound_of_scanned`), and writing sound words down with blanks
between them and scanning the text gives them back: `scan_spell`.
-/

namespace LangKit.Script

variable {kind : TokenKind} {c : Char} {cs rest : List Char} {s : String} {form : Form} {n : Nat}
  {ws : List Word}

def TokenKind.text (kind : TokenKind) : String :=
  (((reserved ++ signs).find? (·.2 == kind)).map (·.1)).getD ""

theorem BinaryOp.text_token (op : BinaryOp) : op.token.text = op.nodeKind := by
  cases op with
  | order o => cases o <;> rfl
  | _ => rfl

inductive Sound : Word → Prop
  | name (x : Ast.Name) : Sound ⟨.name, .text x.text⟩
  | number (n : Ast.Numeral) : Sound ⟨.number, .number n.value⟩
  | string (s : Ast.Quotable) : Sound ⟨.string, .text s.text⟩
  | reserved {s : String} {kind : TokenKind} (mem : (s, kind) ∈ TokenKind.reserved) :
      Sound ⟨kind, .text s⟩
  | sign {s : String} {kind : TokenKind} (mem : (s, kind) ∈ TokenKind.signs) : Sound ⟨kind, .text s⟩

def Word.spelling (w : Word) : String :=
  match w.kind, w.value with
  | .string, .text s => "\"" ++ s ++ "\""
  | _, value => value.render

theorem spelling_text (h : kind ≠ .string) (s : String) : Word.spelling ⟨kind, .text s⟩ = s := by
  unfold Word.spelling
  split
  · contradiction
  · rfl

def spell (ws : List Word) : String :=
  " ".intercalate (ws.map Word.spelling)

/-! ## Characters -/

theorem zeroDigits_cases : ∀ z ∈ Text.zeroDigits, z = 0x30 ∨ 128 ≤ z := by
  decide

theorem digitValue?_of_isDigit (h : c.isDigit = true) :
    Text.digitValue? c = some (c.toNat - '0'.toNat) := by
  simp only [Char.isDigit, Bool.and_eq_true, decide_eq_true_eq, UInt32.le_iff_toNat_le] at h
  have hlow : 48 ≤ c.toNat := h.1
  have hhigh : c.toNat ≤ 57 := h.2
  have hfind : Text.zeroDigits.find? (fun z => z ≤ c.toNat && c.toNat < z + 10) = some 0x30 := by
    rw [Text.zeroDigits, List.find?_cons_of_pos]
    simp only [Bool.and_eq_true, decide_eq_true_eq]
    omega
  rw [Text.digitValue?, hfind]
  rfl

theorem isDigit_eq_false_of_isNameStart (h : Text.isNameStart c = true) :
    Text.isDigit c = false := by
  have hrange := Text.toNat_of_isNameStart h
  have hnone : Text.digitValue? c = none := by
    rw [Text.digitValue?, Option.map_eq_none_iff, List.find?_eq_none]
    intro z hz
    have := zeroDigits_cases z hz
    simp only [Bool.and_eq_true, decide_eq_true_eq]
    omega
  rw [Text.isDigit, hnone]
  rfl

/-! ## Lexemes -/

/-- What follows a word in a row of words: nothing or a blank. -/
def Boundary (rest : List Char) : Prop :=
  rest = [] ∨ ∃ more, rest = ' ' :: more

theorem takeWhile_boundary (hcs : ∀ c ∈ cs, p c = true) (hblank : p ' ' = false)
    (hb : Boundary rest) : (cs ++ rest).takeWhile p = cs := by
  rw [List.takeWhile_append_of_pos hcs]
  rcases hb with rfl | ⟨more, rfl⟩
  · simp
  · simp [hblank]

theorem not_blank {p : Char → Bool} (hc : p c = true) (hspace : p ' ' = false)
    (htab : p '\t' = false) :
    (c == ' ' || c == '\t') = false := by
  rw [Bool.or_eq_false_iff, beq_eq_false_iff_ne, beq_eq_false_iff_ne]
  exact ⟨fun h => Bool.false_ne_true (hspace.symm.trans (h ▸ hc)),
    fun h => Bool.false_ne_true (htab.symm.trans (h ▸ hc))⟩

theorem lexemeAt_word (hc : Text.isNameStart c = true) (hcs : ∀ d ∈ cs, Text.isWord d = true)
    (hb : Boundary rest) :
    lexemeAt c (cs ++ rest) = ⟨.word, cs.length⟩ := by
  have hblank := not_blank hc (by decide) (by decide)
  simp only [lexemeAt, hblank, isDigit_eq_false_of_isNameStart hc, hc, Bool.false_eq_true, if_false,
    if_true, takeWhile_boundary hcs (by decide) hb]

theorem lexemeAt_number (hc : Text.isDigit c = true) (hcs : ∀ d ∈ cs, Text.isDigit d = true)
    (hb : Boundary rest) :
    lexemeAt c (cs ++ rest) = ⟨.number, cs.length⟩ := by
  have hblank := not_blank hc (by decide) (by decide)
  simp only [lexemeAt, hblank, hc, Bool.false_eq_true, if_false, if_true,
    takeWhile_boundary hcs (by decide) hb]

theorem lexemeAt_string (h : ∀ c ∈ cs, c ≠ '"' ∧ c ≠ '\n') :
    lexemeAt '"' (cs ++ '"' :: rest) = ⟨.string, cs.length + 1⟩ := by
  have hdigit : Text.isDigit '"' = false := by decide
  have hname : Text.isNameStart '"' = false := by decide
  have hbody : stringBody? (cs ++ '"' :: rest) = some cs.length := stringBody?_append h
  simp [lexemeAt, hdigit, hname, comment?, hbody]

theorem lexemeAt_sign (hmem : (s, kind) ∈ TokenKind.signs) (hs : s.toList = c :: cs)
    (hb : Boundary rest) :
    lexemeAt c (cs ++ rest) = ⟨.operator kind, cs.length⟩ := by
  simp only [TokenKind.signs, List.mem_cons, Prod.mk.injEq, List.not_mem_nil, or_false] at hmem
  rcases hmem with ⟨rfl, rfl⟩ | ⟨rfl, rfl⟩ | ⟨rfl, rfl⟩ | ⟨rfl, rfl⟩ | ⟨rfl, rfl⟩ | ⟨rfl, rfl⟩ |
      ⟨rfl, rfl⟩ | ⟨rfl, rfl⟩ | ⟨rfl, rfl⟩ | ⟨rfl, rfl⟩ | ⟨rfl, rfl⟩ | ⟨rfl, rfl⟩ | ⟨rfl, rfl⟩ |
      ⟨rfl, rfl⟩ | ⟨rfl, rfl⟩ | ⟨rfl, rfl⟩ | ⟨rfl, rfl⟩ | ⟨rfl, rfl⟩ | ⟨rfl, rfl⟩ | ⟨rfl, rfl⟩ |
      ⟨rfl, rfl⟩ | ⟨rfl, rfl⟩ <;>
    cases hs <;> rcases hb with rfl | ⟨more, rfl⟩ <;> rfl

/-! ## Scanning what has been written -/

def Lexeme.token? (l : Lexeme) (text : List Char) (line pos : Nat) : Option Token :=
  match l.form with
  | .blank | .newline | .comment | .illegal => none
  | .number =>
    if Text.Decimal.digitLimit < text.length then none
    else some ⟨.number, .number (numberValue text), line, pos⟩
  | .word => some ⟨.ofWord (String.ofList text), .text (String.ofList text), line, pos⟩
  | .string => some ⟨.string, .text (String.ofList (text.drop 1).dropLast), line, pos⟩
  | .operator kind => some ⟨kind, .text (String.ofList text), line, pos⟩

theorem scanFrom_token (line pos : Nat) (hl : lexemeAt c (cs ++ rest) = ⟨form, cs.length⟩)
    (ht : Lexeme.token? ⟨form, cs.length⟩ (c :: cs) line pos = some t) :
    ∃ after line' pos',
      scanFrom line pos (c :: cs ++ rest) = .token t after :: scanFrom line' pos' rest := by
  refine ⟨pos + 1 + cs.length, line + form.lines (c :: cs), pos + 1 + cs.length, ?_⟩
  rw [List.cons_append, scanFrom]
  simp only [hl, List.take_left, List.drop_left]
  cases form with
  | number =>
    simp only [Lexeme.token?] at ht
    split at ht
    · cases ht
    · next hshort =>
      cases ht
      simp only [if_neg hshort]
  | word => cases ht; rfl
  | string => cases ht; rfl
  | operator kind => cases ht; rfl
  | blank => cases ht
  | newline => cases ht
  | comment => cases ht
  | illegal => cases ht

theorem scanFrom_blank (line pos : Nat) (rest : List Char) :
    scanFrom line pos (' ' :: rest) = scanFrom line (pos + 1) rest := by
  rw [scanFrom]
  rfl

theorem numberValue_digits (n : Nat) : numberValue (Text.Decimal.digits n) = n := by
  have hdigits : Text.Decimal.digits n = Nat.toDigits 10 n := by
    rw [Text.Decimal.digits, Nat.toString_eq_repr, Nat.toList_repr]
  have hmap : (Nat.toDigits 10 n).map (fun c => (Text.digitValue? c).getD 0) =
      (Nat.toDigits 10 n).map fun c => c.toNat - '0'.toNat := by
    refine List.map_congr_left fun c hc => ?_
    rw [digitValue?_of_isDigit (Nat.isDigit_of_mem_toDigits (by decide) (by decide) hc)]
    rfl
  rw [numberValue, hdigits, hmap, Text.Decimal.ofDigits, List.foldl_map]
  exact Nat.ofDigitChars_ten_toDigits

theorem isDigit_of_mem_digits (h : c ∈ Text.Decimal.digits n) : Text.isDigit c = true := by
  rw [Text.Decimal.digits, Nat.toString_eq_repr, Nat.toList_repr] at h
  rw [Text.isDigit, digitValue?_of_isDigit (Nat.isDigit_of_mem_toDigits (by decide) (by decide) h)]
  rfl

theorem reserved_form (h : (s, kind) ∈ TokenKind.reserved) :
    kind ≠ .string ∧ TokenKind.ofWord s = kind ∧ ∃ c cs, s.toList = c :: cs ∧
      Text.isNameStart c = true ∧ ∀ d ∈ cs, Text.isWord d = true := by
  have hall : TokenKind.reserved.all (fun e => e.2 != .string && TokenKind.ofWord e.1 == e.2 &&
      (e.1.toList.head?.any Text.isNameStart && e.1.toList.tail.all Text.isWord)) = true := by
    decide +kernel
  have hs := List.all_eq_true.mp hall (s, kind) h
  simp only [Bool.and_eq_true, beq_iff_eq, bne_iff_ne] at hs
  refine ⟨hs.1.1, hs.1.2, ?_⟩
  cases hl : s.toList with
  | nil => simp [hl] at hs
  | cons c cs =>
    simp only [hl, List.head?_cons, Option.any_some, List.tail_cons, List.all_eq_true] at hs
    exact ⟨c, cs, rfl, hs.2.1, hs.2.2⟩

theorem sign_form (h : (s, kind) ∈ TokenKind.signs) :
    kind ≠ .string ∧ ∃ c cs, s.toList = c :: cs := by
  have hall : TokenKind.signs.all (fun e => e.2 != .string && !e.1.toList.isEmpty) = true := by
    decide +kernel
  have hs := List.all_eq_true.mp hall (s, kind) h
  simp only [Bool.and_eq_true, bne_iff_ne] at hs
  refine ⟨hs.1, ?_⟩
  cases hl : s.toList with
  | nil => simp [hl] at hs
  | cons c cs => exact ⟨c, cs, rfl⟩

theorem scanFrom_word (hs : s.toList = c :: cs) (hc : Text.isNameStart c = true)
    (hcs : ∀ d ∈ cs, Text.isWord d = true) (hb : Boundary rest) (line pos : Nat) :
    ∃ t after line' pos',
      scanFrom line pos (s.toList ++ rest) = .token t after :: scanFrom line' pos' rest ∧
        t.word = ⟨.ofWord s, .text s⟩ := by
  have htext : String.ofList (c :: cs) = s := by
    rw [← hs, String.ofList_toList]
  obtain ⟨after, line', pos', hscan⟩ := scanFrom_token line pos (lexemeAt_word hc hcs hb) rfl
  rw [hs]
  exact ⟨_, after, line', pos', hscan, by rw [Token.word, htext]⟩

theorem scanFrom_number (n : Ast.Numeral) (hb : Boundary rest) (line pos : Nat) :
    ∃ t after line' pos',
      scanFrom line pos ((Word.spelling ⟨.number, .number n.value⟩).toList ++ rest) =
        .token t after :: scanFrom line' pos' rest ∧ t.word = ⟨.number, .number n.value⟩ := by
  have hspelling : (Word.spelling ⟨.number, .number n.value⟩).toList =
    Text.Decimal.digits n.value := rfl
  have hvalue := numberValue_digits n.value
  have hlength := n.valid
  have hdigits := fun c => @isDigit_of_mem_digits c n.value
  rw [hspelling]
  cases hl : Text.Decimal.digits n.value with
  | nil =>
    rw [Text.Decimal.digits, Nat.toString_eq_repr, Nat.toList_repr] at hl
    exact absurd hl Nat.toDigits_ne_nil
  | cons c cs =>
    rw [hl] at hvalue hlength hdigits
    have hlexeme := lexemeAt_number (hdigits c (List.mem_cons_self ..))
      (fun d hd => hdigits d (List.mem_cons_of_mem c hd)) hb
    obtain ⟨after, line', pos', hscan⟩ := scanFrom_token line pos hlexeme
      (if_neg (Nat.not_lt.mpr hlength))
    refine ⟨_, after, line', pos', hscan, ?_⟩
    rw [Token.word, hvalue]

theorem scanFrom_string (s : Ast.Quotable) (rest : List Char) (line pos : Nat) :
    ∃ t after line' pos',
      scanFrom line pos ((Word.spelling ⟨.string, .text s.text⟩).toList ++ rest) =
        .token t after :: scanFrom line' pos' rest ∧ t.word = ⟨.string, .text s.text⟩ := by
  have hchars : ∀ c ∈ s.text.toList, c ≠ '"' ∧ c ≠ '\n' := by
    have hvalid := s.valid
    simpa only [Ast.isQuotable, List.all_eq_true, Bool.and_eq_true, bne_iff_ne] using hvalid
  have hspelling : (Word.spelling ⟨.string, .text s.text⟩).toList = '"' ::
      (s.text.toList ++ ['"']) := by
    simp [Word.spelling]
  have hlexeme : lexemeAt '"' (s.text.toList ++ ['"'] ++ rest) =
      ⟨.string, (s.text.toList ++ ['"']).length⟩ := by
    rw [List.append_assoc, List.length_append]
    exact lexemeAt_string hchars
  obtain ⟨after, line', pos', hscan⟩ := scanFrom_token line pos hlexeme rfl
  rw [hspelling]
  refine ⟨_, after, line', pos', hscan, ?_⟩
  simp [Token.word]

theorem Sound.scanFrom (h : Sound w) {rest : List Char} (hb : Boundary rest)
    (line pos : Nat) :
    ∃ t after line' pos',
      scanFrom line pos (w.spelling.toList ++ rest) = .token t after :: scanFrom line' pos' rest ∧
        t.word = w := by
  cases h with
  | name x =>
    have hvalid := x.valid
    unfold Ast.isName at hvalid
    split at hvalid
    · cases hvalid
    · next c cs hs =>
      simp only [Bool.and_eq_true, List.all_eq_true, Option.isNone_iff_eq_none] at hvalid
      obtain ⟨t, after, line', pos', hscan, hword⟩ :=
        scanFrom_word hs hvalid.1.1 hvalid.1.2 hb line pos
      refine ⟨t, after, line', pos', hscan, ?_⟩
      rw [hword, TokenKind.ofWord, hvalid.2]
      rfl
  | @reserved s kind mem =>
    obtain ⟨hne, hkind, c, cs, hs, hc, hcs⟩ := reserved_form mem
    obtain ⟨t, after, line', pos', hscan, hword⟩ := scanFrom_word hs hc hcs hb line pos
    rw [spelling_text hne]
    exact ⟨t, after, line', pos', hscan, hkind ▸ hword⟩
  | number n => exact scanFrom_number n hb line pos
  | string s => exact scanFrom_string s rest line pos
  | @sign s kind mem =>
    obtain ⟨hne, c, cs, hs⟩ := sign_form mem
    obtain ⟨after, line', pos', hscan⟩ := scanFrom_token line pos (lexemeAt_sign mem hs hb) rfl
    rw [spelling_text hne, hs]
    refine ⟨_, after, line', pos', hscan, ?_⟩
    rw [Token.word, ← hs, String.ofList_toList]

theorem scanFrom_spell (h : ∀ w ∈ ws, Sound w) (line pos : Nat) :
    wordsOf (scanFrom line pos (spell ws).toList) = ws ∧
      readable (scanFrom line pos (spell ws).toList) = true ∧
      reportOf (scanFrom line pos (spell ws).toList) = "" := by
  induction ws generalizing line pos with
  | nil =>
    have hnil : (spell []).toList = [] := rfl
    rw [hnil, scanFrom]
    exact ⟨rfl, rfl, rfl⟩
  | cons w ws ih =>
    have hw := h w (List.mem_cons_self ..)
    have hws := fun line pos => ih (fun v hv => h v (List.mem_cons_of_mem w hv)) line pos
    obtain ⟨rest, hspell, hb, hlater⟩ :
      ∃ rest, (spell (w :: ws)).toList = w.spelling.toList ++ rest ∧
        Boundary rest ∧ ∀ line pos, ∃ line' pos',
          scanFrom line pos rest = scanFrom line' pos' (spell ws).toList := by
      cases ws with
      | nil => exact ⟨[], by simp [spell], .inl rfl, fun line pos => ⟨line, pos, rfl⟩⟩
      | cons v ws =>
        refine ⟨' ' :: (spell (v :: ws)).toList, ?_, .inr ⟨_, rfl⟩, fun line pos =>
          ⟨line, pos + 1, scanFrom_blank line pos _⟩⟩
        simp [spell, String.toList_intercalate]
    obtain ⟨t, after, line', pos', hscan, hword⟩ := hw.scanFrom hb line pos
    obtain ⟨line'', pos'', hrest⟩ := hlater line' pos'
    obtain ⟨hwords, hreadable, hreport⟩ := hws line'' pos''
    rw [hspell, hscan, hrest]
    refine ⟨?_, hreadable, hreport⟩
    show t.word :: wordsOf _ = w :: ws
    rw [hword, hwords]

/-- Sound words that are written down are scanned without a fault and without a report, and come
back as they are. -/
theorem scan_spell (h : ∀ w ∈ ws, Sound w) :
    (tokenRun (spell ws)).fault = none ∧ wordsOfText (spell ws) = ws ∧
    reportOf (scan (spell ws)) = "" := by
  obtain ⟨hwords, hreadable, hreport⟩ := scanFrom_spell h 1 0
  exact ⟨fault_of_readable hreadable, (wordsOfText_eq _).trans hwords, hreport⟩

/-- Scanning undoes spelling: sound words that are written down with blanks between them are the
words of the tokens that are scanned, and nothing is printed. Sound words are there of all kinds but
one, the quotes that open no text. -/
theorem tokenRun_spell :
    (∀ kind : TokenKind, kind ∉ [.name, .number, .string, .quote] → Sound ⟨kind, .text kind.text⟩) ∧
    ∀ ws, (∀ w ∈ ws, Sound w) →
      (tokenRun (spell ws)).tokens.map Token.word = ws ∧ (tokenRun (spell ws)).printed = "" ∧
        (tokenRun (spell ws)).fault = none := by
  refine ⟨fun kind hkind => ?_, fun ws h => ?_⟩
  · have hmem : (kind.text, kind) ∈ TokenKind.reserved ++ TokenKind.signs := by
      revert hkind
      cases kind <;> decide
    rcases List.mem_append.1 hmem with hmem | hmem
    · exact .reserved hmem
    · exact .sign hmem
  · obtain ⟨hfault, hwords, hreport⟩ := scan_spell h
    exact ⟨hwords, (printed_eq _).trans hreport, hfault⟩

/-- Words of all kinds in a row. The name begins with a reserved word, and the quoted text looks
like the beginning of a comment. -/
theorem tokenRun_spell_all :
    let ws : List Word := (TokenKind.reserved ++ TokenKind.signs).map (fun e => ⟨e.2, .text e.1⟩) ++
      [⟨.name, .text "funcs"⟩, ⟨.number, .number 70⟩, ⟨.string, .text "/* if"⟩]
    (tokenRun (spell ws)).tokens.map Token.word = ws ∧ (tokenRun (spell ws)).printed = "" := by
  intro ws
  have hsound : ∀ w ∈ ws, Sound w := by
    refine List.forall_mem_append.2 ⟨List.forall_mem_map.2 fun e he => ?_, ?_⟩
    · rcases List.mem_append.1 he with he | he
      · exact .reserved he
      · exact .sign he
    · simp only [List.forall_mem_cons]
      exact ⟨.name ⟨"funcs", by decide +kernel⟩, .number ⟨70, by decide +kernel⟩,
        .string ⟨"/* if", by decide +kernel⟩, List.forall_mem_nil _⟩
  obtain ⟨hwords, hprinted, -⟩ := tokenRun_spell.2 ws hsound
  exact ⟨hwords, hprinted⟩

/-! ## Scanned words are sound -/

theorem sound_of_name (hc : Text.isNameStart c = true) (hcs : ∀ d ∈ cs, Text.isWord d = true) :
    Sound ⟨.ofWord (String.ofList (c :: cs)), .text (String.ofList (c :: cs))⟩ := by
  unfold TokenKind.ofWord
  cases hl : TokenKind.reserved.lookup (String.ofList (c :: cs)) with
  | some kind =>
    obtain ⟨l1, l2, hl, _⟩ := List.lookup_eq_some_iff.mp hl
    exact .reserved (by simp [hl])
  | none =>
    have hvalid : Ast.isName (String.ofList (c :: cs)) = true := by
      have hall := List.all_eq_true.mpr hcs
      simp only [Ast.isName, String.toList_ofList, hc, hall, hl]
      rfl
    exact .name ⟨_, hvalid⟩

theorem ofDigits_lt (h : ∀ d ∈ ds, d < 10) :
    Text.Decimal.ofDigits ds < 10 ^ ds.length := by
  have hgen : ∀ n, ds.foldl (fun n d => 10 * n + d) n < (n + 1) * 10 ^ ds.length := by
    induction ds with
    | nil => simp
    | cons d ds ih =>
      intro n
      have hd := h d (List.mem_cons_self ..)
      have hlater := ih (fun e he => h e (List.mem_cons_of_mem d he)) (10 * n + d)
      calc (d :: ds).foldl (fun n d => 10 * n + d) n
          < (10 * n + d + 1) * 10 ^ ds.length := hlater
        _ ≤ (10 * (n + 1)) * 10 ^ ds.length := Nat.mul_le_mul_right _ (by omega)
        _ = (n + 1) * 10 ^ (d :: ds).length := by
          rw [List.length_cons, Nat.pow_succ, Nat.mul_comm 10, Nat.mul_assoc, Nat.mul_comm 10]
  simpa [Text.Decimal.ofDigits] using hgen 0

theorem sound_of_number {text : List Char} (hlength : text.length ≤ Text.Decimal.digitLimit) :
    Sound ⟨.number, .number (numberValue text)⟩ := by
  have hvalue : numberValue text < 10 ^ Text.Decimal.digitLimit := by
    have hlt : numberValue text < 10 ^ (text.map fun c => (Text.digitValue? c).getD 0).length := by
      refine ofDigits_lt fun d hd => ?_
      obtain ⟨c, _, rfl⟩ := List.mem_map.mp hd
      cases hc : Text.digitValue? c with
      | none => decide
      | some d => exact Text.digitValue?_lt hc
    rw [List.length_map] at hlt
    exact Nat.lt_of_lt_of_le hlt (Nat.pow_le_pow_right (by decide) hlength)
  have hvalid : (Text.Decimal.digits (numberValue text)).length ≤ Text.Decimal.digitLimit := by
    rw [Text.Decimal.digits, Nat.toString_eq_repr, Nat.toList_repr]
    exact (Nat.length_toDigits_le_iff (by decide) (by decide)).mpr hvalue
  exact .number ⟨_, hvalid⟩

theorem sound_of_string (h : ∀ d ∈ cs, d ≠ '"' ∧ d ≠ '\n') :
    Sound ⟨.string, .text (String.ofList cs)⟩ := by
  have hvalid : Ast.isQuotable (String.ofList cs) = true := by
    simpa only [Ast.isQuotable, String.toList_ofList, List.all_eq_true, Bool.and_eq_true,
      bne_iff_ne] using h
  exact .string ⟨_, hvalid⟩

/-- The words of scanned tokens are sound, but for quotes that open no text. -/
theorem sound_of_scanFrom {line pos : Nat} (h : w ∈ wordsOf (scanFrom line pos cs))
    (hquote : w.kind ≠ .quote) : Sound w := by
  induction cs using lexeme_induction generalizing line pos with
  | nil =>
    rw [scanFrom] at h
    cases h
  | cons c rest ih =>
    have htoken : ∀ {t : Token} {after line pos : Nat},
        w ∈ wordsOf (.token t after :: scanFrom line pos (rest.drop (lexemeAt c rest).extra)) →
        (t.word.kind ≠ .quote → Sound t.word) → Sound w := by
      intro t after line pos hw ht
      rcases List.mem_cons.mp hw with rfl | hw
      · exact ht hquote
      · exact ih hw
    rw [scanFrom] at h
    cases hl : lexemeAt c rest with
    | mk form extra =>
      obtain ⟨-, hreads⟩ := lexemeAt_reads hl
      simp only [hl] at h ih htoken
      cases form with
      | number =>
        simp only at h
        split at h
        · cases h
        · next hshort => exact htoken h fun _ => sound_of_number (Nat.not_lt.mp hshort)
      | word =>
        obtain ⟨d, ds, heq, hd, hds⟩ := hreads
        rw [heq] at h
        exact htoken h fun _ => sound_of_name hd hds
      | string =>
        obtain ⟨inside, heq, hplain⟩ := hreads
        rw [heq, List.cons_append, List.drop_one, List.tail_cons, List.dropLast_concat] at h
        exact htoken h fun _ => sound_of_string hplain
      | operator kind =>
        refine htoken h fun hne => ?_
        rcases hreads with hmem | ⟨rfl, -⟩
        · exact .sign hmem
        · exact absurd rfl hne
      | _ => exact ih h

theorem sound_of_scanned {text : String} (h : w ∈ wordsOfText text)
    (hquote : w.kind ≠ .quote) : Sound w := by
  rw [wordsOfText_eq] at h
  exact sound_of_scanFrom h hquote

end LangKit.Script

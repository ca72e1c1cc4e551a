import LangKit.Script.Scan

/-!
# The lexemes of a text

Which texts are tokens, comments and blanks is said here without a scanner: `Written`, `IsComment`,
`IsBlank`. What is found at the front of a text is such a text, and nothing is found only where no
front of the text is one (`lexemeAt_reads`). Line feeds stand in line breaks and comments only, so
that it is enough to count them there: `lines_eq_count`.
-/

namespace LangKit.Script

variable {c : Char} {cs rest span : List Char}
  {form : Form} {kind : TokenKind} {s : String} {n : Nat}

/-! ## What can be written -/

/-- The tokens with a fixed text other than the reserved words. -/
def TokenKind.signs : List (String × TokenKind) := [
  ("(", lparen), (")", rparen), ("\x7b", lbrace), ("\x7d", rbrace), (",", comma), (".", dot),
  ("@", «at»), (";", semi), ("==", eq), ("!=", notEq), (">=", greaterEq), (">", greater),
  ("<=", lessEq), ("<", less), ("=", assign), ("+", plus), ("-", minus), ("*", multiply),
  ("/", divide), ("&&", and), ("||", or), ("!", not)]

/-- The texts of the tokens of a kind. A quote that opens no text is a token too. -/
inductive Written : TokenKind → List Char → Prop
  | number {cs : List Char} (nonempty : cs ≠ []) (digits : ∀ d ∈ cs, Text.isDigit d = true) :
      Written .number cs
  | word {c : Char} {cs : List Char} (first : Text.isNameStart c = true)
      (later : ∀ d ∈ cs, Text.isWord d = true) :
      Written (.ofWord (String.ofList (c :: cs))) (c :: cs)
  | string {inside : List Char} (plain : ∀ d ∈ inside, d ≠ '"' ∧ d ≠ '\n') :
      Written .string ('"' :: inside ++ ['"'])
  | sign {cs : List Char} {kind : TokenKind} (mem : (String.ofList cs, kind) ∈ TokenKind.signs) :
      Written kind cs
  | quote : Written .quote ['"']

/-- A comment: an opening mark and a closing mark, and no other closing mark after the opening
one. -/
def IsComment (cs : List Char) : Prop :=
  ∃ body, cs = '/' :: '*' :: body ++ ['*', '/'] ∧ ¬ ['*', '/'] <:+: body ++ ['*']

def IsBlank (c : Char) : Prop :=
  c = ' ' ∨ c = '\t' ∨ c = '\n'

/-- A character that no token, no comment and no blank begins with, in front of a text. -/
structure StartsNothing (c : Char) (rest : List Char) : Prop where
  blank : ¬ IsBlank c
  comment : ∀ span, span <+: c :: rest → ¬ IsComment span
  token : ∀ kind span, span <+: c :: rest → ¬ Written kind span

/-- What the text of a lexeme is by its form, with the text behind it. -/
def Form.Reads (form : Form) (span rest : List Char) : Prop :=
  match form with
  | .blank => span = [' '] ∨ span = ['\t']
  | .newline => ∀ c ∈ span, c = '\n'
  | .comment => IsComment span
  | .number => span ≠ [] ∧ ∀ d ∈ span, Text.isDigit d = true
  | .word => ∃ c cs, span = c :: cs ∧ Text.isNameStart c = true ∧ ∀ d ∈ cs, Text.isWord d = true
  | .string => ∃ inside, span = '"' :: inside ++ ['"'] ∧ ∀ d ∈ inside, d ≠ '"' ∧ d ≠ '\n'
  | .operator kind => (String.ofList span, kind) ∈ TokenKind.signs ∨ kind = .quote ∧ span = ['"']
  | .illegal => ∃ c, span = [c] ∧ StartsNothing c rest

/-! ## Bodies of comments and of quoted texts -/

theorem commentBody?_eq_some (h : commentBody? cs = some n) : ∃ body tail,
    cs = body ++ '*' :: '/' :: tail ∧ body.length = n ∧ ¬ ['*', '/'] <:+: body ++ ['*'] := by
  fun_induction commentBody? cs generalizing n with
  | case1 tail =>
    cases h
    exact ⟨[], tail, rfl, rfl, by decide⟩
  | case2 c rest hopen ih =>
    obtain ⟨m, hm, rfl⟩ := Option.map_eq_some_iff.mp h
    obtain ⟨body, tail, rfl, rfl, hfirst⟩ := ih hm
    refine ⟨c :: body, tail, rfl, rfl, ?_⟩
    rw [List.cons_append, List.infix_cons_iff]
    rintro (hfront | hinfix)
    · -- A mark at the front would have been found at once.
      obtain ⟨more, hmore⟩ := hfront
      obtain ⟨rfl, hnext⟩ := List.cons.inj hmore
      cases body with
      | nil => cases hnext
      | cons d body =>
        obtain ⟨rfl, -⟩ := List.cons.inj hnext
        exact hopen _ rfl rfl
    · exact hfirst hinfix
  | case3 => cases h

theorem commentBody?_ne_none (h : ['*', '/'] <:+: cs) : commentBody? cs ≠ none := by
  fun_induction commentBody? cs with
  | case1 => exact Option.some_ne_none _
  | case2 c rest hopen ih =>
    rcases List.infix_cons_iff.1 h with hfront | hinfix
    · obtain ⟨more, hmore⟩ := hfront
      obtain ⟨rfl, rfl⟩ := List.cons.inj hmore
      exact absurd rfl (hopen more rfl)
    · rw [Ne, Option.map_eq_none_iff]
      exact ih hinfix
  | case3 => exact absurd (List.eq_nil_of_infix_nil h) (List.cons_ne_nil _ _)

theorem stringBody?_eq_some (h : stringBody? cs = some n) : ∃ inside tail,
    cs = inside ++ '"' :: tail ∧ inside.length = n ∧ ∀ d ∈ inside, d ≠ '"' ∧ d ≠ '\n' := by
  fun_induction stringBody? cs generalizing n with
  | case1 => cases h
  | case2 c rest hquote =>
    cases h
    rw [beq_iff_eq] at hquote
    exact ⟨[], rest, by rw [hquote]; rfl, rfl, List.forall_mem_nil _⟩
  | case3 => cases h
  | case4 c rest hquote hline ih =>
    obtain ⟨m, hm, rfl⟩ := Option.map_eq_some_iff.mp h
    obtain ⟨inside, tail, rfl, rfl, hplain⟩ := ih hm
    rw [beq_iff_eq] at hquote hline
    exact ⟨c :: inside, tail, rfl, rfl, List.forall_mem_cons.2 ⟨⟨hquote, hline⟩, hplain⟩⟩

theorem stringBody?_append (h : ∀ c ∈ cs, c ≠ '"' ∧ c ≠ '\n') :
    stringBody? (cs ++ '"' :: rest) = some cs.length := by
  induction cs with
  | nil => rfl
  | cons c cs ih =>
    have hc := h c (List.mem_cons_self ..)
    have hcs := ih fun d hd => h d (List.mem_cons_of_mem c hd)
    simp [stringBody?, hc.1, hc.2, hcs]

/-! ## What is found at the front of a text -/

theorem reads_comment (h : comment? c rest = some n) :
    n ≤ rest.length ∧ Form.comment.Reads (c :: rest.take n) (rest.drop n) := by
  unfold comment? at h
  split at h
  · obtain ⟨m, hm, rfl⟩ := Option.map_eq_some_iff.mp h
    obtain ⟨body, tail, rfl, rfl, hfirst⟩ := commentBody?_eq_some hm
    have hsplit : '*' :: (body ++ '*' :: '/' :: tail) = ('*' :: body ++ ['*', '/']) ++ tail := by
      simp
    refine ⟨by simp, body, ?_, hfirst⟩
    rw [hsplit, List.take_left' (by simp)]
    rfl
  · cases h

theorem reads_string (h : stringBody? rest = some n) :
    n + 1 ≤ rest.length ∧ Form.string.Reads ('"' :: rest.take (n + 1)) (rest.drop (n + 1)) := by
  obtain ⟨inside, tail, rfl, rfl, hplain⟩ := stringBody?_eq_some h
  have hsplit : inside ++ '"' :: tail = (inside ++ ['"']) ++ tail := by simp
  refine ⟨by simp, inside, ?_, hplain⟩
  rw [hsplit, List.take_left' (by simp)]
  rfl

theorem reads_operator (h : operator? c rest = some (kind, n)) :
    n ≤ rest.length ∧ (Form.operator kind).Reads (c :: rest.take n) (rest.drop n) := by
  unfold operator? at h
  split at h <;> cases h <;> refine ⟨by simp, ?_⟩ <;>
    simp only [Form.Reads, List.take_succ_cons, List.take_zero] <;> decide

theorem operator?_ne_none (hmem : (String.ofList span, kind) ∈ TokenKind.signs)
    (hspan : span <+: c :: rest) :
    operator? c rest ≠ none := by
  have hsigns : ∀ e ∈ TokenKind.signs, e.1.toList = ['|', '|'] ∨ e.1.toList = ['&', '&'] ∨
      e.1.toList.head?.any ("()\x7b\x7d,.@;=!><+-*/".toList.contains ·) = true := by
    decide
  have hfirst := hsigns _ hmem
  obtain ⟨tail, htail⟩ := hspan
  rw [String.toList_ofList] at hfirst
  intro hnone
  unfold operator? at hnone
  -- Only the last of the cases is none, where the text begins with no sign.
  split at hnone <;> cases hnone
  rcases hfirst with rfl | rfl | hhead
  · obtain ⟨rfl, rfl⟩ := List.cons.inj htail
    simp_all
  · obtain ⟨rfl, rfl⟩ := List.cons.inj htail
    simp_all
  · cases span with
    | nil => cases hhead
    | cons d span =>
      obtain ⟨rfl, -⟩ := List.cons.inj htail
      simp_all

theorem startsNothing (hblank : ¬ IsBlank c) (hdigit : Text.isDigit c ≠ true)
    (hname : Text.isNameStart c ≠ true)
    (hcomment : comment? c rest = none) (hstring : c = '"' → stringBody? rest = none)
    (hoperator : operator? c rest = none) : StartsNothing c rest where
  blank := hblank
  comment := by
    rintro _ ⟨tail, htail⟩ ⟨body, rfl, -⟩
    obtain ⟨rfl, rfl⟩ := List.cons.inj htail
    have hcloses : ['*', '/'] <:+: body ++ ['*', '/'] ++ tail :=
      List.infix_append body ['*', '/'] tail
    exact commentBody?_ne_none hcloses (Option.map_eq_none_iff.1 hcomment)
  token := by
    rintro kind span hspan hwritten
    cases hwritten with
    | number nonempty digits =>
      obtain ⟨d, ds, rfl⟩ := List.exists_cons_of_ne_nil nonempty
      obtain ⟨rfl, -⟩ := List.cons_prefix_cons.1 hspan
      exact hdigit (digits _ List.mem_cons_self)
    | word first =>
      obtain ⟨rfl, -⟩ := List.cons_prefix_cons.1 hspan
      exact hname first
    | string plain =>
      obtain ⟨rfl, tail, rfl⟩ := List.cons_prefix_cons.1 hspan
      have hbody := hstring rfl
      rw [List.append_eq, List.append_assoc] at hbody
      cases (stringBody?_append plain).symm.trans hbody
    | sign mem => exact operator?_ne_none mem hspan hoperator
    | quote =>
      obtain ⟨rfl, -⟩ := List.cons_prefix_cons.1 hspan
      cases hoperator

theorem all_take_takeWhile (rest : List Char) :
    ∀ d ∈ rest.take (rest.takeWhile p).length, p d = true := by
  rw [← List.prefix_iff_eq_take.mp (List.takeWhile_prefix p)]
  exact List.all_eq_true.mp List.all_takeWhile

/-- A lexeme lies inside the text, and its text is what its form says. -/
theorem lexemeAt_reads (h : lexemeAt c rest = ⟨form, n⟩) :
    n ≤ rest.length ∧ form.Reads (c :: rest.take n) (rest.drop n) := by
  have hwhile : ∀ p : Char → Bool, (rest.takeWhile p).length ≤ rest.length :=
    fun p => (List.takeWhile_prefix p).length_le
  unfold lexemeAt at h
  split at h
  · next hc =>
    cases h
    rw [Bool.or_eq_true, beq_iff_eq, beq_iff_eq] at hc
    rcases hc with rfl | rfl
    · exact ⟨Nat.zero_le _, .inl rfl⟩
    · exact ⟨Nat.zero_le _, .inr rfl⟩
  next hblank =>
  split at h
  · next hc =>
    cases h
    exact ⟨hwhile _, List.cons_ne_nil _ _, List.forall_mem_cons.2 ⟨hc, all_take_takeWhile rest⟩⟩
  next hdigit =>
  split at h
  · next hc =>
    cases h
    exact ⟨hwhile _, _, _, rfl, hc, all_take_takeWhile rest⟩
  next hname =>
  split at h
  · next hc =>
    cases h
    refine ⟨hwhile _, List.forall_mem_cons.2 ⟨beq_iff_eq.1 hc, fun d hd => ?_⟩⟩
    exact beq_iff_eq.1 (all_take_takeWhile (p := (· == '\n')) rest d hd)
  next hline =>
  split at h
  · next hcomment =>
    cases h
    exact reads_comment hcomment
  next hcomment =>
  split at h
  · next m hm =>
    cases h
    split at hm
    · next hc =>
      obtain rfl := beq_iff_eq.mp hc
      exact reads_string hm
    · cases hm
  next hstring =>
  split at h
  · next hop =>
    cases h
    exact reads_operator hop
  · next hop =>
    cases h
    refine ⟨Nat.zero_le _, c, rfl, startsNothing ?_ hdigit hname hcomment ?_ hop⟩
    · simpa [IsBlank, not_or, and_assoc] using And.intro hblank hline
    · rintro rfl
      exact hstring

/-- A text is read lexeme by lexeme. -/
theorem lexeme_induction {motive : List Char → Prop} (nil : motive [])
    (cons : ∀ c rest, motive (rest.drop (lexemeAt c rest).extra) → motive (c :: rest))
    (cs : List Char) : motive cs := by
  induction hn : cs.length using Nat.strongRecOn generalizing cs with
  | ind n ih =>
    cases cs with
    | nil => exact nil
    | cons c rest =>
      refine cons c rest (ih _ ?_ _ rfl)
      simp only [← hn, List.length_drop, List.length_cons]
      omega

/-! ## Line feeds -/

theorem Form.Reads.newline_mem (h : form.Reads span rest) (hline : '\n' ∈ span) :
    form = .newline ∨ form = .comment := by
  have hsigns : ∀ e ∈ TokenKind.signs, '\n' ∉ e.1.toList := by decide
  cases form with
  | newline => exact .inl rfl
  | comment => exact .inr rfl
  | blank => rcases h with rfl | rfl <;> simp at hline
  | number => exact absurd (h.2 _ hline) (by decide)
  | word =>
    obtain ⟨c, cs, rfl, hc, hcs⟩ := h
    rcases List.mem_cons.1 hline with rfl | hline
    · exact absurd hc (by decide)
    · exact absurd (hcs _ hline) (by decide)
  | string =>
    obtain ⟨inside, rfl, hplain⟩ := h
    have hinside : '\n' ∈ inside := by simpa using hline
    exact absurd rfl (hplain _ hinside).2
  | operator kind =>
    rcases h with hmem | ⟨-, rfl⟩
    · exact absurd (hsigns _ hmem) (by simpa using hline)
    · simp at hline
  | illegal =>
    obtain ⟨c, rfl, hnothing⟩ := h
    obtain rfl := List.mem_singleton.1 hline
    exact absurd (.inr (.inr rfl)) hnothing.blank

/-- No lexeme but a line break or a comment ends a line. -/
theorem lines_eq_count (h : form.Reads span rest) : form.lines span = span.count '\n' := by
  by_cases hline : '\n' ∈ span
  · rcases h.newline_mem hline with rfl | rfl <;> rfl
  · rw [List.count_eq_zero.2 hline]
    cases form with
    | newline | comment => exact List.count_eq_zero.2 hline
    | _ => rfl

end LangKit.Script

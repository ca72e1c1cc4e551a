import LangKit.Proofs.Parallel.Programs

/-!
# Diagnostics

A session can print the steps of a run and can echo what a program puts out. Two runs that differ in
these switches only work on the same store, so their nodes stand for themselves (`still`). The run
with diagnostics goes as the one without, up to a diagnostic that cannot be printed:
`runProgram_same_or_cut`.
-/

namespace LangKit.Script.Parallel

open Run Store

variable {c c' : Console} {version : Version}

/-! ## Runs on one store -/

mutual

theorem Like.eq (h : Datum.Like Eq d d') : d = d' := by
  match h with
  | .null | .bool _ | .int _ | .text _ => rfl
  | .list items => rw [LikeAll.eq items]
  | .tuple items => rw [LikeAll.eq items]
  | .mapping entries => rw [LikeEntries.eq entries]
  | .node related => rw [related]

theorem LikeAll.eq (h : Datum.LikeAll Eq ds ds') : ds = ds' := by
  match h with
  | .nil => rfl
  | .cons first rest => rw [Like.eq first, LikeAll.eq rest]

theorem LikeEntries.eq (h : Datum.LikeEntries Eq es es') : es = es' := by
  match h with
  | .nil => rfl
  | .cons key value rest => rw [Like.eq key, Like.eq value, LikeEntries.eq rest]

end

theorem LikeFields.eq (h : Datum.LikeFields Eq fs fs') : fs = fs' := by
  induction h with
  | nil => rfl
  | cons first _ ih => rw [Like.eq first, ih]

/-- Consoles with the same input left give the same and use up the same. -/
theorem input_alike (hinputs : c'.inputs = c.inputs) (hcursor : c'.cursor = c.cursor)
    (htyped : c'.typed = c.typed) :
    c'.input.1 = c.input.1 ∧
    ∃ cursor typed, c.input.2 = { c with cursor := cursor, typed := typed } ∧
      c'.input.2 = { c' with cursor := cursor, typed := typed } := by
  unfold Console.input
  rw [hinputs]
  by_cases hnone : c.inputs.isEmpty = true
  · rw [if_pos hnone, if_pos hnone, htyped]
    cases Console.splitLine c.typed with
    | some split => exact ⟨rfl, c.cursor, split.2, rfl, by rw [← hcursor, ← hinputs]⟩
    | none => exact ⟨rfl, c.cursor, c.typed, rfl, by rw [← hcursor, ← htyped, ← hinputs]⟩
  · rw [if_neg hnone, if_neg hnone, hcursor]
    cases c.inputs[c.cursor]? with
    | some d => exact ⟨rfl, c.cursor + 1, c.typed, rfl, by rw [← htyped, ← hinputs]⟩
    | none => exact ⟨rfl, c.cursor, c.typed, rfl, by rw [← hcursor, ← htyped, ← hinputs]⟩

/-- Two consoles with the same inputs have the same to tell, but for what is printed if the second
one is hushed. -/
structure SameTale (hushed : Bool) (given : List Datum) (c c' : Console) : Prop where
  echo : c'.echo = (c.echo && !hushed)
  trace : c'.trace = (c.trace && !hushed)
  given : c.inputs = given
  inputs : c'.inputs = c.inputs
  cursor : c'.cursor = c.cursor
  typed : c'.typed = c.typed
  log : c'.log = c.log
  printed : hushed = false → c'.printed = c.printed
  errorKind : c'.errorKind = c.errorKind
  errorLine : c'.errorLine = c.errorLine

section

variable {hushed : Bool} {given : List Datum}

theorem SameTale.refl (c : Console) : SameTale false c.inputs c c :=
  ⟨by simp, by simp, rfl, rfl, rfl, rfl, rfl, fun _ => rfl, rfl, rfl⟩

theorem SameTale.input (h : SameTale hushed given c c') :
    c.inputs = given ∧ c'.input.1 = c.input.1 ∧ SameTale hushed given c.input.2 c'.input.2 := by
  obtain ⟨hsame, cursor, typed, hleft, hright⟩ := input_alike h.inputs h.cursor h.typed
  rw [hleft, hright]
  exact ⟨h.given, hsame, { h with cursor := rfl, typed := rfl }⟩

end

def still (g : Region) (given : List Datum) (hushed : Bool) : Bridge g where
  rel := Eq
  stores := Eq
  consoles := SameTale hushed given
  hushed := hushed
  given := given
  same := by
    rintro r _ q _ rfl rfl
    exact Iff.rfl
  inside := by
    rintro s _ r _ rfl hr rfl
    exact hr.2
  kind := by
    rintro s _ r _ rfl - rfl
    rfl
  fields := by
    rintro s _ r _ rfl - rfl
    exact .refl _
  text := by
    rintro s _ d d' - rfl - hlike
    rw [Like.eq hlike]
  givenText := by
    rintro s _ d rfl -
    rfl
  alloc := by
    rintro s _ kind fs fs' rfl hlike
    rw [LikeFields.eq hlike]
    exact ⟨rfl, rfl⟩
  copy := by
    rintro s _ d d' - rfl - hlike
    rw [Like.eq hlike]
    exact ⟨rfl, .refl _⟩
  copyFields := by
    rintro s _ fs fs' - rfl - hlike
    rw [LikeFields.eq hlike]
    exact ⟨rfl, .refl _⟩
  setKind := by
    rintro s _ r _ kind rfl - rfl
    rfl
  setField := by
    rintro s _ r _ name d d' rfl - rfl hlike
    rw [Like.eq hlike]
  shareTable := by
    rintro s _ r _ q _ rfl - rfl - rfl
    rfl
  input := SameTale.input
  trace := SameTale.trace
  echo := SameTale.echo
  printed h more := { h with printed := fun hloud => congrArg (· ++ more) (h.printed hloud) }
  hush hh _ _ h _ := { h with printed := fun hloud => absurd (hh.symm.trans hloud) (by decide) }
  log h d _ := { h with log := congrArg (·.push d) h.log }
  report h _ _ _ := { h with errorKind := rfl, errorLine := rfl }

/-! ## Whole runs -/

def versionCloses : Version → Bool
  | .idle | .straightLine => false
  | .scoped dialect => dialect.hasClosures

def regionOf (version : Version) (m : Machine) : Region :=
  ⟨m.store.size, m.store.tables.size, versionCloses version, true⟩

def runBlame (limit : Nat) : Version → String → Machine → Blame
  | .idle, _, _ => .none
  | .straightLine, text, m => straightBlame limit text m
  | .scoped dialect, text, m => programBlame dialect limit text m

/-- How two runs of a program end: the store from before is spared, a field that is read of code and
not there is accounted for, and the ends are the same unless the first run has failed with a
diagnostic. -/
structure EndsAlike {g : Region} (b : Bridge g) (B : Blame) (m : Machine)
    (r r' : Except Stop Unit × Machine) : Prop where
  spares : Spares g m.store r.2.store
  reads : ∀ e, r.1 = .error e → IsRead e → B.reads e r.2
  same : (r'.1 = r.1 ∧ b.consoles r.2.console r'.2.console) ∨ ∃ e, r.1 = .error e ∧
    Cut b B e r.2 r'.2

section

variable {g : Region} {b : Bridge g} {B : Blame} {m m' : Machine}

theorem Matches.endsAlike (h : Matches b B m m' x y fun _ _ _ => True) :
    EndsAlike b B m (x m) (y m') := by
  rcases hx : x m with ⟨e | ⟨⟩, m1⟩
  · obtain ⟨hhalts, hreads, hend⟩ := h.error e m1 hx
    refine ⟨hhalts.spares, fun e' he => ?_, ?_⟩
    · obtain rfl := Except.error.inj he
      exact hreads
    · rcases hend with hcut | ⟨m1', hy, hconsoles⟩
      · exact .inr ⟨e, rfl, hcut⟩
      · rw [hy]
        exact .inl ⟨rfl, hconsoles⟩
  · obtain ⟨_, m1', hy, hjoined, honward, -⟩ := h.ok () m1 hx
    rw [hy]
    exact ⟨honward.spares, nofun, .inl ⟨rfl, hjoined.consoles⟩⟩

theorem runProgram_endsAlike (hg : g.closures = versionCloses version) (hobjects : g.objects = true)
    (h : Begun b m m') (hshown : b.hushed = true → m.store.Separate) (limit : Nat) (text : String) :
    EndsAlike b (runBlame limit version text m) m (runProgram limit version text m)
      (runProgram limit version text m') := by
  have hallows := allowsText_of_objects hobjects text
  rcases version with _ | _ | dialect
  · exact ⟨.refl h.formed, nofun, .inl ⟨rfl, h.consoles⟩⟩
  · exact (matches_straightLine hg h hshown hallows).endsAlike
  · exact (matches_scoped hg h hshown hallows).endsAlike

end

/-- A run is cut short by a diagnostic that cannot be printed. In the straight-line dialect this is
a variable to be shown, or the prompt of a call under way to be echoed; in the others it is one of
the activities under way that shows the variables of a call or echoes a prompt. -/
def CutShort (limit : Nat) (text : String) (m : Machine) (e : Stop) (m1 : Machine) : Version → Prop
  | .idle => False
  | .straightLine => Unshown limit text m e m1
  | .scoped dialect => ∃ a rest, Running dialect limit text m (a :: rest) ∧ CutMishap dialect a e m1

theorem cutShort_of_blame {text : String} (h : (runBlame limit version text m).cut e m1) :
    CutShort limit text m e m1 version := by
  rcases version with _ | _ | dialect
  · exact h
  · exact h
  · obtain ⟨a, hstarts, hfails⟩ := h
    exact exists_running hfails (.main hstarts)

/-- A run with diagnostics ends as the run without: with the same outcome, log, use of inputs and
error. The only other case is that it is cut short by a diagnostic that cannot be printed; then what
it has logged and read comes first in what the run without diagnostics logs and reads. -/
theorem runProgram_same_or_cut (limit : Nat) (version : Version) (text : String) (echo trace : Bool)
    (inputs : List Tree) (typed : String) :
    let m := Machine.start echo trace inputs typed
    let loud := runProgram limit version text m
    let quiet := runProgram limit version text (Machine.start false false inputs typed)
    (quiet.1 = loud.1 ∧ quiet.2.console.log = loud.2.console.log ∧
      quiet.2.console.cursor = loud.2.console.cursor ∧
      quiet.2.console.typed = loud.2.console.typed ∧
      quiet.2.console.errorKind = loud.2.console.errorKind ∧
      quiet.2.console.errorLine = loud.2.console.errorLine) ∨
    ∃ e, loud.1 = .error e ∧ CutShort limit text m e loud.2 version ∧
      Precedes loud.2.console quiet.2.console := by
  intro m loud quiet
  have hseparate : m.store.Separate := separate_start echo trace inputs typed
  have htale : SameTale true m.console.inputs m.console
      (Machine.start false false inputs typed).console :=
    ⟨by simp [Machine.start, Console.start], by simp [Machine.start, Console.start], rfl, rfl,
      rfl, rfl, rfl, nofun, rfl, rfl⟩
  have hbegun : Begun (still (regionOf version m) m.console.inputs true) m
      (Machine.start false false inputs typed) :=
    ⟨rfl, rfl, hseparate.formed, rfl, htale⟩
  have hends := runProgram_endsAlike rfl rfl hbegun (fun _ => hseparate) limit text
  rcases hends.same with ⟨hend, hconsoles⟩ | ⟨e, hend, hcut⟩
  · exact .inl ⟨hend, hconsoles.log, hconsoles.cursor, hconsoles.typed, hconsoles.errorKind,
      hconsoles.errorLine⟩
  · obtain ⟨c', hconsoles, hfurther⟩ := hcut.further
    refine .inr ⟨e, hend, cutShort_of_blame hcut.cause, ?_⟩
    obtain ⟨hlog, hcursor, htyped⟩ := hfurther
    exact ⟨hconsoles.log ▸ hlog, hconsoles.cursor ▸ hcursor, hconsoles.typed ▸ htyped⟩

/-- The text of a program that keeps the result of a print, which is nothing. -/
def keptPrint : String := "func main() \x7b x = print(\"a\"); \x7d"

/-- A trace shows the variables after each statement, and fails at one that holds nothing. -/
theorem keptPrint_fails_traced :
    (runProgram 1000 .straightLine keptPrint (Machine.start false false [] "")).1.toOption =
      some () ∧
    (runProgram 1000 .straightLine keptPrint (Machine.start false true [] "")).1.toOption =
      none := by
  decide +kernel

end LangKit.Script.Parallel

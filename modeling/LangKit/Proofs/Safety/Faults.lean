import LangKit.Proofs.Safety.Moments

/-!
# Type soundness of the scoped dialect

Every variable of a scoped run is a number, a truth value, a text or nil, with contents to match. So
a run only fails in ways that the program or its inputs give cause for: `runProgram_scoped_sound`.
The text cannot be parsed, the program reports an error, or something under way has a mishap. Runs
are told apart here that print nothing by themselves and get texts as inputs; the depth of recursion
is not counted as a fault.
-/

namespace LangKit.Script

open Run Store
open Stacked (Setting)

/-- The state before a run that neither echoes nor traces, with the given inputs. -/
def quietStart (inputs : List String) (typed : String) : Machine :=
  .start false false (inputs.map .text) typed

theorem texts_of_holdsAll {texts : List String}
    (h : HoldsAll s b ds (texts.map .text)) : ∀ d ∈ ds, ∃ x, d = .text x := by
  induction texts generalizing ds with
  | nil =>
    cases h
    exact nofun
  | cons x texts ih =>
    cases h with
    | cons first rest =>
      cases first
      exact List.forall_mem_cons.2 ⟨⟨x, rfl⟩, ih rest⟩

theorem quiet_start (inputs : List String) (typed : String) :
    Quiet (quietStart inputs typed).console where
  echo := rfl
  trace := rfl
  inputs := texts_of_holdsAll (holdsAll_load (inputs.map .text) separate_empty).2

section

variable {c : Setting} {text : String} {m m0 m' : Machine} {f : Fault}

/-- An activity that is under way in a run has a mishap. -/
def Fails (limit : Nat) (text : String) (m : Machine) (f : Fault) : Prop :=
  ∃ a rest, Running .scoped limit text m (a :: rest) ∧ Mishap a f

theorem meets_run (hl : Loaded text m c m0) :
    Meets c m0 (do
        let statements ← enterLoaded c.loaded
        let _ ← block (Row.main.step .scoped limit) statements [])
      (fun _ _ => True) (Fails limit text m) := by
  have hexec : ExecMeets c limit := (meets_all c limit).2.1
  refine (meets_enterLoaded hl.intact).bind fun statements m1 hentered hm1 _ hstmts => ?_
  refine (meets_row hexec .main hm1 (unshared_nil c m1.store) hstmts ?_).map
    fun _ _ _ _ _ => trivial
  intro s scope m2 f hreached hblames
  rw [← hl.enter] at hentered
  exact hblames.exists_mishap (.main (.statement hentered hreached (announce_scoped _ _ _)))

theorem fails_of_runProgram (hl : Loaded text m c m0) (hquiet : Quiet m.console)
    (h : runProgram limit (.scoped .scoped) text m = (.error (.fault f), m')) :
    IsReport f ∨ Fails limit text m f := by
  rw [runProgram_eq_enter, bind_apply, hl.enter, ← bind_apply] at h
  exact (meets_run hl).fault h (hl.later.quiet.1 hquiet)

theorem enterMain_of_parse_error {printed : String}
    (hparse : parseProgram text = (.error g, printed)) :
    ∃ m1, enterMain text m = (.error (.fault g), m1) := by
  obtain ⟨m1, hload⟩ : ∃ m1, loadProgram text m = (.error (.fault g), m1) := by
    rw [loadProgram_eq, hparse]
    exact ⟨_, rfl⟩
  exact ⟨m1, bind_eq_error.2 (.inl hload)⟩

/-- What is under way in a run comes after the main function has been found. -/
theorem Running.entered {row : List Activity} (h : Running .scoped limit text m row) :
    ∃ statements m1, enterMain text m = (.ok statements, m1) := by
  induction h with
  | main starts =>
    cases starts with
    | statement entered => exact ⟨_, _, entered⟩
  | inner _ _ ih => exact ih

end

/-- At every moment in the run of a program in the scoped dialect, every variable of every live
scope is a number, a truth value, a text or nil, with contents of its kind unless it is nil. If the
run fails, then the text cannot be parsed, for its syntax or for a number that is too long; or the
program reports an error; or a mishap of something under way is the cause: a division by zero, nil
that is printed, used as a prompt or assigned to a bound name, an input that is missing or is no
integer, or a number that is too long to be printed. -/
theorem runProgram_scoped_sound (limit : Nat) (text typed : String) (inputs : List String) :
    (∀ scopes m, Moment .scoped limit text (quietStart inputs typed) scopes m →
      ∀ scope ∈ scopes, ∀ x d, Assoc.get? x scope = some d → ∃ ref, d = .node ref ∧
        Typed m.store ref) ∧
    ∀ f m, runProgram limit (.scoped .scoped) text (quietStart inputs typed) =
      (.error (.fault f), m) →
      f = .syntaxError (some "Syntax error") ∨
      (∃ digits, HasOverlong (scan text) digits ∧ f = .overlongInteger digits) ∨
      IsReport f ∨ Fails limit text (quietStart inputs typed) f := by
  have hsep : (quietStart inputs typed).store.Separate := separate_start false false _ typed
  rcases hparse : parseProgram text with ⟨g | t, printed⟩
  · obtain ⟨m1, hmain⟩ := enterMain_of_parse_error (m := quietStart inputs typed) hparse
    refine ⟨fun scopes m hmoment => ?_, fun f m h => ?_⟩
    · -- Without a program there are no moments.
      have hentered : ∃ statements m2, enterMain text (quietStart inputs typed) =
          (.ok statements, m2) := by
        cases hmoment with
        | begins running => exact running.entered
        | ends running => exact running.entered
      obtain ⟨_, _, hentered⟩ := hentered
      rw [hmain] at hentered
      cases hentered
    · have hrun : runProgram limit (.scoped .scoped) text (quietStart inputs typed) =
        (.error (.fault g), m1) := by
        rw [runProgram_eq_enter]
        exact bind_eq_error.2 (.inl hmain)
      rw [hrun] at h
      obtain ⟨hf, -⟩ := Prod.mk.inj h
      obtain rfl := Stop.fault.inj (Except.error.inj hf)
      rcases parseProgram_error hparse with hsyntax | hlong
      · exact .inl hsyntax
      · exact .inr (.inl hlong)
  · obtain ⟨c, m0, hl, -⟩ := exists_loaded (loadProgram_apply hparse _) hsep
    refine ⟨fun scopes m hmoment scope hscope x d hd => ?_, fun f m h => ?_⟩
    · obtain ⟨hhalted, hscopes⟩ := hmoment.halted hl
      obtain ⟨ref, rfl, hlow, hhigh⟩ := hscopes.node scope hscope x d hd
      exact ⟨ref, rfl, hhalted.typed ref hlow hhigh⟩
    · exact .inr (.inr (fails_of_runProgram hl (quiet_start inputs typed) h))

/-- Counts down by calls. The last one gives no value, which is then assigned to a bound name. -/
def countdown : String :=
  "func f(x) \x7b if (x > 0) \x7b return f(x - 1); \x7d \x7d func main() \x7b y = inputi(); y = f(y); \x7d"

/-- The run fails where nil is assigned. -/
theorem runProgram_scoped_sound_countdown :
    faultOf (runProgram 1000 (.scoped .scoped) countdown (quietStart ["2"] "")).1 =
        some (Fault.missingField "val") ∧
      Fails 1000 countdown (quietStart ["2"] "") (Fault.missingField "val") := by
  have hrun : faultOf (runProgram 1000 (.scoped .scoped) countdown (quietStart ["2"] "")).1 =
      some (Fault.missingField "val") := by decide +kernel
  obtain ⟨m, hfault⟩ := exists_of_faultOf hrun
  refine ⟨hrun, ?_⟩
  rcases (runProgram_scoped_sound 1000 countdown "" ["2"]).2 _ _ hfault with h | h | h | h
  · cases h
  · obtain ⟨_, -, h⟩ := h
    cases h
  · obtain ⟨_, _, h⟩ := h
    cases h
  · exact h

end LangKit.Script

import LangKit.Proofs.Parallel.Diagnostics

/-!
# Reading the fields of code

The parser gives every node the fields that evaluators read of its kind, with one exception: the
node for a new object has no name, and the dialect with objects asks for one. So a run fails with a
missing field of code in that dialect only, at such a node or at an assignment to a member that is
not there (`runProgram_missing_field`).
-/

namespace LangKit.Script.Parallel

open Run Store

variable {dialect : Dialect}

theorem hasObjects_of_object {kind : String} (h : dialect.exprForm kind = .object) :
    dialect.hasObjects = true := by
  unfold Dialect.exprForm at h
  split at h
  · cases h
  split at h
  · cases h
  split at h
  · cases h
  split at h
  · cases h
  · cases h
  split at h
  · cases h
  split at h
  · rename_i hobject
    exact (Bool.and_eq_true_iff.1 hobject).2
  split at h <;> cases h

theorem eq_objects_of_lacks (h : Lacks dialect a) : dialect = .objects := by
  have hobjects : dialect.hasObjects = true := by
    cases h with
    | object form _ =>
      obtain ⟨kind, -, hform⟩ := form
      exact hasObjects_of_object hform
    | member objects => exact objects
  cases dialect <;> first | rfl | cases hobjects

/-- A run that fails because a field of code is not there is a run with objects, and the activity
that is under way evaluates a new object or assigns to a member that is not there. -/
theorem runProgram_missing_field {version : Version} {text f : String} {echo trace : Bool}
    {inputs : List Tree} {typed : String} {limit : Nat} {m1 : Machine} (hf : f ∈ readFields)
    (h : runProgram limit version text (Machine.start echo trace inputs typed) =
      (.error (.fault (Fault.missingField f)), m1)) :
    version = .scoped .objects ∧
    ∃ a rest, Running .objects limit text (Machine.start echo trace inputs typed) (a :: rest) ∧
      ReadMishap .objects a (.fault (Fault.missingField f)) m1 := by
  have hformed := (separate_start echo trace inputs typed).formed
  generalize Machine.start echo trace inputs typed = m at h hformed ⊢
  have hbegun : Begun (still (regionOf version m) m.console.inputs false) m m :=
    ⟨rfl, rfl, hformed, rfl, .refl _⟩
  have hreads := (runProgram_endsAlike rfl rfl hbegun nofun
    limit text).reads (.fault (Fault.missingField f)) (congrArg Prod.fst h) ⟨f, hf, rfl⟩
  rw [h] at hreads
  rcases version with _ | _ | dialect
  · exact hreads.elim
  · exact hreads.elim
  · obtain ⟨a, hstarts, hfails⟩ := hreads
    obtain ⟨c, rest, hrunning, hmishap⟩ := exists_running hfails (.main hstarts)
    obtain rfl := eq_objects_of_lacks hmishap.1
    exact ⟨rfl, c, rest, hrunning, hmishap⟩

def newObject : String := "func main() { x = @; }"

theorem newObject_run :
    faultOf (runProgram 1000 (.scoped .objects) newObject (Machine.start false false [] "")).1 =
      some (Fault.missingField "name") := by
  decide +kernel

/-- The parser takes the program, and the run asks for a name that the node of the new object does
not have. -/
theorem newObject_has_no_name :
    (parseProgram newObject).1.toOption.isSome = true ∧
    ∃ m1, runProgram 1000 (.scoped .objects) newObject (Machine.start false false [] "") =
      (.error (.fault (Fault.missingField "name")), m1) :=
  ⟨by decide +kernel, exists_of_faultOf newObject_run⟩

theorem runProgram_missing_field_newObject :
    "name" ∈ readFields ∧
    ∃ m1, runProgram 1000 (.scoped .objects) newObject (Machine.start false false [] "") =
        (.error (.fault (Fault.missingField "name")), m1) ∧
      ∃ a rest, Running .objects 1000 newObject (Machine.start false false [] "") (a :: rest) ∧
        ReadMishap .objects a (.fault (Fault.missingField "name")) m1 := by
  obtain ⟨m1, hrun⟩ := exists_of_faultOf newObject_run
  have hname : "name" ∈ readFields := by decide
  exact ⟨hname, m1, hrun, (runProgram_missing_field hname hrun).2⟩

end LangKit.Script.Parallel

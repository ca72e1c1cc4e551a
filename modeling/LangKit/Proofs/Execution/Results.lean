import LangKit.Proofs.Execution.Composition
import Mathlib.Logic.Relation

/-!
# Results of statements

When a row of statements is left before its end. A statement can give a result, and the row that it
is in then ends with this result; so does the statement whose block the row is, and so on up to the
body of the function. Results come from two kinds of statement: from `return`, and from a call whose
function gives a result (`GivesResult`). A call that stands as a statement therefore does not drop
the result of its function: it hands it on as `return` does (`block_cut_short_iff`).
-/

namespace LangKit.Script

open Run

variable {scope scope' : Scope} {s d body : Datum} {m m' : Machine}

variable {dialect : Dialect}

/-- A statement carries out another one, in a block of its own. -/
inductive Encloses (dialect : Dialect) : Activity → Activity → Prop
  | intro {fuel fuel' : Nat} {scope scope' : Scope} {s s' : Datum} {m m' : Machine}
      (starts : Starts dialect ⟨fuel, .exec scope s, m⟩ ⟨fuel', .exec scope' s', m'⟩) :
      Encloses dialect ⟨fuel, .exec scope s, m⟩ ⟨fuel', .exec scope' s', m'⟩

/-- A `return`, or a call that stands as a statement, gives a result and ends in a state. -/
inductive GivesResult (dialect : Dialect) (d : Datum) (m' : Machine) : Activity → Prop
  | return {fuel : Nat} {scope : Scope} {s : Datum} {m : Machine} (form : IsStatement m s .return)
      (given : exec dialect fuel s scope m = (.ok (scope, d), m')) :
      GivesResult dialect d m' ⟨fuel, .exec scope s, m⟩
  | call {fuel : Nat} {scope : Scope} {s name args : Datum} {m : Machine}
      (form : IsStatement m s .call) (called : field s "name" m = (.ok name, m))
      (passed : field s "args" m = (.ok args, m))
      (given : call dialect fuel scope name args m = (.ok d, m')) :
      GivesResult dialect d m' ⟨fuel + 1, .exec scope s, m⟩

/-- A statement that gives a result gives it as that of the statement in whose block it is. -/
theorem Encloses.result
    (h : Encloses dialect ⟨fuel, .exec scope s, m⟩ ⟨fuel', .exec scope' s', m1⟩) (hd : d ≠ .null)
    (hs : exec dialect fuel' s' scope' m1 = (.ok (scope'', d), m')) :
    exec dialect fuel s scope m = (.ok (scope, d), m') := by
  rcases h with ⟨h⟩
  cases h with
  | @branch _ _ cond _ _ m2 value m3 go body statements _ _ _ form asked answer truth chosen
      row reached =>
    have hblock := (block_eq_result hd).2 ⟨_, _, _, reached, hs⟩
    have hcarry : carryOut dialect fuel' scope body m3 = (.ok (scope, d), m') := by
      rw [carryOut, bind_of_ok row, bind_of_ok hblock]
      rfl
    rw [exec_choice form, bind_of_ok asked, bind_of_ok answer, bind_of_ok truth]
    cases go with
    | true =>
      rw [if_pos rfl] at chosen ⊢
      rw [bind_of_ok chosen, hcarry]
    | false =>
      rw [if_neg Bool.false_ne_true] at chosen ⊢
      rw [bind_of_ok chosen, carryOutElse_of_items row, hcarry]
  | @round _ _ _ _ _ m2 _ _ _ _ _ form rounds go repeated row reached =>
    have hblock := (block_eq_result hd).2 ⟨_, _, _, reached, hs⟩
    have hround : loopBody dialect fuel' scope s m2 = (.ok d, m') := by
      rw [loopBody, bind_of_ok repeated, bind_of_ok row, bind_of_ok hblock]
      rfl
    have hloop := (repeatWhile_eq_result hd).2 ⟨_, _, rounds, go, hround⟩
    rw [exec_loop form]
    exact bind_of_ok hloop

theorem GivesResult.exec {fuel : Nat} {scope : Scope} {s d : Datum} {m m' : Machine}
    (h : GivesResult dialect d m' ⟨fuel, .exec scope s, m⟩) :
    exec dialect fuel s scope m = (.ok (scope, d), m') := by
  cases h with
  | «return» form given => exact given
  | call form called passed given =>
    rw [exec_call form, bind_of_ok called, bind_of_ok passed, bind_of_ok given]
    rfl

section

variable {fuel : Nat}

theorem block_of_carryOut (h : carryOut dialect fuel scope body m = (.ok (scope', d), m')) :
    scope' = scope ∧ ∃ statements scope1, items body m = (.ok statements, m) ∧
      block (exec dialect fuel) statements scope m = (.ok (scope1, d), m') := by
  obtain ⟨statements, hrow, h⟩ := look_eq_ok h
  obtain ⟨⟨scope1, r⟩, m2, hblock, h⟩ := bind_eq_ok.1 h
  obtain ⟨hpair, rfl⟩ := pure_eq_ok.1 h
  obtain ⟨rfl, rfl⟩ := Prod.mk.inj hpair
  exact ⟨rfl, statements, scope1, hrow, hblock⟩

theorem exists_encloses_of_choice (form : IsStatement m s .choice) (hd : d ≠ .null)
    (h : exec dialect (fuel + 1) s scope m = (.ok (scope', d), m')) :
    scope' = scope ∧ ∃ s' scope1 scope2 m1,
      Encloses dialect ⟨fuel + 1, .exec scope s, m⟩ ⟨fuel, .exec scope1 s', m1⟩ ∧
        exec dialect fuel s' scope1 m1 = (.ok (scope2, d), m') := by
  rw [exec_choice form] at h
  obtain ⟨cond, hcond, h⟩ := look_eq_ok h
  obtain ⟨value, m2, hvalue, h⟩ := bind_eq_ok.1 h
  obtain ⟨go, m3, hgo, h⟩ := bind_eq_ok.1 h
  -- Both branches end in the same way, with the row that is under their own name.
  have hbranch : ∃ body, field s (if go then "statements" else "else_statements") m3 =
      (.ok body, m3) ∧ carryOut dialect fuel scope body m3 = (.ok (scope', d), m') := by
    cases go with
    | true =>
      rw [if_pos rfl] at h
      exact look_eq_ok h
    | false =>
      rw [if_neg Bool.false_ne_true] at h
      obtain ⟨body, hbody, h⟩ := look_eq_ok h
      cases body with
      | null => exact absurd (Prod.mk.inj (pure_eq_ok.1 h).1).2.symm hd
      | _ => exact ⟨_, hbody, h⟩
  obtain ⟨body, hbody, h⟩ := hbranch
  obtain ⟨rfl, statements, scope2, hrow, hblock⟩ := block_of_carryOut h
  obtain ⟨s', scope1, m4, reached, hs'⟩ := (block_eq_result hd).1 hblock
  exact ⟨rfl, s', scope1, scope2, m4, ⟨.branch form hcond hvalue hgo hbody hrow reached⟩, hs'⟩

theorem exists_encloses_of_loop (form : IsStatement m s .loop) (hd : d ≠ .null)
    (h : exec dialect (fuel + 1) s scope m = (.ok (scope', d), m')) :
    scope' = scope ∧ ∃ s' scope1 scope2 m1,
      Encloses dialect ⟨fuel + 1, .exec scope s, m⟩ ⟨fuel, .exec scope1 s', m1⟩ ∧
        exec dialect fuel s' scope1 m1 = (.ok (scope2, d), m') := by
  rw [exec_loop form] at h
  obtain ⟨r, m1, hrepeat, h⟩ := bind_eq_ok.1 h
  obtain ⟨hpair, rfl⟩ := pure_eq_ok.1 h
  obtain ⟨rfl, rfl⟩ := Prod.mk.inj hpair
  obtain ⟨m2, m3, rounds, hgo, hround⟩ := (repeatWhile_eq_result hd).1 hrepeat
  obtain ⟨body, hbody, hround⟩ := look_eq_ok hround
  obtain ⟨statements, hrow, hround⟩ := look_eq_ok hround
  obtain ⟨⟨scope2, r'⟩, m6, hblock, hround⟩ := bind_eq_ok.1 hround
  obtain ⟨rfl, rfl⟩ := pure_eq_ok.1 hround
  obtain ⟨s', scope1, m7, reached, hs'⟩ := (block_eq_result hd).1 hblock
  exact ⟨rfl, s', scope1, scope2, m7, ⟨.round form rounds hgo hbody hrow reached⟩, hs'⟩

theorem scope_of_return (form : IsStatement m s .return)
    (h : exec dialect (fuel + 1) s scope m = (.ok (scope', d), m')) : scope' = scope := by
  rw [exec_return form] at h
  obtain ⟨right, hright, h⟩ := look_eq_ok h
  obtain ⟨r, m2, -, h⟩ := bind_eq_ok.1 h
  exact (Prod.mk.inj (pure_eq_ok.1 h).1).1.symm

theorem exists_givesResult (h : exec dialect fuel s scope m = (.ok (scope', d), m'))
    (hd : d ≠ .null) :
    scope' = scope ∧ ∃ b, Relation.ReflTransGen (Encloses dialect) ⟨fuel, .exec scope s, m⟩ b ∧
      GivesResult dialect d m' b := by
  induction fuel generalizing scope scope' s m with
  | zero => cases h
  | succ fuel ih =>
    obtain ⟨kind, hkind, -⟩ := look_eq_ok h
    cases hform : statementForm kind with
    | assign =>
      rw [exec_assign ⟨kind, hkind, hform⟩] at h
      simp only [bind_eq_ok, pure_eq_ok] at h
      obtain ⟨_, _, _, _, _, _, _, _, _, _, _, _, hpair, _⟩ := h
      exact absurd (Prod.mk.inj hpair).2.symm hd
    | choice =>
      obtain ⟨hscope, s', scope1, scope2, m1, hencloses, hs'⟩ :=
        exists_encloses_of_choice ⟨kind, hkind, hform⟩ hd h
      obtain ⟨-, b, hchain, hb⟩ := ih hs'
      exact ⟨hscope, b, .head hencloses hchain, hb⟩
    | loop =>
      obtain ⟨hscope, s', scope1, scope2, m1, hencloses, hs'⟩ :=
        exists_encloses_of_loop ⟨kind, hkind, hform⟩ hd h
      obtain ⟨-, b, hchain, hb⟩ := ih hs'
      exact ⟨hscope, b, .head hencloses hchain, hb⟩
    | «return» =>
      obtain rfl := scope_of_return ⟨kind, hkind, hform⟩ h
      exact ⟨rfl, _, .refl, .return ⟨kind, hkind, hform⟩ h⟩
    | call =>
      rw [exec_call ⟨kind, hkind, hform⟩] at h
      obtain ⟨name, hname, h⟩ := look_eq_ok h
      obtain ⟨args, hargs, h⟩ := look_eq_ok h
      obtain ⟨r, m4, hcall, h⟩ := bind_eq_ok.1 h
      obtain ⟨hpair, rfl⟩ := pure_eq_ok.1 h
      obtain ⟨rfl, rfl⟩ := Prod.mk.inj hpair
      exact ⟨rfl, _, .refl, .call ⟨kind, hkind, hform⟩ hname hargs hcall⟩
    | other =>
      rw [exec_other ⟨kind, hkind, hform⟩] at h
      exact absurd (Prod.mk.inj (ok_inj h).1).2.symm hd

/-- A statement gives a result exactly if a `return` or a call gives it, in the statement itself or
in a block of it. -/
theorem exec_eq_result (hd : d ≠ .null) :
    exec dialect fuel s scope m = (.ok (scope', d), m') ↔
      scope' = scope ∧ ∃ b, Relation.ReflTransGen (Encloses dialect) ⟨fuel, .exec scope s, m⟩ b ∧
        GivesResult dialect d m' b := by
  refine ⟨fun h => exists_givesResult h hd, ?_⟩
  rintro ⟨rfl, b, hchain, hb⟩
  generalize hs : (⟨fuel, .exec scope' s, m⟩ : Activity) = a at hchain
  -- From the statement that gives the result outwards.
  induction hchain using Relation.ReflTransGen.head_induction_on generalizing fuel scope' s m with
  | refl =>
    subst hs
    exact hb.exec
  | head hencloses _ ih =>
    subst hs
    cases hencloses with
    | intro starts => exact Encloses.result ⟨starts⟩ hd (ih rfl)

end

/-- A row of statements is carried to its end exactly if none of them gives a result. It is cut
short exactly if it comes to a statement in which a `return` or a call gives a result, there or in a
block of the statement; the result is then that of the row, and the statements behind are left
out. -/
theorem block_cut_short_iff (dialect : Dialect) (fuel : Nat) (row : Row) (statements : List Datum)
    (scope : Scope) (m : Machine) :
    (∀ scope' m', block (row.step dialect fuel) statements scope m = (.ok (scope', .null), m') ↔
      CarriedOut (row.step dialect fuel) statements scope m scope' m') ∧
    ∀ scope' d m', d ≠ .null →
      (block (row.step dialect fuel) statements scope m = (.ok (scope', d), m') ↔
        ∃ s m1 m2 m3 b, Reached (row.step dialect fuel) statements scope m s scope' m1 ∧
          row.announce dialect scope' m1 = (.ok (), m2) ∧
          Relation.ReflTransGen (Encloses dialect) ⟨fuel, .exec scope' s, m2⟩ b ∧
          GivesResult dialect d m3 b ∧ row.finish dialect scope' m3 = (.ok (), m')) := by
  refine ⟨fun scope' m' => block_eq_null, fun scope' d m' hd => ?_⟩
  rw [block_eq_result hd]
  constructor
  · rintro ⟨s, scope1, m1, reached, hs⟩
    obtain ⟨_, m2, hannounce, hs⟩ := bind_eq_ok.1 hs
    obtain ⟨⟨scope2, r⟩, m3, hexec, hs⟩ := bind_eq_ok.1 hs
    obtain ⟨_, m4, hfinish, hs⟩ := bind_eq_ok.1 hs
    obtain ⟨hpair, rfl⟩ := pure_eq_ok.1 hs
    obtain ⟨rfl, rfl⟩ := Prod.mk.inj hpair
    obtain ⟨rfl, b, hchain, hb⟩ := (exec_eq_result hd).1 hexec
    exact ⟨s, m1, m2, m3, b, reached, hannounce, hchain, hb, hfinish⟩
  · rintro ⟨s, m1, m2, m3, b, reached, hannounce, hchain, hb, hfinish⟩
    have hexec := (exec_eq_result hd).2 ⟨rfl, b, hchain, hb⟩
    refine ⟨s, scope', m1, reached, ?_⟩
    rw [Row.step, Row.stepWith, bind_of_ok hannounce, bind_of_ok hexec]
    exact bind_of_ok hfinish

/-- The first statement of the main function calls a function that gives 1. -/
def callFirst : String :=
  "func f() \x7b return 1; \x7d func main() \x7b f(); print(\"next\"); \x7d"

/-- The main function of the program has two statements and is cut short in the first one, a
call. -/
theorem block_cut_short_iff_callFirst :
    ∃ statements m d m', enterMain callFirst (Machine.start false false [] "") =
      (.ok statements, m) ∧
      statements.length = 2 ∧ d ≠ .null ∧
      block (Row.main.step .scoped 1000) statements [] m = (.ok ([], d), m') ∧
      ∃ s m1 m2 m3 b, Reached (Row.main.step .scoped 1000) statements [] m s [] m1 ∧
        Row.main.announce .scoped [] m1 = (.ok (), m2) ∧
        Relation.ReflTransGen (Encloses .scoped) ⟨1000, .exec [] s, m2⟩ b ∧
        GivesResult .scoped d m3 b ∧ Row.main.finish .scoped [] m3 = (.ok (), m') := by
  have hlength : (enterMain callFirst (Machine.start false false [] "")).1.toOption.map
      List.length = some 2 := by decide +kernel
  have hresult : ((do
      let statements ← enterMain callFirst
      block (Row.main.step .scoped 1000) statements []) (Machine.start false false
        [] "")).1.toOption.map (fun r : Scope × Datum => (r.1.length, r.2.same .null)) =
          some (0, false) := by decide +kernel
  rcases henter : enterMain callFirst (Machine.start false false [] "") with ⟨e | statements, m⟩
  · rw [henter] at hlength
    cases hlength
  rw [bind_of_ok henter] at hresult
  rw [henter] at hlength
  rcases hblock : block (Row.main.step .scoped 1000) statements [] m with ⟨e | ⟨scope', d⟩, m'⟩
  · rw [hblock] at hresult
    cases hresult
  rw [hblock] at hresult
  obtain ⟨hscope, hnull⟩ := Prod.mk.inj (Option.some.inj hresult)
  obtain rfl := List.eq_nil_of_length_eq_zero hscope
  have hd : d ≠ .null := by
    rintro rfl
    cases hnull
  exact ⟨statements, m, d, m', rfl, Option.some.inj hlength, hd, hblock,
    ((block_cut_short_iff .scoped 1000 .main statements [] m).2 [] d m' hd).1 hblock⟩

/-- In each dialect the call ends the main function: the run ends well and nothing is put out,
though the next statement prints. -/
theorem runProgram_stops_after_call :
    [Dialect.scoped, .closures, .objects].map (fun dialect =>
      let r := runProgram 1000 (.scoped dialect) callFirst (Machine.start false false [] "")
      (r.1.toOption, r.2.console.log.size)) = [(some (), 0), (some (), 0), (some (), 0)] := by
  decide +kernel

end LangKit.Script

import LangKit.Proofs.Safety.Moments

/-!
# No sharing between names

In the scoped dialect a scope starts out with the bindings of the scope around it, so one name may
stand for one node in many live scopes. Two names never do: what is bound is always a node made for
it. So an assignment is seen through its own name only, and never by the program:
`names_share_no_nodes`.
-/

namespace LangKit.Script

open Run Store
open Stacked (Setting)

theorem Unshared.not_sharesWith {scopes : List Scope} {scope scope' : Scope}
    (h : Unshared c s scopes) (hs : s.Separate) (hscope : scope ∈ scopes)
    (hscope' : scope' ∈ scopes) (hne : y ≠ x) (hy : Assoc.get? y scope' = some (.node ref)) :
    ¬ SharesWith s scope x ref := by
  rintro ⟨r, hx, hshare⟩
  obtain ⟨-, hr⟩ := h.range hscope hx
  obtain ⟨-, href⟩ := h.range hscope' hy
  have hsame : ref = r := by
    rcases hshare with heq | htable
    · exact heq
    · -- Every node has a table of its own.
      rwa [hs.own _ href, hs.own _ hr] at htable
  subst hsame
  exact hne (h.name scope' hscope' scope hscope y x _ hy hx)

/-- At every moment in the run of a program in the scoped dialect, no two different names are bound
to the same node, in whichever live scopes they are; a name is never bound to a node of the program;
and the nodes of the program are as they were loaded. So an assignment without calls, however it
ends, leaves every other name bound to the same node in every live scope, and the node as it was. -/
theorem names_share_no_nodes {limit : Nat} {text typed : String} {echo trace : Bool}
    {inputs : List Tree} {program : Datum} {loaded : Machine}
    (parsed : loadProgram text (Machine.start echo trace inputs typed) = (.ok program, loaded)) :
    (∀ scopes m, Moment .scoped limit text (Machine.start echo trace inputs typed) scopes m →
      (∀ scope ∈ scopes, ∀ scope' ∈ scopes, ∀ x y d,
        Assoc.get? x scope = some d → Assoc.get? y scope' = some d → x = y) ∧
      (∀ scope ∈ scopes, ∀ x d, Assoc.get? x scope = some d →
        ∃ ref, d = .node ref ∧ loaded.store.size ≤ ref ∧ ref < m.store.size) ∧
      (∀ ref < loaded.store.size, m.store.node ref = loaded.store.node ref) ∧
      field program "functions" m = (.ok (.list m.functions), m)) ∧
    ∀ fuel scope node x e m outer,
      Running .scoped limit text (Machine.start echo trace inputs typed)
        (⟨fuel, .exec scope node, m⟩ :: outer) →
      Assigns m node x e → CallFree .scoped m.store e →
      ∀ y, y ≠ x →
        Assoc.get? y (Activity.outcome .scoped ⟨fuel, .exec scope node, m⟩).1 = Assoc.get? y scope ∧
        ∀ scope' ∈ scope :: outer.map Activity.scope, ∀ ref, Assoc.get? y scope' =
          some (.node ref) →
          (Activity.outcome .scoped ⟨fuel, .exec scope node, m⟩).2.store.node ref =
            m.store.node ref := by
  obtain ⟨c, m0, hloaded, hbase, p, hp, rfl, hfunctions⟩ :=
    exists_loaded parsed (separate_start echo trace inputs typed)
  rw [← hbase]
  refine ⟨fun scopes m hmoment => ?_,
    fun fuel scope node x e m outer running assigns free y hne => ?_⟩
  · obtain ⟨hhalted, hscopes⟩ := hmoment.halted hloaded
    refine ⟨hscopes.name, hscopes.node, hhalted.base.node, field_apply ?_⟩
    rw [hhalted.functions, ← hfunctions, Store.field?, Store.field?]
    exact congrArg _ (congrArg Prod.snd (hhalted.base.node p hp))
  · obtain ⟨⟨-, hm, hscopes⟩, -⟩ := running.proper hloaded
    have hsep : m.store.Separate := hm.base.separate
    have hplain : Dialect.scoped.hasObjects = false := rfl
    obtain ⟨hassigned, hnames⟩ := assigns.outcome scope fuel hplain hsep.formed free
    refine ⟨hnames y hne, fun scope' hscope' ref hy => ?_⟩
    obtain ⟨-, href⟩ := hscopes.range hscope' hy
    exact hassigned.node hsep.formed href
      (hscopes.not_sharesWith hsep List.mem_cons_self hscope' hne hy)

/-- A function copies a variable of its caller and then sets the copy to something else. -/
def relayed : String :=
  "func f(x) \x7b z = y; z = x; return z; \x7d func main() \x7b y = 1; f(2); \x7d"

/-- The variable of the caller is live in the function too, and is left alone. -/
theorem names_share_no_nodes_relayed :
    ∃ program loaded fuel scope node e m outer ref,
      loadProgram relayed (Machine.start false false [] "") = (.ok program, loaded) ∧
      Running .scoped 1000 relayed (Machine.start false false [] "")
        (⟨fuel, .exec scope node, m⟩ :: outer) ∧
      outer.length = 2 ∧ Assigns m node "z" e ∧ CallFree .scoped m.store e ∧
      Assoc.get? "y" scope = some (.node ref) ∧ loaded.store.size ≤ ref ∧
      (Activity.outcome .scoped ⟨fuel, .exec scope node, m⟩).2.store.node ref =
        m.store.node ref := by
  have hload : ((do
      let _ ← loadProgram relayed
      return ()) (Machine.start false false [] "")).1.toOption = some () := by decide +kernel
  have hrun : (path? .scoped 1000 (enterMain relayed) (Machine.start false false [] "") 1
    [.call, .body 1]).any fun r =>
      decide (r.2.length = 2) && r.1.assigns?.any fun p =>
        decide (p.2.2.1 = "z" ∧ (kindOf p.2.2.2 r.1.machine).1.toOption = some "var") && Assoc.has
            "y" p.1 := by
    decide +kernel
  obtain ⟨loaded', hload⟩ := exists_of_toOption hload
  obtain ⟨program, loaded, parsed, -⟩ := bind_eq_ok.1 hload
  simp only [Option.any_eq_true, Bool.and_eq_true, decide_eq_true_eq] at hrun
  obtain ⟨⟨⟨fuel, job, m⟩, outer⟩, hpath, houter, ⟨inner', node, _, e⟩, hassigns, ⟨rfl, hkind⟩,
    hbound⟩ := hrun
  obtain ⟨rfl, assigns⟩ := Activity.assigns_of_assigns? hassigns
  have running := running_of_path? hpath
  have free : CallFree .scoped m.store e :=
    callFree_of_kind ((observes_kindOf e).of_toOption hkind) (by decide) (by decide)
  obtain ⟨hmoments, hassign⟩ := names_share_no_nodes parsed
  obtain ⟨v, hv⟩ : ∃ v, Assoc.get? "y" inner' = some v := Option.isSome_iff_exists.1 hbound
  obtain ⟨ref, rfl, hlow, -⟩ :=
    (hmoments _ _ (.begins running)).2.1 inner' List.mem_cons_self "y" v hv
  refine ⟨program, loaded, fuel, inner', node, e, m, outer, ref, parsed, running, houter, assigns,
    free, hv, hlow, ?_⟩
  exact (hassign _ _ _ _ _ _ _ running assigns free "y" (by decide)).2 inner' List.mem_cons_self ref
    hv

end LangKit.Script

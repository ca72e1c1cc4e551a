import LangKit.Proofs.Ast.Shape
import LangKit.Proofs.Ast.Writable
import LangKit.Proofs.Parallel.StraightLine

/-!
# Two runs of a program

A program is loaded into two stores that correspond, so that its nodes do. From there on the
statements of its main function go in step: `matches_scoped`, `matches_straightLine`. What fails can
be found among the activities that are under way when a run fails (`exists_running`).
-/

namespace LangKit.Script.Parallel

open Run Store
open Closures (valueKinds madeKinds)

variable {fs fs' : List Datum} {printed text : String} {dialect : Dialect}

variable {g : Region} {b : Bridge g} {B : Blame} {m m' m1 m1' : Machine}

/-! ## Loading -/

/-- Two states in which a program is about to be loaded. The region of the program begins here. -/
structure Begun (b : Bridge g) (m m' : Machine) : Prop where
  cells : g.cells = m.store.size
  tables : g.tables = m.store.tables.size
  formed : m.store.Formed
  stores : b.stores m.store m'.store
  consoles : b.consoles m.console m'.console

theorem furnished_of_empty (hs : s.Formed) (hcells : g.cells = s.size)
    (htables : g.tables = s.tables.size) : Furnished g s := by
  have hnone : ∀ r, ¬ g.Own s r := by
    intro r hr
    have hlow := hr.1
    rw [hcells] at hlow
    exact Nat.lt_irrefl _ (Nat.lt_of_lt_of_le hr.2 hlow)
  exact ⟨hs, Nat.le_of_eq hcells, Nat.le_of_eq htables, fun r hr => absurd hr (hnone r),
    fun r hr => absurd hr (hnone r), fun r _ hr => absurd hr (hnone r),
      fun _ _ r hr => absurd hr (hnone r)⟩

/-! ## The main function -/

/-- What a run has found for its main function: nothing, or functions that correspond. -/
inductive Mains (b : Bridge g) (s : Store) : Datum → Datum → Prop
  | none : Mains b s .null .null
  | some {d d' : Datum} (function : IsFunction g s d) (like : Datum.Like b.rel d d') :
      Mains b s d d'

section

variable (h : Joined b m m') (hfs : ∀ d ∈ fs, IsFunction g m.store d)
  (hl : Datum.LikeAll b.rel fs fs')
include h hfs hl

theorem matches_findMain : Matches b B m m' (findMain fs) (findMain fs')
      (fun d d' m1 => Mains b m1.store d d' ∧ (d = .null ∨ d ∈ fs) ∧ m1 = m) := by
  induction fs generalizing fs' with
  | nil =>
    cases hl
    exact .pure h ⟨.none, .inl rfl, rfl⟩
  | cons d rest ih =>
    obtain ⟨hd, hrest⟩ := List.forall_mem_cons.1 hfs
    cases hl with
    | cons first more =>
      refine .nameOf h ⟨hd.known, first⟩ (hd.present (by decide))
        fun y _ => matches_ite (fun _ => ?_) fun _ => ?_
      · exact .pure h ⟨.some hd first, .inr List.mem_cons_self, rfl⟩
      · exact (ih hrest more).mono fun _ _ _ _ hq =>
          ⟨hq.1, hq.2.1.imp_right (List.mem_cons_of_mem _), hq.2.2⟩

theorem matches_enterLoaded (hshown : b.hushed = true → ∀ d ∈ fs, ∃ t, m.store.textOf d = .ok t) :
    Matches b B m m' (enterLoaded fs) (enterLoaded fs') (After (Pairs b)) := by
  refine .next (matches_findMain h hfs hl) ?_
  rintro main main' m1 m1' - hj - ⟨hmain, hmem, rfl⟩
  have htext : m1'.store.textOf main' = m1.store.textOf main := by
    cases hmain with
    | none => rfl
    | some function like => exact hj.text_eq ⟨function.known, like⟩
  have hprint : Matches b .none m1 m1' (do print (← textOf main)) (do print (← textOf main'))
      (fun _ _ _ => True) := .textOf hj htext fun t _ => matches_print hj t
  refine .next (matches_traced hj (fun _ => hprint) fun e m2 hhushed _ hfail => ?_) ?_
  · -- A function has a text, and so has nothing.
    obtain ⟨t, ht⟩ : ∃ t, m1.store.textOf main = .ok t := by
      rcases hmem with rfl | hmem
      · exact ⟨_, rfl⟩
      · exact hshown hhushed main hmem
    have hok : textOf main m1 = (.ok t, m1) := by rw [Run.textOf, ht]
    rw [bind_of_ok hok] at hfail
    cases hfail
  intro _ _ m2 m2' _ hj2 ho2 _
  cases hmain with
  | none => exact matches_report hj2 _ _
  | some function like =>
    have hf2 := function.later ho2.later
    have hstatements : Matches b B m2 m2' (do items (← field main "statements"))
        (do items (← field main' "statements")) (After (Pairs b)) := by
      refine .present hj2 ⟨hf2.known, like⟩ (hf2.present (by decide)) fun d d' _ hpair => ?_
      have hitems : ∀ d : Datum, items d = items d >>= pure := fun d => (bind_pure _).symm
      rw [hitems, hitems d']
      exact .items hj2 hpair fun ds ds' _ hpairs => .pure hj2 hpairs
    obtain ⟨r, rfl, -⟩ := function
    cases like
    exact hstatements

end

/-! ## The start of a run -/

/-- The state in which the functions of a program are known. -/
def loaded (m : Machine) (text : String) (t : Tree) (printed : String) (fs : List Datum) :
    Machine where
  store := (m.store.load t).2
  console := { m.console with printed := m.console.printed ++ printed }
  functions := fs
  globals := []
  contexts := m.contexts
  reader := m.reader.after text

theorem enterMain_eq (hparse : parseProgram text = (.ok t, printed))
    (hload : (m.store.load t).1 = .node r)
    (hfs : (m.store.load t).2.field? r "functions" = some (.list fs)) :
    enterMain text m = enterLoaded fs (loaded m text t printed fs) := by
  have hfield : ∀ m1 : Machine, m1.store = (m.store.load t).2 →
      field (.node r) "functions" m1 = (.ok (.list fs), m1) := by
    intro m1 hm1
    rw [field_node, hm1, hfs, Option.elim_some]
  rw [enterMain, bind_of_ok (loadProgram_apply hparse m), hload, bind_of_ok (hfield _ rfl)]
  rfl

theorem enterMain_of_error (hparse : parseProgram text = (.error f, printed)) (m : Machine) :
    enterMain text m = (.error (.fault f), { m with
      console := { m.console with printed := m.console.printed ++ printed }
      reader := m.reader.after text }) := by
  have hload : loadProgram text m = (.error (.fault f), { m with
      console := { m.console with printed := m.console.printed ++ printed }
      reader := m.reader.after text }) := by
    rw [loadProgram_eq, hparse]
    rfl
  exact bind_eq_error.2 (.inl hload)

theorem not_isRead_of_parse (h : parseProgram text = (.error f, printed)) :
    ¬ IsRead (.fault f) := by
  refine not_isRead_of_fault fun shown heq => ?_
  rcases parseProgram_error h with hsyntax | ⟨digits, -, hlong⟩
  · rw [heq] at hsyntax
    cases hsyntax
  · rw [heq] at hlong
    cases hlong

theorem exists_text_of_functions (p : Ast.Program) {s : Store} (hs : s.Separate) {r : Nat}
    (hload : (s.load p.tree).1 = .node r)
    (hfs : (s.load p.tree).2.field? r "functions" = some (.list fs)) :
    ∀ d ∈ fs, ∃ t, (s.load p.tree).2.textOf d = .ok t := by
  have hwritable : ∀ f : Ast.Function, f.tree.Writable := fun f =>
    .node (.plain (.text _) (.list (Ast.formals_writable f.formals) (.list f.body.writable .nil)))
  have hholds := (holds_load p.tree hs).2
  rw [hload] at hholds
  cases hholds with
  | node lt named fields =>
    obtain ⟨d', hd', hlist⟩ := fields.get? "functions" rfl
    obtain rfl : Datum.list fs = d' := Option.some.inj (hfs.symm.trans hd')
    cases hlist with
    | list held =>
      generalize p.functions = functions at held
      generalize (s.load p.tree).2 = s1 at *
      clear hload hfs hd' named fields
      induction functions generalizing fs with
      | nil =>
        cases held
        exact List.forall_mem_nil _
      | cons f rest ih =>
        cases held with
        | cons first more =>
          refine List.forall_mem_cons.2 ⟨(hwritable f).exists_textWith first ?_, ih more⟩
          exact Nat.le_succ_of_le (Nat.le_of_lt lt)

theorem Matches.begin {α β : Type} {Q : α → β → Machine → Prop} {x x1 : Run α} {y y1 : Run β}
    (h : Matches b B m1 m1' x1 y1 Q) (hx : x m = x1 m1) (hy : y m' = y1 m1') (hj : Joined b m1 m1')
    (ho : Onward g m m1) :
    Matches b B m m' x y Q where
  ok a m2 hok := by
    obtain ⟨c, m2', hc, hj2, ho2, hq⟩ := h.ok a m2 (hx.symm.trans hok)
    exact ⟨c, m2', hy.trans hc, hj2, ho.trans ho2, hq⟩
  error e m2 herror := by
    obtain ⟨hhalts, hrest⟩ := h.error e m2 (hx.symm.trans herror)
    rw [hy]
    exact ⟨ho.halts hhalts hj, hrest⟩

def Region.AllowsText (g : Region) (text : String) : Prop :=
  ∀ t printed, parseProgram text = (.ok t, printed) → ∃ p : Ast.Program, t = p.tree ∧
    g.Allows p.isObjectFree

theorem allowsText_of_objects (h : g.objects = true) (text : String) : g.AllowsText text := by
  intro t printed hparse
  obtain ⟨p, rfl⟩ := Ast.exists_program_of_parse hparse
  exact ⟨p, rfl, fun hnone => absurd (h.symm.trans hnone) (by decide)⟩

theorem matches_enterMain (h : Begun b m m') (hshown : b.hushed = true → m.store.Separate)
    (hallows : g.AllowsText text) :
    Matches b B m m' (enterMain text) (enterMain text) (After (Pairs b)) := by
  have hfurnished := furnished_of_empty h.formed h.cells h.tables
  rcases hparse : parseProgram text with ⟨f | t, printed⟩
  · have hleft := enterMain_of_error hparse m
    refine ⟨fun a m1 hok => ?_, fun e m1 herror => ?_⟩
    · rw [hleft] at hok
      cases hok
    · rw [hleft] at herror
      obtain ⟨rfl, rfl⟩ := error_inj herror
      exact ⟨⟨m.store, .refl hfurnished, .inl rfl⟩,
        fun hr => absurd hr (not_isRead_of_parse hparse),
          .inr ⟨_, enterMain_of_error hparse m', b.printed h.consoles printed⟩⟩
  · obtain ⟨p, rfl, hp⟩ := hallows _ _ hparse
    obtain ⟨hadvance, r, fs, hload, hr, hfs, hfunctions⟩ :=
      Parallel.loads_program p hp m.store hfurnished
    obtain ⟨hstores, hlike⟩ := like_load (fun _ _ _ _ _ => b.alloc) p.tree h.stores
    rw [hload] at hlike
    generalize hload' : (m'.store.load p.tree).1 = d' at hlike
    cases hlike with
    | @node _ r' related =>
      rcases (b.fields hstores hr related).get? "functions" with ⟨hnone, -⟩ | ⟨d, d',
        hd, hd', hlike⟩
      · rw [Store.field?, hnone] at hfs
        cases hfs
      · obtain rfl : Datum.list fs = d := Option.some.inj (hfs.symm.trans hd)
        cases hlike with
        | @list _ fs' hitems =>
          have hjoined : Joined b (loaded m text p.tree printed fs)
              (loaded m' text p.tree printed fs') :=
            ⟨⟨hadvance.furnished, hfunctions, List.forall_mem_nil _⟩, hstores,
              b.printed h.consoles printed, hitems, .nil⟩
          refine (matches_enterLoaded hjoined hfunctions hitems fun hhushed => ?_).begin
            (enterMain_eq hparse hload hfs) (enterMain_eq hparse hload' hd') hjoined
            ⟨hadvance.later, hadvance.spares⟩
          exact exists_text_of_functions p (hshown hhushed) hload hfs

/-! ## Whole runs -/

/-- What accounts for the failures of a run: mishaps of the activities that its main function
starts. -/
def programBlame (dialect : Dialect) (limit : Nat) (text : String) (m : Machine) : Blame where
  reads e m1 := ∃ a, MainStarts dialect limit text m a ∧ Fails dialect (ReadMishap dialect) a e m1
  cut e m1 := ∃ a, MainStarts dialect limit text m a ∧ Fails dialect (CutMishap dialect) a e m1

theorem matches_scoped (hg : g.closures = dialect.hasClosures) (h : Begun b m m')
    (hshown : b.hushed = true → m.store.Separate) (hallows : g.AllowsText text) :
    Matches b (programBlame dialect limit text m) m m' (runProgram limit (.scoped dialect) text)
      (runProgram limit (.scoped dialect) text) (fun _ _ _ => True) := by
  obtain ⟨-, hexec, -⟩ := matches_all b hg limit
  rw [runProgram_eq_enter]
  refine .next (matches_enterMain h hshown hallows) fun ds ds' m1 m1' hentered hj ho hpairs => ?_
  have hrow : Matches b (programBlame dialect limit text m) m1 m1'
      (block (Row.main.step dialect limit) ds []) (block (Row.main.step dialect limit) ds' [])
      (After (Ends b)) := by
    refine matches_block hj ⟨List.forall_mem_nil _, .nil⟩ hpairs ?_
    intro s s' scope scope' m2 m2' hreached hj2 _ hscopes hpair
    refine matches_step .main hj2 hscopes (fun m3 m3' hsaid hj3 ho3 => ?_) ?_
    · have hstarts : MainStarts dialect limit text m ⟨limit, .exec scope s, m3⟩ :=
        .statement hentered hreached hsaid
      exact (hexec hj3 (hscopes.later ho3) (hpair.later ho3)).blame
        ⟨fun e m4 hfail => ⟨_, hstarts, hfail⟩, fun e m4 hfail => ⟨_, hstarts, hfail⟩⟩
    · intro outer title m3 scope1 d m4 e m5 hbody
      cases hbody
  exact .bind hrow fun _ _ m2 m2' _ hj2 _ _ => .pure hj2 trivial

theorem matches_straightLine (hg : g.closures = false) (h : Begun b m m')
    (hshown : b.hushed = true → m.store.Separate) (hallows : g.AllowsText text) :
    Matches b (straightBlame limit text m) m m' (runProgram limit .straightLine text)
      (runProgram limit .straightLine text) (fun _ _ _ => True) := by
  rw [runProgram_straightLine_eq]
  refine .next (matches_enterMain h hshown hallows) fun ds ds' m1 m1' hentered hj _ hpairs => ?_
  exact matches_execAll hg (.main hentered) hj hpairs

theorem exists_running {mishap : Activity → Stop → Machine → Prop}
    (h : Fails dialect mishap a e m1) (ha : Running dialect limit text m (a :: rest)) :
    ∃ c rest', Running dialect limit text m (c :: rest') ∧ mishap c e m1 := by
  induction h generalizing rest with
  | here own => exact ⟨_, rest, ha, own⟩
  | inner starts _ ih => exact ih (.inner ha starts)

end LangKit.Script.Parallel

/-
A graft is applied to a module at most once, whatever else is done to the module.

- `apply_skipped_iff`: an application is skipped just when the module is not eligible, and then it does nothing.
- `Marked`: the module has the name and the marker. Nothing undoes that (`Marked.grows`), and an application to such a
  module is skipped (`Marked.visit`).
- `Event`, `visits`, `Orderly`: a history with its applications, in which a mark is set after an application that
  succeeds before there is another one.
- `applied_once`: then at most one of them succeeds, and those behind it are skipped.
-/
import CilGraft.Proofs.ErrorKinds
import CilGraft.Proofs.GraftedModule
import CilGraft.Proofs.ModuleHistories

namespace CilGraft.Graft

variable {g : Graft} {m m' dependency : Module}

/-! ## An application -/

theorem canPatch_eq_false : g.canPatch m = false ↔ ∃ reason, g.guard.ineligibility? m = some reason := by
  rw [canPatch, Option.isNone_eq_false_iff, Option.isSome_iff_exists]

/-- a module that is not eligible is left alone -/
theorem run_ineligible {reason : Ineligibility} (h : g.guard.ineligibility? m = some reason) (dependency : Module) :
    (g.run m dependency).module = m ∧ (g.run m dependency).result = .error (.ineligible m.name reason) := by
  have hcheck : g.guard.check m = .error (.ineligible m.name reason) := Guard.check_eq_error.2 ⟨reason, h, rfl⟩
  have hexecute : g.execute { module := m } dependency = .error ⟨.ineligible m.name reason, { module := m }⟩ := by
    simp only [execute, hcheck, leaving_error, bind, Except.bind]
  rw [run, hexecute]
  exact ⟨rfl, rfl⟩

theorem apply_ineligible {reason : Ineligibility} (h : g.guard.ineligibility? m = some reason) (dependency : Module) :
    g.apply m dependency = (m, .ok (.skipped reason)) := by
  obtain ⟨hmodule, hresult⟩ := run_ineligible h dependency
  simp only [apply, hresult, hmodule]

theorem apply_module (g : Graft) (m dependency : Module) : (g.apply m dependency).1 = (g.run m dependency).module := by
  unfold apply
  dsimp only
  split <;> rfl

/-- **An application is skipped just when the module is not eligible.** No failure is taken for a skip. -/
theorem apply_skipped_iff {reason : Ineligibility} :
    (g.apply m dependency).2 = .ok (.skipped reason) ↔ g.guard.ineligibility? m = some reason := by
  constructor
  · intro h
    unfold apply at h
    dsimp only at h
    split at h
    · cases h
    · rename_i name reason' hresult
      injection h with h
      injection h with h
      subst h
      obtain ⟨p, hfail, -, -⟩ := run_eq_error hresult
      obtain ⟨hcheck, -⟩ := execute_skip hfail rfl
      obtain ⟨found, hfound, he⟩ := Guard.check_eq_error.1 hcheck
      injection he with _ hreason
      exact hreason ▸ hfound
    · cases h
  · intro h
    rw [apply_ineligible h]

theorem apply_applied {report : GraftReport} (h : (g.apply m dependency).2 = .ok (.applied report)) :
    g.guard.ineligibility? m = none := by
  cases hreason : g.guard.ineligibility? m with
  | none => rfl
  | some reason =>
    rw [apply_ineligible hreason] at h
    cases h

/-! ## Marked modules -/

/-- the module of the graft, with its marker -/
structure Marked (g : Graft) (m : Module) : Prop where
  name : m.name = g.config.moduleName
  marker : m.hasMarker g.config.marker = true

theorem name_of_eligible (h : g.guard.ineligibility? m = none) : m.name = g.config.moduleName := by
  unfold Guard.ineligibility? at h
  by_contra hname
  have hother : m.name ≠ g.guard.moduleName := hname
  rw [if_pos hother] at h
  cases h

theorem marked_of_mark (h : m.name = g.config.moduleName) : g.Marked (g.guard.mark m).1 :=
  ⟨h, Module.hasMarker_addMarker.2 (Or.inl rfl)⟩

namespace Marked

variable (h : g.Marked m)
include h

/-- **Nothing takes the marker or the name away.** -/
theorem grows (hm : m.Grows m') : g.Marked m' := ⟨hm.name.trans h.name, hm.markers _ h.marker⟩

theorem ineligibility? : g.guard.ineligibility? m = some (.alreadyPatched g.config.marker) := by
  have hname : ¬ m.name ≠ g.guard.moduleName := not_not.2 h.name
  have hmarker : g.guard.isMarked m = true := h.marker
  rw [Guard.ineligibility?, if_neg hname, if_pos hmarker]
  rfl

end Marked

/-! ## Histories -/

/-- what happens to a module: the graft is applied or marked, or anything else is done -/
inductive Event where
  | apply (dependency : Module)
  | mark
  | change (c : Change)

/-- an application, with the module before and behind it -/
structure Visit where
  before : Module
  outcome : Except Error Outcome
  after : Module

def Visit.isApplied (v : Visit) : Bool :=
  match v.outcome with
  | .ok (.applied _) => true
  | _ => false

def Visit.isSkipped (v : Visit) : Bool :=
  match v.outcome with
  | .ok (.skipped _) => true
  | _ => false

def visit (g : Graft) (m dependency : Module) : Visit := ⟨m, (g.apply m dependency).2, (g.apply m dependency).1⟩

def Event.step (g : Graft) (m : Module) : Event → Module
  | apply dependency => (g.apply m dependency).1
  | mark => (g.guard.mark m).1
  | change c => c.apply m

/-- the applications of a history -/
def visits (g : Graft) : Module → List Event → List Visit
  | _, [] => []
  | m, .apply dependency :: events => g.visit m dependency :: visits g (g.apply m dependency).1 events
  | m, event :: events => visits g (event.step g m) events

/-- An application that succeeds is followed by a mark before the next application; `owed` tells that a mark is
outstanding. -/
def Orderly (g : Graft) : Bool → Module → List Event → Prop
  | _, _, [] => True
  | owed, m, .apply dependency :: events =>
    owed = false ∧ Orderly g (g.visit m dependency).isApplied (g.apply m dependency).1 events
  | _, m, .mark :: events => Orderly g false (g.guard.mark m).1 events
  | owed, m, .change c :: events => Orderly g owed (c.apply m) events

theorem step_grows (g : Graft) (m : Module) (event : Event) : m.Grows (event.step g m) := by
  cases event with
  | apply dependency =>
    change m.Grows (g.apply m dependency).1
    rw [apply_module]
    exact Module.apply_grows m (.graft g dependency)
  | mark => exact (Module.addMarker_settled m _).toGrows
  | change c => exact Module.apply_grows m c

/-- the graft has been applied and marked before: it is skipped, and the module stays as it is -/
def Visit.Repeated (g : Graft) (v : Visit) : Prop :=
  v.outcome = .ok (.skipped (.alreadyPatched g.config.marker)) ∧ v.after = v.before

theorem Visit.Repeated.not_applied {v : Visit} (h : v.Repeated g) : v.isApplied = false := by
  rw [isApplied, h.1]

theorem Marked.visit (h : g.Marked m) (dependency : Module) : (g.visit m dependency).Repeated g := by
  unfold Visit.Repeated Graft.visit
  rw [apply_ineligible h.ineligibility?]
  exact ⟨rfl, rfl⟩

/-- **A module that is marked stays so, and every application to it is skipped.** -/
theorem Marked.visits (h : g.Marked m) (events : List Event) : ∀ v ∈ g.visits m events, v.Repeated g := by
  induction events generalizing m with
  | nil => exact fun v hv => absurd hv List.not_mem_nil
  | cons event events ih =>
    have hstep := h.grows (step_grows g m event)
    cases event with
    | apply dependency => exact List.forall_mem_cons.2 ⟨h.visit dependency, ih hstep⟩
    | mark => exact ih hstep
    | change c => exact ih hstep

/-- as long as a mark is outstanding there is no application -/
theorem visits_of_owed {events : List Event} (h : g.Orderly true m events) (hname : m.name = g.config.moduleName) :
    ∀ v ∈ g.visits m events, v.Repeated g := by
  induction events generalizing m with
  | nil => exact fun v hv => absurd hv List.not_mem_nil
  | cons event events ih =>
    cases event with
    | apply dependency => exact absurd h.1 (by simp)
    | mark => exact (marked_of_mark hname).visits events
    | change c => exact ih h ((Module.apply_grows m c).name.trans hname)

/-- what is applied once is behind that only repeated -/
theorem visits_pairwise {events : List Event} (h : g.Orderly false m events) :
    (g.visits m events).Pairwise fun earlier later => earlier.isApplied = true → later.Repeated g := by
  induction events generalizing m with
  | nil => exact .nil
  | cons event events ih =>
    cases event with
    | apply dependency =>
      have hrest := h.2
      cases happlied : (g.visit m dependency).isApplied with
      | false =>
        rw [happlied] at hrest
        exact .cons (fun _ _ htrue => absurd (happlied.symm.trans htrue) (by simp)) (ih hrest)
      | true =>
        rw [happlied] at hrest
        have hname : m.name = g.config.moduleName := by
          unfold Visit.isApplied at happlied
          split at happlied
          · rename_i report hreport
            exact name_of_eligible (apply_applied hreport)
          · cases happlied
        have hgrows : m.Grows (g.apply m dependency).1 := step_grows g m (.apply dependency)
        have hrepeated := visits_of_owed hrest (hgrows.name.trans hname)
        refine .cons (fun v hv _ => hrepeated v hv) (List.pairwise_of_forall_mem_list fun _ _ v hv _ => hrepeated v hv)
    | mark => exact ih h
    | change c => exact ih h

theorem mem_visits {events : List Event} {v : Visit} (h : v ∈ g.visits m events) :
    ∃ before dependency, v = g.visit before dependency := by
  induction events generalizing m with
  | nil => cases h
  | cons event events ih =>
    cases event with
    | apply dependency =>
      rcases List.mem_cons.1 h with rfl | h
      · exact ⟨m, dependency, rfl⟩
      · exact ih h
    | mark => exact ih h
    | change c => exact ih h

theorem visit_skipped (g : Graft) (m dependency : Module) :
    ((g.visit m dependency).isSkipped = true ↔ g.canPatch m = false) ∧
      ((g.visit m dependency).isSkipped = true → (g.visit m dependency).after = m) := by
  have hskipped : (g.visit m dependency).isSkipped = true ↔ ∃ reason, g.guard.ineligibility? m = some reason := by
    unfold Visit.isSkipped
    constructor
    · intro h
      split at h
      · rename_i reason hreason
        exact ⟨reason, apply_skipped_iff.1 hreason⟩
      · cases h
    · rintro ⟨reason, hreason⟩
      rw [visit, apply_ineligible hreason]
  refine ⟨hskipped.trans canPatch_eq_false.symm, fun h => ?_⟩
  obtain ⟨reason, hreason⟩ := hskipped.1 h
  rw [visit, apply_ineligible hreason]

theorem countP_le_one {α : Type} {test : α → Bool} {xs : List α}
    (h : xs.Pairwise fun x y => test x = true → test y = false) : xs.countP test ≤ 1 := by
  induction h with
  | nil => exact Nat.zero_le _
  | @cons x xs hx hxs ih =>
    cases htest : test x with
    | false =>
      rw [List.countP_cons_of_neg (by simp [htest])]
      exact ih
    | true =>
      have hnone : xs.countP test = 0 := List.countP_eq_zero.2 fun y hy => by simp [hx y hy htest]
      rw [List.countP_cons_of_pos htest, hnone]

/-- **A graft is applied at most once.** In every history in which an application that succeeds is marked before there
is another one: at most one succeeds, and those behind it are skipped because of the marker and leave the module as it
is. Whatever the history, an application is skipped just when the module is not eligible, and then changes nothing. -/
theorem applied_once (g : Graft) (m : Module) (events : List Event) (h : g.Orderly false m events) :
    (g.visits m events).countP (·.isApplied) ≤ 1 ∧
      (g.visits m events).Pairwise (fun earlier later => earlier.isApplied = true →
        later.outcome = .ok (.skipped (.alreadyPatched g.config.marker)) ∧ later.after = later.before) ∧
      ∀ v ∈ g.visits m events, (v.isSkipped = true ↔ g.canPatch v.before = false) ∧
        (v.isSkipped = true → v.after = v.before) := by
  have hpairwise := visits_pairwise h
  refine ⟨countP_le_one (hpairwise.imp fun hrepeated happlied => (hrepeated happlied).not_applied), hpairwise, ?_⟩
  intro v hv
  obtain ⟨before, dependency, rfl⟩ := mem_visits hv
  exact visit_skipped g before dependency

/-- applied, marked, and then applied again after another marker was set -/
def sampleEvents : List Event := [.apply engine, .mark, .change (.addMarker "TEST"), .apply engine]

theorem applied_once_sample : (Graft.mk {}).Orderly false game sampleEvents ∧
    ∃ first again, (Graft.mk {}).visits game sampleEvents = [first, again] ∧ first.isApplied = true ∧
      again.outcome = .ok (.skipped (.alreadyPatched "CM3D2_TEXTURERESOLUTION")) ∧ again.after = again.before := by
  have horderly : (Graft.mk {}).Orderly false game sampleEvents := ⟨rfl, rfl, trivial⟩
  obtain ⟨-, hpairwise, -⟩ := applied_once (Graft.mk {}) game sampleEvents horderly
  obtain ⟨report, hreport, -⟩ := run_game
  have happlied : ((Graft.mk {}).visit game engine).isApplied = true := by
    unfold Visit.isApplied visit apply
    dsimp only
    rw [hreport]
  obtain ⟨hrepeated, -⟩ := List.pairwise_cons.1 hpairwise
  exact ⟨horderly, _, _, rfl, happlied, hrepeated _ List.mem_cons_self happlied⟩

end CilGraft.Graft

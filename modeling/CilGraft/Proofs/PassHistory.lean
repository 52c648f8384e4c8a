/-
The stages that a run goes through, and what it can fail with at each of them.

- `Course`: the five histories that there are, each with its results. The result determines the history
  (`Course.unique`), and the last stage is the only one that ends a run (`Course.ends`).
- `graftBody_staged`, `execute_staged`: a failure is of the kind that its stage looks for.
- `run_course`: every run takes one of these courses.
-/
import CilGraft.Proofs.ErrorKinds
import CilGraft.Proofs.GraftedModule

namespace CilGraft.Graft

open Error (OfStack OfAnchors OfMembers)

/-! ## Courses -/

/-- a history of a run, with what the run comes back with -/
inductive Course : List Stage → Except Error GraftReport → Prop where
  | rejected (name : String) (reason : Ineligibility) :
      Course [.unchecked, .rejected] (.error (.ineligible name reason))
  | missingMember {e : Error} (he : e.OfMembers) : Course [.unchecked, .eligible, .failed e.message] (.error e)
  | missingAnchor {e : Error} (he : e.OfAnchors) :
      Course [.unchecked, .eligible, .methodResolved, .failed e.message] (.error e)
  | unfitStack {e : Error} (he : e.OfStack) :
      Course [.unchecked, .eligible, .methodResolved, .anchorsLocated, .failed e.message] (.error e)
  | done (report : GraftReport) :
      Course [.unchecked, .eligible, .methodResolved, .anchorsLocated, .localAllocated, .spliced, .done] (.ok report)

namespace Course

variable {history history' : List Stage} {result : Except Error GraftReport}

/-- **The result determines the history.** -/
theorem unique (h : Course history result) (h' : Course history' result) : history = history' := by
  -- no error is of two kinds
  cases h with
  | rejected =>
    cases h' with
    | rejected => rfl
    | missingMember he | missingAnchor he | unfitStack he => exact he.elim
  | missingMember he =>
    cases h' with
    | rejected => exact he.elim
    | missingMember => rfl
    | missingAnchor he' => exact absurd he' he.not_anchors
    | unfitStack he' => exact absurd he' he.not_stack
  | missingAnchor he =>
    cases h' with
    | rejected => exact he.elim
    | missingMember he' => exact absurd he he'.not_anchors
    | missingAnchor => rfl
    | unfitStack he' => exact absurd he' he.not_stack
  | unfitStack he =>
    cases h' with
    | rejected => exact he.elim
    | missingMember he' => exact absurd he he'.not_stack
    | missingAnchor he' => exact absurd he he'.not_stack
    | unfitStack => rfl
  | done =>
    cases h'
    rfl

/-- a run is rejected just when it says that the module is not to be changed -/
theorem rejected_iff (h : Course history result) :
    history = [.unchecked, .rejected] ↔ ∃ name reason, result = .error (.ineligible name reason) := by
  constructor
  · rintro rfl
    cases h
    exact ⟨_, _, rfl⟩
  · rintro ⟨name, reason, rfl⟩
    exact h.unique (.rejected name reason)

/-- a run gets to the end just when it succeeds -/
theorem done_iff (h : Course history result) :
    history = [.unchecked, .eligible, .methodResolved, .anchorsLocated, .localAllocated, .spliced, .done] ↔
      ∃ report, result = .ok report := by
  constructor
  · rintro rfl
    cases h
    exact ⟨_, rfl⟩
  · rintro ⟨report, rfl⟩
    exact h.unique (.done report)

/-- **The last stage ends the run, and no other does.** -/
theorem ends (h : Course history result) : ∃ before last, history = before ++ [last] ∧ last.isTerminal = true ∧
    ∀ stage ∈ before, stage.isTerminal = false := by
  cases h with
  | rejected => exact ⟨[.unchecked], _, rfl, rfl, by decide⟩
  | missingMember => exact ⟨[.unchecked, .eligible], _, rfl, rfl, by decide⟩
  | missingAnchor => exact ⟨[.unchecked, .eligible, .methodResolved], _, rfl, rfl, by decide⟩
  | unfitStack => exact ⟨[.unchecked, .eligible, .methodResolved, .anchorsLocated], _, rfl, rfl, by decide⟩
  | done =>
    exact ⟨[.unchecked, .eligible, .methodResolved, .anchorsLocated, .localAllocated, .spliced], _, rfl, rfl,
      by decide⟩

end Course

/-! ## What fails at which stage -/

variable {g : Graft} {m dependency : Module} {members : ImportedMembers} {method : Token} {signature : MethodSig}
  {b : Body} {p : Pass} {f : Failure Pass}

/-- **A graft of a body** fails as long as it looks for instructions and slots, or when it analyzes the body, but not
after that. -/
theorem graftBody_staged (hb : b.WellFormed) (h : members.Linked g.config p.module.resolve)
    (hvector : p.module.resolvesType members.vector = true)
    (hfail : g.graftBody p members method signature b = .error f) :
    (f.error.OfAnchors ∧ f.state = p) ∨ (f.error.OfStack ∧ f.state = p.advance .anchorsLocated) := by
  rcases graftBody_failed hfail with hanchors | ⟨hstack, hstate⟩ | ⟨-, hnot⟩
  · exact Or.inl hanchors
  · exact Or.inr ⟨hstack hvector, hstate⟩
  · exact absurd ⟨hb, h⟩ hnot

namespace Resolved

variable {imported : Module} {index : Nat} {row : MethodRow} (h : g.Resolved m dependency imported members index row)
include h

theorem vector_known : imported.resolvesType members.vector = true := by
  obtain ⟨vector, -, hout⟩ := Config.resolveMembers_eq_ok.1 h.members
  cases hout
  exact Config.importMembers_resolvesType _ _ _

/-- the body is still there after the members were imported -/
theorem body_isSome (ha : m.Addressable) : (imported.body? (.ofIndex .methodDef index)).isSome = true := by
  obtain ⟨owner, -, hcandidate, -⟩ := h.target.first
  rw [h.extends_imported.body?, Module.body?, h.target.method? ha]
  exact hcandidate.body

end Resolved

theorem ofError_failed {e : Error} (h : e.isSkip = false) : Stage.ofError e = .failed e.message := by
  simp only [Stage.ofError, h]
  rfl

/-- **Where a pass fails, and with what.** -/
theorem execute_staged (hm : m.Built) (ha : f.state.module.Addressable)
    (hfail : g.execute { module := m } dependency = .error f) :
    Course (f.state.history ++ [.ofError f.error]) (.error f.error) := by
  rcases execute_failed hfail with
    ⟨hguard, hstate⟩ | ⟨he, hstate⟩ | ⟨imported, members, index, row, hresolved, ⟨b, hb, hfail⟩ | ⟨hnone, hstate⟩⟩
  · obtain ⟨reason, -, he⟩ := Guard.check_eq_error.1 hguard
    rw [hstate, he]
    exact .rejected _ reason
  · rw [hstate, ofError_failed he.not_skip]
    exact .missingMember he
  · have himported : imported.Addressable := by
      rcases graftBody_error_module hfail with hmodule | ⟨b', hmodule⟩
      · rwa [hmodule] at ha
      · rwa [hmodule, Module.setBody_addressable] at ha
    rcases graftBody_staged (hresolved.body_reachable hm hb).wellFormed (hresolved.linked himported)
      hresolved.vector_known hfail with ⟨he, hstate⟩ | ⟨he, hstate⟩
    · rw [hstate, ofError_failed he.not_skip]
      exact .missingAnchor he
    · rw [hstate, ofError_failed he.rewriting.not_skip]
      exact .unfitStack he
  · -- the method that was found has a body
    rw [hstate] at ha
    have hsome := hresolved.body_isSome (hresolved.extends_imported.addressable ha)
    rw [hnone] at hsome
    cases hsome

/-- **The course of a run.** Whatever the configuration and the dependency, and as long as the tables stay addressable, a
run takes one of five courses. Its result tells which; it is rejected just when it says that the module is not to be
changed, and gets to the end just when it succeeds; the stage that ends it is the last one, and there is no other. -/
theorem run_course (g : Graft) (m dependency : Module) (hm : m.Built) (ha : (g.run m dependency).module.Addressable) :
    let r := g.run m dependency
    Course r.history r.result ∧ (∀ history, Course history r.result → history = r.history) ∧
      (r.history = [.unchecked, .rejected] ↔ ∃ name reason, r.result = .error (.ineligible name reason)) ∧
      (r.history = [.unchecked, .eligible, .methodResolved, .anchorsLocated, .localAllocated, .spliced, .done] ↔
        ∃ report, r.result = .ok report) ∧
      ∃ before last, r.history = before ++ [last] ∧ last.isTerminal = true ∧
        ∀ stage ∈ before, stage.isTerminal = false := by
  intro r
  have hcourse : Course r.history r.result := by
    cases hresult : r.result with
    | ok report =>
      obtain ⟨p, hok, -, hhistory⟩ := run_eq_ok hresult
      obtain ⟨imported, members, index, row, b, w, -, -, -, hout⟩ := execute_eq_ok hm hok
      injection hout with hp
      rw [hhistory, hp]
      exact .done report
    | error e =>
      obtain ⟨p, hfail, hmodule, hhistory⟩ := run_eq_error hresult
      rw [hhistory]
      rw [hmodule] at ha
      exact execute_staged hm ha hfail
  exact ⟨hcourse, fun history h => h.unique hcourse, hcourse.rejected_iff, hcourse.done_iff, hcourse.ends⟩

/-- a run that succeeds, one on a module without types, and one on a module with another name -/
theorem run_course_samples :
    let g := Graft.mk {}
    let noTypes : Module := { name := "Assembly-CSharp" }
    let other : Module := { name := "Other" }
    (g.run game engine).history =
        [.unchecked, .eligible, .methodResolved, .anchorsLocated, .localAllocated, .spliced, .done] ∧
      (g.run noTypes engine).history =
        [.unchecked, .eligible, .failed "Method 'MulTexProc' not found on type 'TBody'"] ∧
      (g.run other engine).history = [.unchecked, .rejected] := by
  intro g noTypes other
  have haddressable : (g.run game engine).module.Addressable :=
    run_addressable game_addressable (by decide) (by decide)
  have hempty : ∀ name, (g.run { name } engine).module.Addressable := fun name =>
    run_addressable ⟨by simp, by simp, by simp, by simp⟩ (by simp) (by simp)
  obtain ⟨report, hreport, -⟩ := run_game
  obtain ⟨-, -, -, hdone, -⟩ := run_course g game engine game_built haddressable
  obtain ⟨-, hmissing, -⟩ := run_course g noTypes engine (.empty _) (hempty _)
  obtain ⟨-, -, hrejected, -⟩ := run_course g other engine (.empty _) (hempty _)
  refine ⟨hdone.2 ⟨report, hreport⟩, ?_, hrejected.2 ⟨_, _, rfl⟩⟩
  have hguard : g.guard.check noTypes = .ok () := by decide
  have htarget : g.targetMethod noTypes = .error (.methodNotFound "TBody" "MulTexProc") := by cbv
  have hresult : (g.run noTypes engine).result = .error (.methodNotFound "TBody" "MulTexProc") := by
    simp only [run, execute, hguard, Pass.advance, htarget, leaving_ok, leaving_error, bind, Except.bind]
  rw [hresult] at hmissing
  exact (hmissing _ (.missingMember trivial)).symm

end CilGraft.Graft

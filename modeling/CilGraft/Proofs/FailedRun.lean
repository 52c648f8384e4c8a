/-
A run that fails leaves the module alone.

- `run_error_untouched`: definitions, bodies, name and markers are as before. The tables of references are so too,
  unless the run has got as far as the members: then they may have more rows. A slot that nothing uses is never left
  behind.
- `bareGame`: a module on which a run imports the members and then misses its anchor.
-/
import CilGraft.Proofs.PassSteps

namespace CilGraft.Graft

/-- a stage that a run ends in is not one that it goes through -/
theorem ofError_isTerminal (e : Error) : (Stage.ofError e).isTerminal = true := by
  unfold Stage.ofError
  split_ifs <;> rfl

/-- **A run that fails leaves the module alone.** Whatever the configuration, the dependency and the cause, and as long
as the tables stay addressable: only rows of references may have been added, and those only if the members were
resolved. In particular no run fails once the slot for the ratio is added. -/
theorem run_error_untouched (g : Graft) (m dependency : Module) (e : Error) (hm : m.Built)
    (ha : (g.run m dependency).module.Addressable) (h : (g.run m dependency).result = .error e) :
    m.Extends (g.run m dependency).module ∧
      (.methodResolved ∉ (g.run m dependency).history → (g.run m dependency).module = m) ∧
      .localAllocated ∉ (g.run m dependency).history := by
  obtain ⟨p, hfail, hmodule, hhistory⟩ := run_eq_error h
  have hend : ∀ stage : Stage, stage.isTerminal = false → stage ≠ Stage.ofError e := by
    intro stage hstage heq
    rw [heq, ofError_isTerminal] at hstage
    cases hstage
  have hmem : ∀ stage : Stage, stage.isTerminal = false →
      (stage ∈ (g.run m dependency).history ↔ stage ∈ p.history) := by
    intro stage hstage
    rw [hhistory, List.mem_append, List.mem_singleton]
    exact or_iff_left (hend stage hstage)
  rw [hmem .methodResolved rfl, hmem .localAllocated rfl, hmodule]
  rw [hmodule] at ha
  rcases execute_error hm hfail with
    ⟨hp, hstages⟩ | ⟨imported, members, index, row, hresolved, ⟨hp, hstages⟩ | ⟨⟨b', hp⟩, hlinked⟩⟩
  · -- the module has not been touched
    dsimp only at hp hstages
    rw [hp]
    refine ⟨Module.Extends.refl m, fun _ => rfl, ?_⟩
    rcases hstages with hstages | hstages <;> simp [hstages]
  · -- the members were imported
    dsimp only at hp hstages
    rw [hp]
    refine ⟨hresolved.extends_imported, fun hnot => ?_, ?_⟩
    · rcases hstages with hstages | hstages <;> simp [hstages] at hnot
    · rcases hstages with hstages | hstages <;> simp [hstages]
  · -- the body was changed: then the tokens do not stand for the members, but they do
    dsimp only at hp
    rw [hp, Module.setBody_addressable] at ha
    exact absurd (hresolved.linked ha) hlinked

/-- a module whose target method returns at once -/
def bareGame : Module :=
  ({ name := "Assembly-CSharp" : Module }.addType ⟨⟨"", "TBody"⟩, .reference⟩ [
    { name := "MulTexProc", flags := 0x0006, signature := .instanceOf .void [.int32]
      body := some ((Body.empty 1).push { opcode := .ret }).1 }]).1

theorem bareGame_built : bareGame.Built := by
  refine .addType (.empty "Assembly-CSharp") _ _ fun method hmethod b hb => ?_
  rw [List.mem_singleton.1 hmethod] at hb
  cases hb
  exact .push (.empty 1) _ (by simp [Instruction.targets])

/-- the members are imported before it turns out that nothing is called there -/
theorem run_bareGame : ∃ e, ((Graft.mk {}).run bareGame engine).result = .error e ∧
    .methodResolved ∈ ((Graft.mk {}).run bareGame engine).history := by
  have hguard : (Graft.mk {}).guard.check bareGame = .ok () := by decide
  have htarget : ∃ row, (Graft.mk {}).targetMethod bareGame = .ok (.ofIndex .methodDef 0, row) := ⟨_, by cbv⟩
  obtain ⟨row, htarget⟩ := htarget
  have hmembers := resolveMembers_engine bareGame
  have hext := Config.importMembers_extends {} (.valueType ⟨"UnityEngine", "Vector3"⟩) bareGame
  have hbody : bareGame.body? (.ofIndex .methodDef 0) = some ((Body.empty 1).push { opcode := .ret }).1 := by cbv
  have hexecute := execute_eq hguard htarget hmembers (hext.body? _ ▸ hbody)
  have hlocate : ∀ resolve, (Graft.mk {}).activationAnchor.locate ((Body.empty 1).push { opcode := .ret }).1 resolve =
      .error (.anchorNotFound (Graft.mk {}).activationAnchor.text) := by
    intro resolve
    rfl
  simp only [graftBody, hlocate, leaving_error, bind, Except.bind] at hexecute
  refine ⟨.anchorNotFound (Graft.mk {}).activationAnchor.text, ?_⟩
  rw [run, hexecute]
  exact ⟨rfl, by simp⟩

/-- the module that such a run leaves has the members and is otherwise as it was -/
theorem run_error_untouched_bareGame :
    let r := (Graft.mk {}).run bareGame engine
    bareGame.Built ∧ r.module.Addressable ∧ (∃ e, r.result = .error e) ∧ .methodResolved ∈ r.history ∧
      bareGame.Extends r.module ∧ .localAllocated ∉ r.history := by
  intro r
  obtain ⟨e, hresult, hhistory⟩ := run_bareGame
  have haddressable : r.module.Addressable :=
    run_addressable ⟨by decide, by decide, by decide, by decide⟩ (by decide) (by decide)
  obtain ⟨hextends, -, hlocal⟩ :=
    run_error_untouched (Graft.mk {}) bareGame engine e bareGame_built haddressable hresult
  exact ⟨bareGame_built, haddressable, ⟨e, hresult⟩, hhistory, hextends, hlocal⟩

end CilGraft.Graft

/-
What a run does to the depth of the stack, against what the analysis tells of the instructions.

- `Runs.trace`: between the steps of a run of a block the stack has the depths of a trace of the block.
- `stack_moves_as_analyzed`: a step moves the stack by the effect of its instruction, or fails; a block that is run to
  its end moves it by the total change, and never beyond the peak.
-/
import CilGraft.Proofs.AnalyzedRuns
import CilGraft.Proofs.NetEffect

namespace CilGraft.Machine

open Stack (Context Trace effects totalChange peak)

variable {env : Surroundings} {c : Context} {block : List Instruction} {m m' : Machine}

section

variable (hc : c.resolve = env.resolve) (hvoid : VoidConstructors env.resolve) (hhooks : env.hooks.NoUnderflow)
  (heffects : ∀ i ∈ block, ∃ e, c.effect i = .ok e)
include hc hvoid hhooks heffects

/-- **The stack follows a trace of the block** while the block is run. -/
theorem Runs.trace (h : Runs env block m m') : ∃ depths, Trace c m.stack.length block depths ∧
    (m.stack.length :: depths)[block.length]? = some m'.stack.length ∧
    ∀ k ≤ block.length, ∃ m₁, Runs env (block.take k) m m₁ ∧
      (m.stack.length :: depths)[k]? = some m₁.stack.length := by
  induction h with
  | @nil m =>
    refine ⟨[], .nil, rfl, fun k hk => ?_⟩
    rw [Nat.le_zero.1 hk]
    exact ⟨m, .nil, rfl⟩
  | @cons i rest m m₁ m' hi hr _ ih =>
    obtain ⟨⟨e, he⟩, hrest⟩ := List.forall_mem_cons.1 heffects
    obtain ⟨depths, htrace, hlast, hbetween⟩ := ih hrest
    have hret := hi.ne_ret hr
    obtain ⟨hpops, -⟩ := step_moves hc hvoid hhooks hret he (hi 0)
    rw [step_depth hc hvoid hhooks hret he (hi 0)] at htrace hlast hbetween
    refine ⟨_, .cons he hpops htrace, hlast, fun k hk => ?_⟩
    cases k with
    | zero => exact ⟨m, .nil, rfl⟩
    | succ k =>
      obtain ⟨m₂, hruns, hdepth⟩ := hbetween k (Nat.le_of_succ_le_succ hk)
      exact ⟨m₂, .cons hi hr hruns, hdepth⟩

/-- the depth behind a run -/
theorem Runs.totalChange_eq (h : Runs env block m m') : ∃ es, effects c block = .ok es ∧
    (m'.stack.length : Int) = m.stack.length + totalChange es := by
  obtain ⟨depths, htrace, hlast, -⟩ := h.trace hc hvoid hhooks heffects
  exact htrace.totalChange_eq hlast

/-- **A run stays below the peak.** The peak is known, and wherever the run is stopped its stack is not deeper. -/
theorem Runs.le_peak (h : Runs env block m m') : ∃ top, peak env.resolve block m.stack.length = .ok top ∧
    ∀ k ≤ block.length, ∃ m₁, Runs env (block.take k) m m₁ ∧ m₁.stack.length ≤ top := by
  -- the peak is computed as if nothing were returned, and a run to the end of a block has no return in it
  have hknown : ∀ i ∈ block, ∃ e, (Context.mk env.resolve false).effect i = .ok e := fun i hi => by
    obtain ⟨e, he⟩ := heffects i hi
    rw [Stack.effect_of_ne_ret c (h.ne_ret i hi), hc] at he
    exact ⟨e, he⟩
  obtain ⟨depths, htrace, -, hbetween⟩ := h.trace rfl hvoid hhooks hknown
  refine ⟨_, Stack.peakFrom_eq_ok.2 ⟨depths, htrace, rfl⟩, fun k hk => ?_⟩
  obtain ⟨m₁, hruns, hdepth⟩ := hbetween k hk
  refine ⟨m₁, hruns, ?_⟩
  rw [Stack.foldl_max, ← Stack.top_cons]
  exact Stack.le_top (List.mem_of_getElem? hdepth)

end

/-- **The machine moves its stack as the analysis says.** For every module whose constructors return nothing, every
machine and hooks that do not themselves ask for operands: behind an instruction other than a return whose effect is
known, the results are on what the operands were taken from; without enough operands the instruction fails; and if it
fails for want of operands, they are missing, and it says how many there are. So a block of such instructions that is
run without a return makes the stack deeper by its total change; its peak is known, and the stack is never deeper. -/
theorem stack_moves_as_analyzed (module : Module) (hctor : module.VoidConstructors) (hooks : Hooks)
    (hhooks : hooks.NoUnderflow) (signature : MethodSig) :
    let env : Surroundings := ⟨module.resolve, hooks⟩
    let c := Context.ofSignature module.resolve signature
    (∀ (m : Machine) position i e, i.opcode ≠ .ret → c.effect i = .ok e →
      (∀ m', m.step env position i = .ok m' → e.pops.toNat ≤ m.stack.length ∧
        m'.stack.length = m.stack.length - e.pops.toNat + e.pushes.toNat ∧
        m'.stack.drop e.pushes.toNat = m.stack.drop e.pops.toNat) ∧
      (m.stack.length < e.pops.toNat → ∃ f, m.step env position i = .error f) ∧
      ∀ f p needed available, m.step env position i = .error f → f.error = .stackUnderflow p needed available →
        m.stack.length < e.pops.toNat ∧ p = position ∧ needed = e.pops.toNat ∧ available = m.stack.length) ∧
    ∀ block es, effects c block = .ok es → ∀ m m' : Machine, m.run env block = .ok m' → m'.returned = none →
      (m'.stack.length : Int) = m.stack.length + totalChange es ∧
      ∃ top, peak module.resolve block m.stack.length = .ok top ∧
        ∀ k ≤ block.length, ∃ m₁, m.run env (block.take k) = .ok m₁ ∧ m₁.stack.length ≤ top := by
  intro env c
  have hvoid : VoidConstructors env.resolve := hctor.resolve
  refine ⟨fun m position i e hret he => ⟨fun m' h => ?_, fun hmissing => ?_, fun f p needed available h hf => ?_⟩,
    fun block es hes m m' h hm' => ?_⟩
  · obtain ⟨hpops, results, hcount, hstack, -⟩ := step_moves (c := c) rfl hvoid hhooks hret he h
    refine ⟨hpops, step_depth (c := c) rfl hvoid hhooks hret he h, ?_⟩
    rw [hstack, ← hcount, List.drop_left]
  · cases hstep : m.step env position i with
    | error f => exact ⟨f, rfl⟩
    | ok m' => exact absurd (step_moves (c := c) rfl hvoid hhooks hret he hstep).1 (not_le.2 hmissing)
  · obtain ⟨hmissing, herror⟩ := step_underflow (c := c) rfl hvoid hhooks hret he h (by rw [hf]; rfl)
    rw [hf, Error.stackUnderflow.injEq] at herror
    exact ⟨hmissing, herror⟩
  · have hruns : Runs env block m m' := .of_runFrom h hm'
    have heffects : ∀ i ∈ block, ∃ e, c.effect i = .ok e := mapM_isOk_iff.1 ⟨es, hes⟩
    obtain ⟨es', hes', hchange⟩ := hruns.totalChange_eq (c := c) rfl hvoid hhooks heffects
    cases hes.symm.trans hes'
    obtain ⟨top, htop, hbelow⟩ := hruns.le_peak (c := c) rfl hvoid hhooks heffects
    refine ⟨hchange, top, htop, fun k hk => ?_⟩
    obtain ⟨m₁, hruns₁, hle⟩ := hbelow k hk
    exact ⟨m₁, hruns₁.runFrom_eq 0, hle⟩

/-- the stack while a vector is made in its slot and loaded, and an addition that finds nothing to add -/
theorem stack_moves_as_analyzed_vector :
    let hooks := Hooks.default ⟨"UnityEngine", "RenderTexture"⟩ ⟨"UnityEngine", "Vector3"⟩ 0 0
    let env : Surroundings := ⟨vectorModule.resolve, hooks⟩
    let block := vectorBody.instructions.take 6
    vectorModule.VoidConstructors ∧ hooks.NoUnderflow ∧
      (∃ f, (Machine.new 1 #[]).step env 0 { opcode := .add } = .error f) ∧
      ∃ m', (Machine.new 1 #[]).run env block = .ok m' ∧ (m'.stack.length : Int) = 1 ∧
        peak vectorModule.resolve block 0 = .ok 4 ∧
        ∀ k ≤ 6, ∃ m₁, (Machine.new 1 #[]).run env (block.take k) = .ok m₁ ∧ m₁.stack.length ≤ 4 := by
  intro hooks env block
  have hhooks : hooks.NoUnderflow := Hooks.default_noUnderflow _ _ _ _
  obtain ⟨hstep, hrun⟩ :=
    stack_moves_as_analyzed vectorModule vectorModule_voidConstructors hooks hhooks (.static .void [])
  have heffects : effects (.ofSignature vectorModule.resolve (.static .void [])) block =
      .ok [⟨0, 1⟩, ⟨0, 1⟩, ⟨1, 2⟩, ⟨1, 2⟩, ⟨4, 0⟩, ⟨0, 1⟩] := by cbv
  have hends : (Machine.new 1 #[]).run env block = .ok { locals := #[origin], stack := [origin] } := by cbv
  have hpeak : peak vectorModule.resolve block 0 = .ok 4 := by cbv
  obtain ⟨hchange, top, htop, hbelow⟩ := hrun block _ heffects _ _ hends rfl
  cases hpeak.symm.trans htop
  obtain ⟨-, hmissing, -⟩ := hstep (.new 1 #[]) 0 { opcode := .add } ⟨2, 1⟩ (by decide) rfl
  exact ⟨vectorModule_voidConstructors, hhooks, hmissing (by decide), _, hends, hchange.trans (by decide), hpeak, hbelow⟩

end CilGraft.Machine

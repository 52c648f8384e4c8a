/-
The stack analysis is sound for the machine.

- `Runs.reaches`: where a run of an accepted body comes to, the analysis knows that control comes there, with as many
  operands as the machine has on its stack.
- `run_stops`: such a run ends with a return that takes the whole stack.
- `run_error`: no such run fails for want of operands.
- `analyzed_run`: all three, for the report of the analysis on a body of a module.
-/
import CilGraft.Module
import CilGraft.Proofs.MachineDepth
import CilGraft.Proofs.WalkExact

namespace CilGraft

/-- every method and every reference that is named as a constructor returns nothing -/
structure Module.VoidConstructors (m : Module) : Prop where
  methods : ∀ row ∈ m.methods, row.name = constructorName → row.signature.result = .void
  memberRefs : ∀ member ∈ m.memberRefs, member.name = constructorName → member.signature.result = .void

theorem Module.VoidConstructors.resolve {m : Module} (h : m.VoidConstructors) :
    CilGraft.VoidConstructors m.resolve := by
  intro token member hmember hname
  unfold Module.resolve at hmember
  split at hmember
  · obtain ⟨row, hrow, hmember⟩ := Option.bind_eq_some_iff.1 hmember
    obtain ⟨declaring, -, rfl⟩ := Option.map_eq_some_iff.1 hmember
    obtain ⟨n, -, hn⟩ := Option.bind_eq_some_iff.1 hrow
    exact h.methods row (Array.mem_of_getElem? hn) hname
  · obtain ⟨n, -, hn⟩ := Option.bind_eq_some_iff.1 hmember
    exact h.memberRefs member (Array.mem_of_getElem? hn) hname
  · cases hmember

namespace Machine

open Stack (Context Reaches Disciplined analyze analyze_ok)

variable {env : Surroundings} {c : Context} {b : Body} {m m' : Machine} {f : Failure Machine}

/-- the instruction behind the first ones of a body -/
theorem instructionAt?_of_split {before rest : List Instruction} {i : Instruction}
    (h : b.instructions = before ++ i :: rest) :
    b.instructionAt? before.length = some i ∧ b.instructions.take before.length = before := by
  rw [← Body.instructions_getElem?, h]
  simp

/-- a return takes what the method at hand returns -/
theorem ret_pops {i : Instruction} {e : StackEffect} (hret : i.opcode = .ret) (he : c.effect i = .ok e) :
    e.pops.toNat = if c.returnsValue then 1 else 0 := by
  simp only [Context.effect, hret, Opcode.stackEffect?, if_true] at he
  exact (Stack.sized_eq_ok (Nat.zero_le _) he).1

section

variable (hc : c.resolve = env.resolve) (hvoid : VoidConstructors env.resolve) (hhooks : env.hooks.NoUnderflow)
  (hd : Disciplined c b) (hpos : 0 < b.size) (hm : m.stack = [])
include hc hvoid hhooks hd hpos hm

/-- **Where a run comes to, control comes to**, with the depth that the stack of the machine has. -/
theorem Runs.reaches {p : Nat} (hp : p ≤ b.size) (h : Runs env (b.instructions.take p) m m') :
    Reaches c b ⟨p, m'.stack.length⟩ := by
  induction p generalizing m' with
  | zero =>
    cases h
    rw [hm]
    exact .entry (.start hpos)
  | succ p ih =>
    obtain ⟨i, hi⟩ := Body.instructionAt?_of_lt hp
    rw [List.take_add_one, Body.instructions_getElem?, hi] at h
    obtain ⟨m₁, hbefore, hlast⟩ := h.of_append
    have hreach := ih (Nat.le_of_succ_le hp) hbefore
    obtain ⟨i', e, hi', he, -, -, -, -⟩ := hd.admissible _ hreach
    rw [hi] at hi'
    cases hi'
    cases hlast with
    | cons hstep hreturned hnil =>
      cases hnil
      -- a return would have ended the run
      have hret := hstep.ne_ret hreturned
      obtain ⟨plan, -, -, -, hplan, -⟩ := step_eq_ok.1 (hstep p)
      rw [step_depth hc hvoid hhooks hret he (hstep p)]
      exact .move hreach (.next hi he (plan_not_terminal hret hplan))

/-- what a run has come to is in the body: control does not fall off its end -/
theorem Runs.lt_size {p : Nat} (hp : p ≤ b.size) (h : Runs env (b.instructions.take p) m m') : p < b.size := by
  obtain ⟨i, e, hi, -⟩ := hd.admissible _ (h.reaches hc hvoid hhooks hd hpos hm hp)
  exact Body.lt_size_of_instructionAt? hi

/-- **A run ends with a return that takes the whole stack.** It cannot go on past the last instruction. -/
theorem run_stops (hreturned : m.returned = none) (h : m.run env b.instructions = .ok m') :
    ∃ p i m₁, Runs env (b.instructions.take p) m m₁ ∧ b.instructionAt? p = some i ∧ i.opcode = .ret ∧
      Steps env i m₁ m' ∧ m'.stack = [] ∧ ∃ value, m'.returned = some value ∧ value.isSome = c.returnsValue := by
  by_cases hm' : m'.returned = none
  · have hruns : Runs env (b.instructions.take b.size) m m' := by
      rw [← Body.instructions_length, List.take_length]
      exact .of_runFrom h hm'
    exact absurd (hruns.lt_size hc hvoid hhooks hd hpos hm le_rfl) (lt_irrefl _)
  · obtain ⟨value, hvalue⟩ := Option.ne_none_iff_exists'.1 hm'
    obtain ⟨before, i, rest, m₁, hsplit, hbefore, hstep⟩ := runFrom_returned hreturned h hvalue
    obtain ⟨hi, htake⟩ := instructionAt?_of_split hsplit
    rw [← htake] at hbefore
    obtain ⟨i', e, hi', he, -, hwhole, -⟩ := hd.admissible _
      (hbefore.reaches hc hvoid hhooks hd hpos hm (Body.lt_size_of_instructionAt? hi).le)
    cases hi.symm.trans hi'
    by_cases hret : i.opcode = .ret
    · cases (hstep 0).symm.trans (step_ret hret)
      -- the analysis lets a return take one operand or none
      have hlen : m₁.stack.length = if c.returnsValue then 1 else 0 := (hwhole hret).trans (ret_pops hret he)
      refine ⟨before.length, i, m₁, hbefore, hi, hret, hstep, ?_, m₁.stack.head?, rfl, ?_⟩
      · refine List.length_eq_zero_iff.1 ?_
        rw [List.length_tail, hlen]
        split_ifs <;> rfl
      · have hsome : m₁.stack.head?.isSome = decide (m₁.stack.length ≠ 0) := by cases m₁.stack <;> rfl
        rw [hsome, hlen]
        cases c.returnsValue <;> rfl
    · obtain ⟨-, -, -, -, hsame⟩ := step_moves hc hvoid hhooks hret he (hstep 0)
      rw [hsame, hbefore.returned_eq_none hreturned] at hvalue
      cases hvalue

/-- **A run does not fail for want of operands.** -/
theorem run_error (h : m.run env b.instructions = .error f) : f.error.isUnderflow = false := by
  obtain ⟨before, i, rest, m₁, hsplit, hbefore, hstep⟩ := runFrom_eq_error h
  obtain ⟨hi, htake⟩ := instructionAt?_of_split hsplit
  rw [← htake] at hbefore
  obtain ⟨i', e, hi', he, hpops, -⟩ := hd.admissible _
    (hbefore.reaches hc hvoid hhooks hd hpos hm (Body.lt_size_of_instructionAt? hi).le)
  cases hi.symm.trans hi'
  by_cases hret : i.opcode = .ret
  · rw [step_ret hret] at hstep
    cases hstep
  · by_contra hf
    obtain ⟨hmissing, -⟩ := step_underflow hc hvoid hhooks hret he hstep (by simpa using hf)
    exact absurd hmissing (not_lt.2 hpops)

end

/-- **The analysis is sound for the machine.** For every module whose constructors return nothing, every signature,
every body that the analysis accepts and every machine with an empty stack, whose hooks do not themselves ask for
operands: no run fails for want of operands; wherever a run comes to, the report knows the depth of its stack; and a run
of a body that is not empty ends at a return, with an empty stack and with a value exactly if the signature has one. -/
theorem analyzed_run (module : Module) (hctor : module.VoidConstructors) (signature : MethodSig) (b : Body)
    (hb : b.Reachable) (r : Stack.Report) (hr : analyze (.ofSignature module.resolve signature) b = .ok r)
    (hooks : Hooks) (hhooks : hooks.NoUnderflow) (locals args : Array Value) :
    let env : Surroundings := ⟨module.resolve, hooks⟩
    let m : Machine := { locals, args }
    (∀ f, m.run env b.instructions = .error f → f.error.isUnderflow = false) ∧
      (∀ p < b.size, ∀ m', Runs env (b.instructions.take p) m m' → r.depthAt? p = some m'.stack.length) ∧
      (∀ m', 0 < b.size → m.run env b.instructions = .ok m' →
        ∃ p i m₁, Runs env (b.instructions.take p) m m₁ ∧ b.instructionAt? p = some i ∧ i.opcode = .ret ∧
          Steps env i m₁ m' ∧ m'.stack = [] ∧ ∃ value, m'.returned = some value ∧
          value.isSome = signature.returnsValue) := by
  intro env m
  obtain ⟨hd, hdepths, -⟩ := analyze_ok hb.wellFormed hr
  have hvoid : VoidConstructors env.resolve := hctor.resolve
  refine ⟨fun f h => ?_, fun p hp m' h => ?_, fun m' hpos h => ?_⟩
  · by_cases hpos : 0 < b.size
    · exact run_error rfl hvoid hhooks hd hpos rfl h
    · -- without instructions nothing is evaluated
      rw [List.length_eq_zero_iff.1 (b.instructions_length.trans (Nat.eq_zero_of_not_pos hpos))] at h
      cases h
  · exact (hdepths p _).2 (h.reaches rfl hvoid hhooks hd (Nat.zero_lt_of_lt hp) rfl hp.le)
  · exact run_stops rfl hvoid hhooks hd hpos rfl rfl h

/-! ## A method that makes a vector -/

/-- a module that knows the constructor of vectors -/
def vectorModule : Module :=
  { name := "Assembly-CSharp"
    typeRefs := #[⟨"UnityEngine", "Vector3"⟩]
    memberRefs := #[⟨⟨"UnityEngine", "Vector3"⟩, constructorName, .instanceOf .void [.float32, .float32, .float32]⟩] }

/-- a method that makes a vector in its slot and returns it -/
def vectorBody : Body :=
  (Body.append { number := 1, locals := #[.valueType ⟨"UnityEngine", "Vector3"⟩] }
    [⟨.ldlocaS, .local ⟨0⟩⟩, ⟨.ldcR4, .immediate (.float32 ⟨0⟩)⟩, { opcode := .dup }, { opcode := .dup },
      ⟨.call, .method (.ofIndex .memberRef 0)⟩, { opcode := .ldloc0 }, { opcode := .ret }]).1

theorem vectorModule_voidConstructors : vectorModule.VoidConstructors :=
  ⟨by simp [vectorModule], by simp [vectorModule, MethodSig.instanceOf]⟩

theorem vectorBody_reachable : vectorBody.Reachable := by
  have h := @Body.Reachable.addLocal _ _ (.valueType ⟨"UnityEngine", "Vector3"⟩) _ (.empty 1) rfl
  exact h.append (by simp [Instruction.targets])

/-- what the analysis tells about that method -/
def vectorReport : Stack.Report := ⟨#[some 0, some 1, some 2, some 3, some 4, some 0, some 1], 4⟩

theorem vectorBody_analyzed : analyze (.ofSignature vectorModule.resolve
    (.static (.valueType ⟨"UnityEngine", "Vector3"⟩) [])) vectorBody = .ok vectorReport := by
  have hes : (Stack.Code.ofBody vectorBody).entries = .ok [⟨0, 0⟩] := by cbv
  have hrun : Stack.Walk.run (Stack.Code.ofBody vectorBody)
      (.ofSignature vectorModule.resolve (.static (.valueType ⟨"UnityEngine", "Vector3"⟩) []))
      ⟨#[none, none, none, none, none, none, none], [⟨0, 0⟩], 0⟩ = .ok ⟨vectorReport.depths, [], 4⟩ := by
    iterate 7 refine Stack.Walk.run_of_more (by cbv) ?_
    exact Stack.Walk.run_of_done rfl
  rw [Stack.analyze_eq_run hes]
  exact congrArg (Except.map _) hrun

/-- the null vector -/
def origin : Value := .vector ⟨"UnityEngine", "Vector3"⟩ ⟨0⟩ ⟨0⟩ ⟨0⟩

theorem vectorBody_runs : (Machine.ofBody vectorBody #[]).run
    ⟨vectorModule.resolve, Hooks.default ⟨"UnityEngine", "RenderTexture"⟩ ⟨"UnityEngine", "Vector3"⟩ 0 0⟩
    vectorBody.instructions = .ok { locals := #[origin], returned := some (some origin) } := by
  cbv

/-- that method returns with a vector, from where the report says -/
theorem analyzed_run_vectorBody :
    let env : Surroundings :=
      ⟨vectorModule.resolve, Hooks.default ⟨"UnityEngine", "RenderTexture"⟩ ⟨"UnityEngine", "Vector3"⟩ 0 0⟩
    vectorModule.VoidConstructors ∧ vectorBody.Reachable ∧ env.hooks.NoUnderflow ∧
      ∃ p i m, Runs env (vectorBody.instructions.take p) (.ofBody vectorBody #[]) m ∧
        vectorReport.depthAt? p = some m.stack.length ∧ vectorBody.instructionAt? p = some i ∧ i.opcode = .ret ∧
        Steps env i m { locals := #[origin], returned := some (some origin) } := by
  intro env
  have hhooks : env.hooks.NoUnderflow := Hooks.default_noUnderflow _ _ _ _
  obtain ⟨-, hdepths, hstops⟩ := analyzed_run vectorModule vectorModule_voidConstructors
    (.static (.valueType ⟨"UnityEngine", "Vector3"⟩) []) vectorBody vectorBody_reachable _ vectorBody_analyzed env.hooks
    hhooks (Machine.ofBody vectorBody #[]).locals #[]
  obtain ⟨p, i, m, hruns, hi, hret, hstep, -⟩ := hstops _ (by decide) vectorBody_runs
  exact ⟨vectorModule_voidConstructors, vectorBody_reachable, hhooks, p, i, m, hruns,
    hdepths p (Body.lt_size_of_instructionAt? hi) m hruns, hi, hret, hstep⟩

end Machine

end CilGraft

/-
Code does not notice a slot that it does not name, nor members that it does not call.

- `grow`: a machine with one more slot.
- `step_grow`, `Runs.grow`: what code does on a machine without error, it does on the grown one too, where its tokens
  stand for the same members. The new slot is left alone.
-/
import CilGraft.Proofs.MachineRuns

namespace CilGraft.Machine

/-- a machine with one more slot -/
def grow (m : Machine) (value : Value) : Machine := { m with locals := m.locals.push value }

variable {m m' : Machine} {l : Local} {value new : Value}

theorem local?_grow_of_ne (h : l.index.toNat ≠ m.locals.size) : (m.grow new).local? l = m.local? l :=
  Array.getElem?_push.trans (if_neg h)

theorem local?_grow (h : m.local? l = some value) : (m.grow new).local? l = some value := by
  have hlt : l.index.toNat < m.locals.size := (Array.getElem?_eq_some_iff.1 h).1
  exact (local?_grow_of_ne hlt.ne).trans h

/-- the new slot is behind the others -/
theorem local?_grow_last (hl : l.index.toNat = m.locals.size) : (m.grow new).local? l = some new := by
  rw [local?, hl]
  exact Array.getElem?_push_size

theorem withLocal_grow (h : l.index.toNat < m.locals.size) :
    (m.grow new).withLocal l value = (m.withLocal l value).grow new := by
  simp only [withLocal, grow, mk.injEq, and_true]
  refine Array.ext_getElem? fun j => ?_
  simp only [Array.getElem?_setIfInBounds, Array.getElem?_push, Array.size_push, Array.size_setIfInBounds]
  split_ifs <;> first | rfl | omega

theorem withLocal_grow_last (hl : l.index.toNat = m.locals.size) : (m.grow new).withLocal l value = m.grow value := by
  simp only [withLocal, grow, mk.injEq, and_true, hl]
  refine Array.ext_getElem? fun j => ?_
  simp only [Array.getElem?_setIfInBounds, Array.getElem?_push, Array.size_push]
  split_ifs <;> first | rfl | omega

theorem setLocal_grow (h : m.setLocal l value = .ok m') : (m.grow new).setLocal l value = .ok (m'.grow new) := by
  obtain ⟨hlt, rfl⟩ := setLocal_eq_ok.1 h
  refine setLocal_eq_ok.2 ⟨?_, (withLocal_grow hlt).symm⟩
  rw [grow, Array.size_push]
  exact Nat.lt_succ_of_lt hlt

theorem perform_grow {outcome : Outcome} (h : m.perform outcome = .ok m') :
    (m.grow new).perform outcome = .ok (m'.grow new) := by
  cases outcome with
  | push values =>
    injection h with h
    rw [← h]
    rfl
  | store slot value => exact setLocal_grow h
  | finish =>
    injection h with h
    rw [← h]
    rfl

/-! ## Plans -/

/-- a plan that does what another one does -/
structure Plan.Serves (plan plan' : Plan) : Prop where
  operands : plan'.operands = plan.operands
  act : ∀ values outcome, plan.act values = .ok outcome → plan'.act values = .ok outcome

theorem Plan.Serves.refl (plan : Plan) : plan.Serves plan := ⟨rfl, fun _ _ h => h⟩

theorem Plan.Serves.give {x y : Except Error Value} (h : ∀ value, x = .ok value → y = .ok value) :
    (Plan.give x).Serves (.give y) := by
  refine ⟨rfl, fun values outcome hact => ?_⟩
  obtain ⟨value, hx, hout⟩ := bind_eq_ok.1 hact
  exact bind_eq_ok.2 ⟨value, h value hx, hout⟩

theorem readLocal_grow (h : m.readLocal l = .ok value) : (m.grow new).readLocal l = .ok value :=
  readLocal_eq_ok.2 (local?_grow (readLocal_eq_ok.1 h))

variable {resolve resolve' : Resolver} {hooks : Hooks} {i : Instruction}
  (hresolve : ∀ token member, resolve token = some member → resolve' token = some member)
include hresolve

theorem Plan.call_mono {plan : Plan} (h : Plan.call ⟨resolve, hooks⟩ i = .ok plan) :
    Plan.call ⟨resolve', hooks⟩ i = .ok plan := by
  obtain ⟨token, member, hook, htoken, hmember, hhook, hplan⟩ := Plan.call_eq_ok.1 h
  exact Plan.call_eq_ok.2 ⟨token, member, hook, htoken, hresolve token member hmember, hhook, hplan⟩

/-- what can be planned can be planned on the grown machine -/
theorem plan_grow {plan : Plan} (h : m.plan ⟨resolve, hooks⟩ i = .ok plan) (new : Value) :
    ∃ plan', (m.grow new).plan ⟨resolve', hooks⟩ i = .ok plan' ∧ plan.Serves plan' := by
  have hload : ∀ {x : Except Error Local}, (do return Plan.give (m.readLocal (← x))) = .ok plan →
      ∃ plan', (do return Plan.give ((m.grow new).readLocal (← x))) = .ok plan' ∧ plan.Serves plan' := by
    intro x hx
    obtain ⟨slot, hslot, hx⟩ := bind_eq_ok.1 hx
    injection hx with hx
    subst hx
    exact ⟨_, bind_eq_ok.2 ⟨slot, hslot, rfl⟩, .give fun _ => readLocal_grow⟩
  have haddress : ∀ {x : Except Error Local},
      (do let slot ← x; return Plan.give ((fun _ => Value.address slot) <$> m.readLocal slot)) = .ok plan →
      ∃ plan', (do let slot ← x; return Plan.give ((fun _ => Value.address slot) <$> (m.grow new).readLocal slot)) =
        .ok plan' ∧ plan.Serves plan' := by
    intro x hx
    obtain ⟨slot, hslot, hx⟩ := bind_eq_ok.1 hx
    injection hx with hx
    subst hx
    refine ⟨_, bind_eq_ok.2 ⟨slot, hslot, rfl⟩, .give fun value hvalue => ?_⟩
    cases hread : m.readLocal slot with
    | error e => rw [hread] at hvalue; cases hvalue
    | ok value' =>
      rw [hread] at hvalue
      rw [readLocal_grow hread]
      exact hvalue
  -- most opcodes look at neither the slots nor the members
  cases hop : i.opcode <;> simp only [Machine.plan, hop] at h ⊢
  all_goals
    first
    | exact ⟨plan, h, .refl plan⟩
    | exact ⟨plan, Plan.call_mono hresolve h, .refl plan⟩
    | exact hload h
    | exact haddress h

/-! ## Steps and runs -/

/-- **A step does on the grown machine what it does on the machine.** -/
theorem Steps.grow (h : Steps ⟨resolve, hooks⟩ i m m') (new : Value) :
    Steps ⟨resolve', hooks⟩ i (m.grow new) (m'.grow new) := by
  obtain ⟨plan, operands, stack, outcome, hplan, hlen, hstack, hact, hperform⟩ := step_eq_ok.1 (h 0)
  obtain ⟨plan', hplan', hserves⟩ := plan_grow hresolve hplan new
  exact fun _ => step_eq_ok.2 ⟨plan', operands, stack, outcome, hplan', hlen.trans hserves.operands.symm, hstack,
    hserves.act operands outcome hact, perform_grow hperform⟩

/-- **So does a run.** -/
theorem Runs.grow {block : List Instruction} (h : Runs ⟨resolve, hooks⟩ block m m') (new : Value) :
    Runs ⟨resolve', hooks⟩ block (m.grow new) (m'.grow new) := by
  induction h with
  | nil => exact .nil
  | cons hi hr _ ih => exact .cons (hi.grow hresolve new) hr ih

omit hresolve

theorem perform_size {outcome : Outcome} (h : m.perform outcome = .ok m') : m'.locals.size = m.locals.size := by
  cases outcome with
  | push values =>
    injection h with h
    rw [← h]
  | store slot value =>
    obtain ⟨-, rfl⟩ := setLocal_eq_ok.1 h
    exact Array.size_setIfInBounds
  | finish =>
    injection h with h
    rw [← h]

/-- code keeps the number of slots -/
theorem Runs.size_eq {env : Surroundings} {block : List Instruction} (h : Runs env block m m') :
    m'.locals.size = m.locals.size := by
  induction h with
  | nil => rfl
  | cons hi _ _ ih =>
    obtain ⟨plan, operands, stack, outcome, -, -, -, -, hperform⟩ := step_eq_ok.1 (hi 0)
    have hsize := perform_size hperform
    exact ih.trans hsize

end CilGraft.Machine

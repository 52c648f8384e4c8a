/-
What the machine does, one instruction at a time and over a block.

- `step_eq_ok`: a step succeeds if its plan can be made, the operands are there, and the plan and its outcome can be
  carried out. The position of the instruction does not matter.
- `Runs`: a block is run to its end, without error and without a return. `runs_iff` is the link to `run`.
- `Steps`: the instructions that blocks are made of, each with what it does to the top of the stack and to the locals.
-/
import CilGraft.Machine.Step
import CilGraft.Instruction.Encoding
import CilGraft.Proofs.Checks

namespace CilGraft.Machine

/-! ## Steps -/

/-- operands come from the top of the stack, turned around -/
theorem takeOperands_eq_some {n : Nat} {stack taken operands rest : List Value} :
    takeOperands n stack taken = some (operands, rest) ↔
      ∃ top, top.length = n ∧ stack = top ++ rest ∧ operands = top.reverse ++ taken := by
  induction n generalizing stack taken with
  | zero =>
    simp only [takeOperands, Option.some.injEq, Prod.mk.injEq, List.length_eq_zero_iff]
    constructor
    · rintro ⟨rfl, rfl⟩
      exact ⟨[], rfl, rfl, rfl⟩
    · rintro ⟨_, rfl, rfl, rfl⟩
      exact ⟨rfl, rfl⟩
  | succ n ih =>
    cases stack with
    | nil =>
      simp only [takeOperands, reduceCtorEq, false_iff, not_exists, not_and]
      rintro top hlen hnil
      rw [(List.append_eq_nil_iff.1 hnil.symm).1] at hlen
      cases hlen
    | cons value stack =>
      simp only [takeOperands, ih]
      constructor
      · rintro ⟨top, rfl, rfl, rfl⟩
        exact ⟨value :: top, rfl, rfl, by simp⟩
      · rintro ⟨top, hlen, hstack, rfl⟩
        cases top with
        | nil => cases hlen
        | cons value' top =>
          obtain ⟨rfl, rfl⟩ := List.cons_eq_cons.1 hstack
          exact ⟨top, Nat.succ.inj hlen, rfl, by simp⟩

theorem takeOperands_eq_none {n : Nat} {stack taken : List Value} :
    takeOperands n stack taken = none ↔ stack.length < n := by
  induction n generalizing stack taken with
  | zero => simp [takeOperands]
  | succ n ih =>
    cases stack with
    | nil => simp [takeOperands]
    | cons value stack => simp [takeOperands, ih]

variable {env : Surroundings} {i : Instruction} {m m' m'' : Machine}

/-- **When a step succeeds.** -/
theorem step_eq_ok {position : Nat} : m.step env position i = .ok m' ↔
    ∃ plan operands stack outcome, m.plan env i = .ok plan ∧ operands.length = plan.operands ∧
      m.stack = operands.reverse ++ stack ∧ plan.act operands = .ok outcome ∧
      perform { m with stack } outcome = .ok m' := by
  simp only [step, bind_eq_ok, leaving_eq_ok]
  constructor
  · rintro ⟨plan, hplan, hstep⟩
    split at hstep
    · cases hstep
    · rename_i operands stack htake
      obtain ⟨top, hlen, hstack, rfl⟩ := takeOperands_eq_some.1 htake
      obtain ⟨outcome, hact, hperform⟩ := bind_eq_ok.1 (leaving_eq_ok.1 hstep)
      refine ⟨plan, top.reverse, stack, outcome, hplan, ?_, ?_, ?_, hperform⟩
      · rw [List.length_reverse, hlen]
      · rw [List.reverse_reverse, hstack]
      · rwa [List.append_nil] at hact
  · rintro ⟨plan, operands, stack, outcome, hplan, hlen, hstack, hact, hperform⟩
    have htake : takeOperands plan.operands m.stack [] = some (operands, stack) :=
      takeOperands_eq_some.2 ⟨operands.reverse, by rw [List.length_reverse, hlen], hstack, by simp⟩
    refine ⟨plan, hplan, ?_⟩
    rw [htake]
    exact leaving_eq_ok.2 (bind_eq_ok.2 ⟨outcome, hact, hperform⟩)

/-- what a step can fail of: its plan cannot be made, operands are missing, or they cannot be worked with -/
theorem step_eq_error {position : Nat} {f : Failure Machine} (h : m.step env position i = .error f) :
    m.plan env i = .error f.error ∨ ∃ plan, m.plan env i = .ok plan ∧
      ((m.stack.length < plan.operands ∧ f.error = .stackUnderflow position plan.operands m.stack.length) ∨
        ∃ operands stack, plan.act operands >>= perform { m with stack } = .error f.error) := by
  rcases bind_eq_error.1 h with h | ⟨plan, hplan, h⟩
  · exact Or.inl (leaving_eq_error.1 h).1
  · refine Or.inr ⟨plan, leaving_eq_ok.1 hplan, ?_⟩
    split at h
    · rename_i htake
      cases h
      exact Or.inl ⟨takeOperands_eq_none.1 htake, rfl⟩
    · rename_i operands stack htake
      exact Or.inr ⟨operands, stack, (leaving_eq_error.1 h).1⟩

/-- the instruction is carried out, wherever it is -/
def Steps (env : Surroundings) (i : Instruction) (m m' : Machine) : Prop :=
  ∀ position, m.step env position i = .ok m'

theorem Steps.of_step {position : Nat} (h : m.step env position i = .ok m') : Steps env i m m' :=
  fun _ => step_eq_ok.2 (step_eq_ok.1 h)

/-! ## Blocks -/

/-- what comes behind a step that succeeds -/
theorem runFrom_cons {position : Nat} {rest : List Instruction} (hstep : m.step env position i = .ok m') :
    runFrom env position (i :: rest) m =
      if m'.returned = none then runFrom env (position + 1) rest m' else .ok m' := by
  rw [runFrom, hstep]
  simp only [bind, Except.bind, pure, Except.pure]
  cases m'.returned <;> rfl

/-- a block is run to its end, without error and without a return -/
inductive Runs (env : Surroundings) : List Instruction → Machine → Machine → Prop where
  | nil {m : Machine} : Runs env [] m m
  | cons {i : Instruction} {rest : List Instruction} {m m' m'' : Machine} (hi : Steps env i m m')
      (hr : m'.returned = none) (h : Runs env rest m' m'') : Runs env (i :: rest) m m''

namespace Runs

variable {block rest : List Instruction}

theorem append (h : Runs env block m m') (h' : Runs env rest m' m'') : Runs env (block ++ rest) m m'' := by
  induction h with
  | nil => exact h'
  | cons hi hr _ ih => exact .cons hi hr (ih h')

/-- a run of two blocks is one of the first and one of the second -/
theorem of_append (h : Runs env (block ++ rest) m m'') : ∃ m', Runs env block m m' ∧ Runs env rest m' m'' := by
  induction block generalizing m with
  | nil => exact ⟨m, .nil, h⟩
  | cons i block ih =>
    cases h with
    | cons hi hr h =>
      obtain ⟨m₁, h₁, h₂⟩ := ih h
      exact ⟨m₁, .cons hi hr h₁, h₂⟩

theorem returned_eq_none (h : Runs env block m m') (hm : m.returned = none) : m'.returned = none := by
  induction h with
  | nil => exact hm
  | cons _ hr _ ih => exact ih hr

theorem runFrom_eq (h : Runs env block m m') (position : Nat) : runFrom env position block m = .ok m' := by
  induction h generalizing position with
  | nil => rfl
  | cons hi hr _ ih =>
    rw [runFrom_cons (hi position), if_pos hr]
    exact ih (position + 1)

theorem of_runFrom {position : Nat} (h : runFrom env position block m = .ok m') (hm' : m'.returned = none) :
    Runs env block m m' := by
  induction block generalizing m position with
  | nil =>
    injection h with h
    exact h ▸ .nil
  | cons i block ih =>
    obtain ⟨m₁, hi, -⟩ := bind_eq_ok.1 h
    rw [runFrom_cons hi] at h
    split_ifs at h with hr
    · exact .cons (.of_step hi) hr (ih h)
    · cases h
      exact absurd hm' hr

end Runs

/-- **A block that is run without a return is run to its end.** -/
theorem runs_iff {block : List Instruction} (hm : m.returned = none) :
    Runs env block m m' ↔ m.run env block = .ok m' ∧ m'.returned = none :=
  ⟨fun h => ⟨h.runFrom_eq 0, h.returned_eq_none hm⟩, fun ⟨h, hm'⟩ => .of_runFrom h hm'⟩

/-- a run that ends with a return was run without one up to the instruction that returned -/
theorem runFrom_returned {block : List Instruction} {position : Nat} {value : Option Value} (hm : m.returned = none)
    (h : runFrom env position block m = .ok m') (hm' : m'.returned = some value) :
    ∃ before i rest m₁, block = before ++ i :: rest ∧ Runs env before m m₁ ∧ Steps env i m₁ m' := by
  induction block generalizing m position with
  | nil =>
    cases h
    rw [hm] at hm'
    cases hm'
  | cons i block ih =>
    obtain ⟨m₁, hi, -⟩ := bind_eq_ok.1 h
    rw [runFrom_cons hi] at h
    split_ifs at h with hr
    · obtain ⟨before, j, rest, m₂, rfl, hruns, hj⟩ := ih hr h
      exact ⟨i :: before, j, rest, m₂, rfl, .cons (.of_step hi) hr hruns, hj⟩
    · cases h
      exact ⟨[], i, block, m, rfl, .nil, .of_step hi⟩

/-- a run that fails was run without a return up to the instruction that failed -/
theorem runFrom_eq_error {block : List Instruction} {position : Nat} {f : Failure Machine}
    (h : runFrom env position block m = .error f) : ∃ before i rest m₁, block = before ++ i :: rest ∧
      Runs env before m m₁ ∧ m₁.step env (position + before.length) i = .error f := by
  induction block generalizing m position with
  | nil => cases h
  | cons i block ih =>
    rcases bind_eq_error.1 h with hi | ⟨m₁, hi, -⟩
    · exact ⟨[], i, block, m, rfl, .nil, hi⟩
    · rw [runFrom_cons hi] at h
      split_ifs at h with hr
      obtain ⟨before, j, rest, m₂, rfl, hruns, hj⟩ := ih h
      refine ⟨i :: before, j, rest, m₂, rfl, .cons (.of_step hi) hr hruns, ?_⟩
      rw [List.length_cons, Nat.add_comm before.length, ← Nat.add_assoc]
      exact hj

/-! ## The instructions of blocks -/

/-- a machine with these values on its stack, the first one on top -/
def above (m : Machine) (values : List Value) : Machine := { m with stack := values ++ m.stack }

/-- a machine with another value in a slot -/
def withLocal (m : Machine) (l : Local) (value : Value) : Machine :=
  { m with locals := m.locals.setIfInBounds l.index.toNat value }

variable {values rest : List Value} {l : Local} {value : Value}

/-- a step said by its plan, whose operands are on top of the stack -/
theorem Steps.of_plan {plan : Plan} {outcome : Outcome} (operands : List Value)
    (hplan : (m.above (operands.reverse ++ rest)).plan env i = .ok plan) (hlen : operands.length = plan.operands)
    (hact : plan.act operands = .ok outcome) (hperform : (m.above rest).perform outcome = .ok m') :
    Steps env i (m.above (operands.reverse ++ rest)) m' :=
  fun _ => step_eq_ok.2
    ⟨plan, operands, rest ++ m.stack, outcome, hplan, hlen, List.append_assoc _ _ _, hact, hperform⟩

theorem withLocal_local? (h : l.index.toNat < m.locals.size) : (m.withLocal l value).local? l = some value := by
  simp [local?, withLocal, h]

theorem withLocal_local?_of_ne {l' : Local} (h : l'.index.toNat ≠ l.index.toNat) :
    (m.withLocal l value).local? l' = m.local? l' :=
  Array.getElem?_setIfInBounds_ne h.symm

theorem readLocal_eq_ok : m.readLocal l = .ok value ↔ m.local? l = some value := by
  simp only [readLocal]
  cases m.local? l <;> simp

theorem setLocal_eq_ok : m.setLocal l value = .ok m' ↔ l.index.toNat < m.locals.size ∧ m' = m.withLocal l value := by
  simp only [setLocal, withLocal]
  split_ifs with h
  · simp [h, eq_comm]
  · simp [h]

/-- the instruction is a load of the slot, in one of its forms -/
theorem plan_loadLocal : m.plan env (.loadLocal l) = .ok (.give (m.readLocal l)) := by
  obtain ⟨index⟩ := l
  simp only [Instruction.loadLocal]
  split_ifs with h0 h1 h2 h3
  · subst h0; rfl
  · subst h1; rfl
  · subst h2; rfl
  · subst h3; rfl
  · rfl
  · rfl

theorem plan_storeLocal : m.plan env (.storeLocal l) = .ok ⟨1, fun values => .ok (.store l (values.headD .void))⟩ := by
  obtain ⟨index⟩ := l
  simp only [Instruction.storeLocal]
  split_ifs with h0 h1 h2 h3
  · subst h0; rfl
  · subst h1; rfl
  · subst h2; rfl
  · subst h3; rfl
  · rfl
  · rfl

theorem plan_loadLocalAddress :
    m.plan env (.loadLocalAddress l) = .ok (.give ((fun _ => Value.address l) <$> m.readLocal l)) := by
  simp only [Instruction.loadLocalAddress]
  split_ifs <;> rfl

namespace Plan

/-- the plan of a call of a member that a hook answers -/
def answer (op : Opcode) (member : Member) (hook : Hook) : Plan :=
  let operands := Stack.callPops op member.signature
  ⟨operands, fun values => do
    let args := values.drop (operands - member.signature.params.length)
    let object := if operands = member.signature.params.length then none else values.head?
    let result ← hook.respond ⟨member, object, args⟩
    return callOutcome op member object result⟩

theorem call_eq_ok {plan : Plan} : Plan.call env i = .ok plan ↔ ∃ token member hook, i.method? = some token ∧
    env.resolve token = some member ∧ env.hooks.find? member.declaring member.name = some hook ∧
    plan = .answer i.opcode member hook := by
  simp only [Plan.call, Stack.callee, bind_eq_ok]
  constructor
  · rintro ⟨member, hcallee, hhook⟩
    split at hcallee
    · cases hcallee
    · rename_i token htoken
      split at hcallee
      · rename_i member' hmember
        cases hcallee
        split at hhook
        · cases hhook
        · rename_i hook hfind
          injection hhook with hplan
          exact ⟨token, member, hook, htoken, hmember, hfind, hplan.symm⟩
      · cases hcallee
  · rintro ⟨token, member, hook, htoken, hmember, hhook, rfl⟩
    refine ⟨member, ?_, ?_⟩
    · simp only [htoken, hmember]
    · simp only [hhook]
      rfl

variable {op : Opcode} {member : Member} {hook : Hook} {object : Option Value} {args : List Value} {result : Value}
  (hop : op ≠ .newobj) (hobject : object.isSome = member.signature.hasThis)
include hop hobject

theorem answer_operands (hargs : args.length = member.signature.params.length) :
    (object.toList ++ args).length = (answer op member hook).operands := by
  cases object <;> simp_all [answer, Stack.callPops]

theorem answer_act (hrespond : hook.respond ⟨member, object, args⟩ = .ok result) :
    (answer op member hook).act (object.toList ++ args) = .ok (callOutcome op member object result) := by
  cases object with
  | none =>
    have hpops : Stack.callPops op member.signature = member.signature.params.length := by
      simp_all [Stack.callPops]
    simp only [answer, hpops, Nat.sub_self, if_true, Option.toList_none, List.nil_append, List.drop_zero, hrespond]
    rfl
  | some o =>
    have hpops : Stack.callPops op member.signature = member.signature.params.length + 1 := by
      simp_all [Stack.callPops]
    simp only [answer, hpops, Nat.add_sub_cancel_left, Nat.succ_ne_self, if_false, Option.toList_some,
      List.singleton_append, List.drop_succ_cons, List.drop_zero, List.head?_cons, hrespond]
    rfl

end Plan

namespace Steps

/-- a plan that gives a value puts it on top -/
theorem give {x : Except Error Value} (hplan : (m.above rest).plan env i = .ok (.give x)) (hx : x = .ok value) :
    Steps env i (m.above rest) (m.above (value :: rest)) := by
  subst hx
  exact .of_plan [] hplan rfl rfl rfl

theorem loadLocal (h : m.local? l = some value) :
    Steps env (.loadLocal l) (m.above rest) (m.above (value :: rest)) :=
  give plan_loadLocal (readLocal_eq_ok.2 h)

theorem loadLocalAddress (h : m.local? l = some value) :
    Steps env (.loadLocalAddress l) (m.above rest) (m.above (.address l :: rest)) := by
  have hread : (m.above rest).readLocal l = .ok value := readLocal_eq_ok.2 h
  exact give plan_loadLocalAddress (by rw [hread]; rfl)

theorem storeLocal (h : l.index.toNat < m.locals.size) :
    Steps env (.storeLocal l) (m.above (value :: rest)) ((m.withLocal l value).above rest) :=
  .of_plan [value] plan_storeLocal rfl rfl (setLocal_eq_ok.2 ⟨h, rfl⟩)

theorem loadFloat32 (x : Binary.Single) :
    Steps env (.loadFloat32 x) (m.above rest) (m.above (.float32 x :: rest)) :=
  give rfl rfl

theorem convR4 (n : Int32) : Steps env { opcode := .convR4 } (m.above (.int32 n :: rest))
    (m.above (.float32 (.ofInt32 n) :: rest)) :=
  .of_plan [.int32 n] rfl rfl rfl rfl

theorem div (x y : Binary.Single) : Steps env { opcode := .div } (m.above (.float32 y :: .float32 x :: rest))
    (m.above (.float32 (x.div y) :: rest)) :=
  .of_plan [.float32 x, .float32 y] rfl rfl rfl rfl

theorem dup : Steps env { opcode := .dup } (m.above (value :: rest)) (m.above (value :: value :: rest)) :=
  .of_plan [value] rfl rfl rfl rfl

/-- **A call.** The operands are the object, if there is one, and the arguments; what becomes of the result depends on
the member and the object. -/
theorem call {op : Opcode} {token : Token} {member : Member} {hook : Hook} {result : Value} (object : Option Value)
    (args : List Value) (hop : op = .call ∨ op = .callvirt) (hmember : env.resolve token = some member)
    (hhook : env.hooks.find? member.declaring member.name = some hook)
    (hargs : args.length = member.signature.params.length) (hobject : object.isSome = member.signature.hasThis)
    (hrespond : hook.respond ⟨member, object, args⟩ = .ok result)
    (hperform : (m.above rest).perform (Plan.callOutcome op member object result) = .ok m') :
    Steps env ⟨op, .method token⟩ (m.above ((object.toList ++ args).reverse ++ rest)) m' := by
  have hnew : op ≠ .newobj := by rcases hop with rfl | rfl <;> nofun
  have hplan : (m.above ((object.toList ++ args).reverse ++ rest)).plan env ⟨op, .method token⟩ =
      .ok (.answer op member hook) := by
    have hcall := (@Plan.call_eq_ok env ⟨op, .method token⟩ _).2 ⟨token, member, hook, rfl, hmember, hhook, rfl⟩
    rcases hop with rfl | rfl <;> exact hcall
  exact .of_plan _ hplan (Plan.answer_operands hnew hobject hargs)
    (Plan.answer_act hnew hobject hrespond) hperform

end Steps

end CilGraft.Machine

/-
The machine moves its stack as the stack analysis says.

- `Plan.Fits`: a plan takes and gives as many operands as an effect has pops and pushes. `plan_fits_fixed` says this of
  opcodes with a fixed effect, `plan_fits` of every instruction but a return, of calls too, where constructors return
  nothing: a constructor that is called on the address of a slot leaves nothing on the stack.
- `step_moves`: a step takes its operands from the top of the stack, puts its results there and leaves what is below.
- `step_underflow`: a step fails for want of operands only if they are missing, where hooks do not answer so.
- `step_ret`: a return always succeeds; it takes the top of the stack, if there is one.
- `Hooks.default_noUnderflow`: the hooks at hand do not answer so.
-/
import CilGraft.Machine.Builtin
import CilGraft.Proofs.MachineRuns
import CilGraft.Proofs.StackDiscipline

namespace CilGraft

/-- operands are missing -/
def Error.isUnderflow : Error → Bool
  | stackUnderflow .. => true
  | _ => false

/-- no hook answers a call by saying that operands are missing -/
def Hooks.NoUnderflow (hooks : Hooks) : Prop :=
  ∀ hook ∈ hooks, ∀ call e, hook.respond call = .error e → e.isUnderflow = false

/-- whatever a token stands for, a constructor returns nothing -/
def VoidConstructors (resolve : Resolver) : Prop :=
  ∀ token member, resolve token = some member → member.name = constructorName → member.signature.result = .void

namespace Machine

variable {env : Surroundings} {i : Instruction} {m m' : Machine} {plan : Plan} {e : StackEffect} {err : Error}

/-! ## Errors that have another cause -/

theorem slotOf_error (h : slotOf i = .error err) : err.isUnderflow = false := by
  unfold slotOf at h
  split at h <;> cases h
  rfl

theorem argumentOf_error (h : argumentOf i = .error err) : err.isUnderflow = false := by
  unfold argumentOf at h
  split at h <;> cases h
  rfl

theorem constantOf_error (h : constantOf i = .error err) : err.isUnderflow = false := by
  unfold constantOf at h
  split at h <;> cases h
  rfl

theorem readLocal_error {l : Local} (h : m.readLocal l = .error err) : err.isUnderflow = false := by
  unfold readLocal at h
  split at h <;> cases h
  rfl

/-- the address of a slot is given if the slot can be read -/
theorem address_error {l : Local} (h : (fun _ => Value.address l) <$> m.readLocal l = .error err) :
    err.isUnderflow = false := by
  cases hread : m.readLocal l with
  | error err' =>
    rw [hread] at h
    cases h
    exact readLocal_error hread
  | ok value =>
    rw [hread] at h
    cases h

theorem readArg_error {n : Nat} (h : m.readArg n = .error err) : err.isUnderflow = false := by
  unfold readArg at h
  split at h <;> cases h
  rfl

theorem callee_error {resolve : Resolver} {shown : String} (h : Stack.callee resolve shown i = .error err) :
    err.isUnderflow = false := by
  unfold Stack.callee at h
  split at h
  · cases h
    rfl
  · split at h <;> cases h
    rfl

theorem Plan.call_error (h : Plan.call env i = .error err) : err.isUnderflow = false := by
  rcases bind_eq_error.1 h with h | ⟨member, -, h⟩
  · exact callee_error h
  · split at h <;> cases h
    rfl

/-- a plan that cannot be made has another cause -/
theorem plan_error (h : m.plan env i = .error err) : err.isUnderflow = false := by
  cases hop : i.opcode <;> simp only [Machine.plan, hop] at h
  case call | callvirt | newobj => exact Plan.call_error h
  case ldargS =>
    rcases bind_eq_error.1 h with h | ⟨index, -, h⟩
    · exact argumentOf_error h
    · cases h
  case ldloc0 | ldloc1 | ldloc2 | ldloc3 | ldlocS | ldloc | stloc0 | stloc1 | stloc2 | stloc3 | stlocS | stloc |
      ldlocaS | ldloca =>
    rcases bind_eq_error.1 h with h | ⟨slot, -, h⟩
    · exact slotOf_error h
    · cases h
  case ldcI4S | ldcI4 | ldcR4 | ldcR8 =>
    rcases bind_eq_error.1 h with h | ⟨value, -, h⟩
    · exact constantOf_error h
    · cases h
  all_goals
    cases h
    try rfl

/-! ## What a plan does to the stack -/

/-- the values that an outcome puts on the stack; a return is none of these outcomes -/
def Outcome.results? : Outcome → Option (List Value)
  | .push values => some values
  | .store _ _ => some []
  | .finish => none

/-- the plan takes and gives as many operands as an effect says -/
structure Plan.Fits (plan : Plan) (e : StackEffect) : Prop where
  operands : plan.operands = e.pops.toNat
  results : ∀ values outcome, plan.act values = .ok outcome →
    ∃ results, outcome.results? = some results ∧ results.length = e.pushes.toNat
  errors : ∀ values err, plan.act values = .error err → err.isUnderflow = false

namespace Plan.Fits

theorem give {x : Except Error Value} (hx : ∀ err, x = .error err → err.isUnderflow = false) :
    (Plan.give x).Fits ⟨0, 1⟩ := by
  refine ⟨rfl, fun values outcome h => ?_, fun values err h => ?_⟩
  · obtain ⟨value, -, h⟩ := bind_eq_ok.1 h
    cases h
    exact ⟨[value], rfl, rfl⟩
  · rcases bind_eq_error.1 h with h | ⟨value, -, h⟩
    · exact hx err h
    · cases h

theorem unary {f : Value → Option (List Value)} {n : UInt8}
    (hf : ∀ x values, f x = some values → values.length = n.toNat) : (Plan.unary i f).Fits ⟨1, n⟩ := by
  refine ⟨rfl, fun values outcome h => ?_, fun values err h => ?_⟩
  · simp only [Plan.unary] at h
    split at h
    · split at h
      · rename_i _ x _ results hresults
        cases h
        exact ⟨results, rfl, hf x results hresults⟩
      · cases h
    · cases h
  · simp only [Plan.unary] at h
    split at h
    · split at h <;> cases h
      rfl
    · cases h
      rfl

theorem binary {f : Value → Value → Option (Except Error Value)}
    (hf : ∀ x y err, f x y = some (.error err) → err.isUnderflow = false) : (Plan.binary i f).Fits ⟨2, 1⟩ := by
  refine ⟨rfl, fun values outcome h => ?_, fun values err h => ?_⟩
  · simp only [Plan.binary] at h
    split at h
    · split at h
      · obtain ⟨value, -, h⟩ := bind_eq_ok.1 h
        cases h
        exact ⟨[value], rfl, rfl⟩
      · cases h
    · cases h
  · simp only [Plan.binary] at h
    split at h
    · split at h
      · rename_i _ x y _ result hresult
        rcases bind_eq_error.1 h with h | ⟨value, -, h⟩
        · exact hf x y err (h ▸ hresult)
        · cases h
      · cases h
        rfl
    · cases h
      rfl

theorem store {slot : Local} : Plan.Fits ⟨1, fun values => .ok (.store slot (values.headD .void))⟩ ⟨1, 0⟩ := by
  refine ⟨rfl, fun values outcome h => ?_, fun values err h => ?_⟩
  · cases h
    exact ⟨[], rfl, rfl⟩
  · cases h

end Plan.Fits

/-- the errors of an operation are those of its part on integers -/
theorem apply_error {o : Value.Operation} {x y : Value} (h : o.apply x y = some (.error err)) :
    ∃ a b, o.int32 a b = .error err := by
  unfold Value.Operation.apply at h
  split at h
  · rename_i a b
    cases hab : o.int32 a b with
    | error err' =>
      rw [hab] at h
      cases h
      exact ⟨a, b, hab⟩
    | ok c =>
      rw [hab] at h
      cases h
  all_goals cases h

/-- the only error of arithmetic is a division by zero -/
theorem arithmetic_error {op : Opcode} {x y : Value}
    (h : (Value.Operation.ofOpcode? op).bind (·.apply x y) = some (.error err)) : err.isUnderflow = false := by
  obtain ⟨o, ho, happly⟩ := Option.bind_eq_some_iff.1 h
  obtain ⟨a, b, hint⟩ := apply_error happly
  have hdivided : ∀ f, Value.divided f a b = .error err → err.isUnderflow = false := by
    intro f h
    unfold Value.divided at h
    split_ifs at h
    cases h
    rfl
  cases op <;> cases ho
  case add | sub | mul => cases hint
  case div | rem => exact hdivided _ hint

/-- a comparison gives a value, if it gives anything -/
theorem comparison_error {f : Option Ordering → Value} {x y : Value}
    (h : (x.order? y).map (fun order => .ok (f order)) = some (.error err : Except Error Value)) :
    err.isUnderflow = false := by
  obtain ⟨order, -, h⟩ := Option.map_eq_some_iff.1 h
  cases h

theorem single_length {result : Option Value} {values : List Value} (h : result.map ([·]) = some values) :
    values.length = 1 := by
  obtain ⟨value, -, rfl⟩ := Option.map_eq_some_iff.1 h
  rfl

theorem callOutcome_results {op : Opcode} {member : Member} {object : Option Value} {result : Value}
    (hvoid : member.name = constructorName → member.signature.result = .void) :
    ∃ results, (Plan.callOutcome op member object result).results? = some results ∧
      results.length = Stack.callPushes op member.signature := by
  unfold Plan.callOutcome Stack.callPushes
  by_cases hnew : op = .newobj
  · rw [if_pos hnew, if_pos (Or.inl hnew)]
    exact ⟨[result], rfl, rfl⟩
  · have hpush : ∃ results, (if member.signature.returnsValue then Outcome.push [result] else .push []).results? =
        some results ∧ results.length = if op = .newobj ∨ member.signature.returnsValue = true then 1 else 0 := by
      by_cases hreturns : member.signature.returnsValue = true
      · rw [if_pos hreturns, if_pos (Or.inr hreturns)]
        exact ⟨[result], rfl, rfl⟩
      · rw [if_neg hreturns, if_neg (by rintro (h | h) <;> contradiction)]
        exact ⟨[], rfl, rfl⟩
    rw [if_neg hnew]
    split
    · split
      · -- a constructor puts its result into the slot, and its signature has none
        rename_i hname
        have hreturns : ¬ member.signature.returnsValue = true := by
          simp [MethodSig.returnsValue, hvoid hname]
        rw [if_neg (by rintro (h | h) <;> contradiction)]
        exact ⟨[], rfl, rfl⟩
      · exact hpush
    · exact hpush

theorem Plan.Fits.call {c : Stack.Context} (hc : c.resolve = env.resolve) (hvoid : VoidConstructors env.resolve)
    (hhooks : env.hooks.NoUnderflow) (hplan : Plan.call env i = .ok plan) {shown : String}
    (he : (do let member ← Stack.callee c.resolve shown i
              Stack.sized i (Stack.callPops i.opcode member.signature) (Stack.callPushes i.opcode member.signature)) =
            .ok e) : plan.Fits e := by
  obtain ⟨token, member, hook, htoken, hmember, hhook, rfl⟩ := Plan.call_eq_ok.1 hplan
  have hcallee : Stack.callee c.resolve shown i = .ok member := by
    simp only [Stack.callee, htoken, hc, hmember]
  obtain ⟨member', hmember', hsized⟩ := bind_eq_ok.1 he
  rw [hcallee] at hmember'
  cases hmember'
  have hpushes : Stack.callPushes i.opcode member.signature ≤ 255 := by
    unfold Stack.callPushes
    split_ifs <;> decide
  obtain ⟨hpops, hpushes⟩ := Stack.sized_eq_ok hpushes hsized
  refine ⟨hpops.symm, fun values outcome h => ?_, fun values err h => ?_⟩
  · obtain ⟨result, -, h⟩ := bind_eq_ok.1 h
    cases h
    rw [hpushes]
    exact callOutcome_results (hvoid token member hmember)
  · rcases bind_eq_error.1 h with h | ⟨result, -, h⟩
    · exact hhooks hook (List.mem_of_find?_eq_some hhook) _ err h
    · cases h

/-- a plan of an instruction whose opcode has a fixed effect takes and gives what this says -/
theorem plan_fits_fixed (heffect : i.opcode.stackEffect? = some e) (hplan : m.plan env i = .ok plan) : plan.Fits e := by
  -- one group of cases for each kind of plan
  cases hop : i.opcode <;> simp only [Machine.plan, hop] at hplan <;> rw [hop] at heffect <;> cases heffect
  case nop =>
    cases hplan
    exact ⟨rfl, fun values outcome h => by cases h; exact ⟨[], rfl, rfl⟩, fun values err h => by cases h⟩
  case ldarg0 | ldarg1 | ldarg2 | ldarg3 =>
    cases hplan
    exact .give fun err => readArg_error
  case ldargS =>
    obtain ⟨index, -, hplan⟩ := bind_eq_ok.1 hplan
    cases hplan
    exact .give fun err => readArg_error
  case ldloc0 | ldloc1 | ldloc2 | ldloc3 | ldlocS | ldloc =>
    obtain ⟨slot, -, hplan⟩ := bind_eq_ok.1 hplan
    cases hplan
    exact .give fun err => readLocal_error
  case stloc0 | stloc1 | stloc2 | stloc3 | stlocS | stloc =>
    obtain ⟨slot, -, hplan⟩ := bind_eq_ok.1 hplan
    cases hplan
    exact .store
  case ldlocaS | ldloca =>
    obtain ⟨slot, -, hplan⟩ := bind_eq_ok.1 hplan
    cases hplan
    exact .give fun err => address_error
  case ldnull | ldcI4M1 | ldcI40 | ldcI41 =>
    cases hplan
    exact .give fun err h => by cases h
  case ldcI4S | ldcI4 | ldcR4 | ldcR8 =>
    obtain ⟨value, -, hplan⟩ := bind_eq_ok.1 hplan
    cases hplan
    exact .give fun err h => by cases h
  case dup =>
    cases hplan
    exact .unary fun x values h => by cases h; rfl
  case pop =>
    cases hplan
    exact .unary fun x values h => by cases h; rfl
  case neg | convI4 | convR4 | convR8 =>
    cases hplan
    exact .unary fun x values => single_length
  case add | sub | mul | div | rem =>
    cases hplan
    exact .binary fun x y err => arithmetic_error
  case ceq | cgt | clt =>
    cases hplan
    exact .binary fun x y err => comparison_error
  all_goals cases hplan

/-- only calls and returns have no fixed effect -/
theorem plan_of_no_fixed (heffect : i.opcode.stackEffect? = none) (hret : i.opcode ≠ .ret) :
    m.plan env i = Plan.call env i := by
  cases hop : i.opcode <;> rw [hop] at heffect <;> cases heffect
  case ret => exact absurd hop hret
  all_goals simp only [Machine.plan, hop]

/-- **A plan takes and gives what the stack analysis says.** -/
theorem plan_fits {c : Stack.Context} (hc : c.resolve = env.resolve) (hvoid : VoidConstructors env.resolve)
    (hhooks : env.hooks.NoUnderflow) (hret : i.opcode ≠ .ret) (hplan : m.plan env i = .ok plan)
    (he : c.effect i = .ok e) : plan.Fits e := by
  cases hfixed : i.opcode.stackEffect? with
  | some fixed =>
    simp only [Stack.Context.effect, hfixed, Except.ok.injEq] at he
    exact plan_fits_fixed (he ▸ hfixed) hplan
  | none =>
    simp only [Stack.Context.effect, hfixed, if_neg hret] at he
    exact .call hc hvoid hhooks (plan_of_no_fixed hfixed hret ▸ hplan) he

/-! ## What a step does to the stack -/

/-- control goes on behind an instruction that can be evaluated and is not a return -/
theorem plan_not_terminal (hret : i.opcode ≠ .ret) (hplan : m.plan env i = .ok plan) : i.flow.isTerminal = false := by
  cases hop : i.opcode <;> simp only [Machine.plan, hop] at hplan
  case ret => exact absurd hop hret
  all_goals
    first
    | (cases hplan; done)
    | (rw [Instruction.flow, hop]; rfl)

theorem perform_results {outcome : Outcome} {results : List Value} (hresults : outcome.results? = some results)
    (h : m.perform outcome = .ok m') : m'.stack = results.reverse ++ m.stack ∧ m'.returned = m.returned := by
  cases outcome with
  | push values =>
    cases hresults
    cases h
    exact ⟨rfl, rfl⟩
  | store slot value =>
    cases hresults
    obtain ⟨-, rfl⟩ := setLocal_eq_ok.1 h
    exact ⟨rfl, rfl⟩
  | finish => cases hresults

theorem perform_error {outcome : Outcome} (h : m.perform outcome = .error err) : err.isUnderflow = false := by
  cases outcome with
  | push values => cases h
  | store slot value =>
    simp only [perform, setLocal] at h
    split_ifs at h
    cases h
    rfl
  | finish => cases h

section

variable {c : Stack.Context} {position : Nat} (hc : c.resolve = env.resolve) (hvoid : VoidConstructors env.resolve)
  (hhooks : env.hooks.NoUnderflow) (hret : i.opcode ≠ .ret) (he : c.effect i = .ok e)
include hc hvoid hhooks hret he

/-- **A step moves the stack as the analysis says**: it takes its operands from the top, puts its results there and
leaves what is below. -/
theorem step_moves (h : m.step env position i = .ok m') : e.pops.toNat ≤ m.stack.length ∧
    ∃ results, results.length = e.pushes.toNat ∧ m'.stack = results ++ m.stack.drop e.pops.toNat ∧
      m'.returned = m.returned := by
  obtain ⟨plan, operands, stack, outcome, hplan, hlen, hstack, hact, hperform⟩ := step_eq_ok.1 h
  have hfits := plan_fits hc hvoid hhooks hret hplan he
  obtain ⟨results, hresults, hcount⟩ := hfits.results operands outcome hact
  obtain ⟨hafter, hreturned⟩ := perform_results hresults hperform
  have htaken : operands.reverse.length = e.pops.toNat := by
    rw [List.length_reverse, hlen, hfits.operands]
  refine ⟨?_, results.reverse, ?_, ?_, hreturned⟩
  · rw [hstack, List.length_append, htaken]
    exact Nat.le_add_right _ _
  · rw [List.length_reverse, hcount]
  · rw [hafter, hstack, ← htaken, List.drop_left]

/-- the depth behind a step -/
theorem step_depth (h : m.step env position i = .ok m') : m'.stack.length = e.after m.stack.length := by
  obtain ⟨-, results, hcount, hstack, -⟩ := step_moves hc hvoid hhooks hret he h
  rw [hstack, List.length_append, List.length_drop, hcount, StackEffect.after, Nat.add_comm]

/-- **A step fails for want of operands only if they are missing**, and it says how many there are. -/
theorem step_underflow {f : Failure Machine} (h : m.step env position i = .error f) (hf : f.error.isUnderflow = true) :
    m.stack.length < e.pops.toNat ∧ f.error = .stackUnderflow position e.pops.toNat m.stack.length := by
  rcases step_eq_error h with hplan | ⟨plan, hplan, hmissing | ⟨operands, stack, hact⟩⟩
  · rw [plan_error hplan] at hf
    cases hf
  · rw [(plan_fits hc hvoid hhooks hret hplan he).operands] at hmissing
    exact hmissing
  · have hfits := plan_fits hc hvoid hhooks hret hplan he
    rcases bind_eq_error.1 hact with hact | ⟨outcome, -, hperform⟩
    · rw [hfits.errors operands _ hact] at hf
      cases hf
    · rw [perform_error hperform] at hf
      cases hf

end

/-- a return takes what is on top, if anything is there -/
theorem step_ret {position : Nat} (hret : i.opcode = .ret) :
    m.step env position i = .ok { m with stack := m.stack.tail, returned := some m.stack.head? } := by
  have hplan : m.plan env i = .ok ⟨0, fun _ => .ok .finish⟩ := by simp only [plan, hret]
  exact step_eq_ok.2 ⟨_, [], m.stack, .finish, hplan, rfl, rfl, rfl, rfl⟩

/-- behind a return the machine has returned -/
theorem Steps.ne_ret (h : Steps env i m m') (hm' : m'.returned = none) : i.opcode ≠ .ret := by
  intro hret
  cases (h 0).symm.trans (step_ret hret)
  cases hm'

/-- a block with a return is not run to its end -/
theorem Runs.ne_ret {block : List Instruction} (h : Runs env block m m') : ∀ j ∈ block, j.opcode ≠ .ret := by
  induction h with
  | nil => simp
  | cons hi hr _ ih => exact List.forall_mem_cons.2 ⟨hi.ne_ret hr, ih⟩

end Machine

/-! ## The hooks at hand -/

namespace Hooks

theorem refuseCall_error {c : CallSite} {e : Error} (h : refuseCall c = .error e) : e.isUnderflow = false := by
  cases h
  rfl

theorem combine_error {o : Value.Operation} {c : CallSite} {e : Error} (ho : ∀ a b e, o.int32 a b ≠ .error e)
    (h : combine o c = .error e) : e.isUnderflow = false := by
  unfold combine at h
  split at h
  · rename_i x y hargs
    cases happly : o.apply x y with
    | none =>
      rw [happly] at h
      cases h
      rfl
    | some result =>
      rw [happly] at h
      obtain ⟨a, b, hint⟩ := Machine.apply_error (happly.trans (congrArg some h))
      exact absurd hint (ho a b e)
  · cases h
    rfl

theorem dimension_error {size : Int32} {c : CallSite} {e : Error} (h : dimension size c = .error e) :
    e.isUnderflow = false := by
  unfold dimension at h
  split at h
  · split_ifs at h
    exact refuseCall_error h
  · cases h
    rfl
  · exact refuseCall_error h

theorem makeVector_error {type : TypeName} {c : CallSite} {e : Error} (h : makeVector type c = .error e) :
    e.isUnderflow = false := by
  unfold makeVector at h
  split at h
  · cases h
  · exact refuseCall_error h

theorem scaleVector_error {type : TypeName} {c : CallSite} {e : Error} (h : scaleVector type c = .error e) :
    e.isUnderflow = false := by
  unfold scaleVector at h
  split at h
  · split at h
    · cases h
    · exact refuseCall_error h
  · exact refuseCall_error h

/-- the hooks at hand refuse a call or raise an exception; they do not ask for operands -/
theorem default_noUnderflow (renderTextureType vectorType : TypeName) (width height : Int32) :
    (default renderTextureType vectorType width height).NoUnderflow := by
  intro hook hhook call e he
  simp only [default, math, renderTexture, vector3, List.cons_append, List.nil_append, List.mem_cons,
    List.not_mem_nil, or_false] at hhook
  rcases hhook with rfl | rfl | rfl | rfl | rfl | rfl | rfl | rfl
  · exact combine_error (fun a b e => by simp [minimum]) he
  · exact combine_error (fun a b e => by simp [maximum]) he
  · cases he
  · cases he
  · exact dimension_error he
  · exact dimension_error he
  · exact makeVector_error he
  · exact scaleVector_error he

end Hooks

end CilGraft

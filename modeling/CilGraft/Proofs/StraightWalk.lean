/-
The walk of the stack analysis on straight-line code, against the depths that are computed along a block.

- `passing`: the depth behind one instruction of a block. The walk (`visit_straight`) and the computation of the peak
  (`peakFrom_cons`) both go on with it.
- `run_straight`: from any position of a block on, the walk comes to the same peak as the computation along the block,
  or to the same error, up to the return.
- `analyze_straight`: so the analysis of a block with a return behind it is that computation, and a check that the
  stack is empty at the end.
- `peak_raise`: a block that is entered with more operands gets as much deeper.
- `analyze_straight_block`: both computations agree, on every block.
-/
import CilGraft.Proofs.Insertion
import CilGraft.Proofs.NetEffect
import CilGraft.Proofs.WalkExact

namespace CilGraft.Stack

variable {resolve : Resolver} {code : Code} {i : Instruction} {block : List Instruction} {p d after : Nat}

/-! ## One instruction -/

/-- the depth behind an instruction of a block that is reached with `depth` operands -/
def passing (resolve : Resolver) (position depth : Nat) (i : Instruction) : Except Error Nat := do
  depthAfter (← (Context.mk resolve false).effect i) position depth

/-- the position is only for messages -/
theorem passing_of_ok (h : passing resolve p d i = .ok after) (q : Nat) : passing resolve q d i = .ok after := by
  obtain ⟨e, he, hafter⟩ := bind_eq_ok.1 h
  exact bind_eq_ok.2 ⟨e, he, depthAfter_eq_ok.2 (depthAfter_eq_ok.1 hafter)⟩

theorem peakFrom_cons {top : Nat} : peakFrom resolve p d top (i :: block) = (do
    let after ← passing resolve p d i
    peakFrom resolve (p + 1) after (max top after) block) := by
  rw [passing, bind_assoc]
  rfl

theorem depthBehind_cons : depthBehind resolve d (i :: block) = (do
    let after ← passing resolve 0 d i
    depthBehind resolve after block) := by
  rw [depthBehind, List.foldlM_cons]
  rfl

namespace Code

/-- the walk goes on behind an instruction of a block -/
theorem visit_straight (h : Straight i) (hnext : p + 1 < code.instructions.size) :
    code.visit ⟨resolve, false⟩ i ⟨p, d⟩ = (do
      let after ← passing resolve p d i
      return (after, [⟨p + 1, after⟩])) := by
  simp only [visit, h.targets, h.not_ret, fallThrough, h.not_terminal, hnext, false_and, if_false, if_true, passing,
    bind_assoc]
  rfl

/-- a return without a value takes an empty stack and ends the walk -/
theorem visit_ret : code.visit ⟨resolve, false⟩ { opcode := .ret } ⟨p, d⟩ =
    if d = 0 then .ok (0, []) else .error (.stackMismatch p 0 d) := by
  by_cases hd : d = 0
  · subst hd
    rfl
  · rw [if_neg hd]
    have hafter : depthAfter ⟨0, 0⟩ p d = .ok d := depthAfter_eq_ok.2 ⟨Nat.zero_le d, by simp [StackEffect.after]⟩
    refine bind_eq_error.2 (Or.inr ⟨⟨0, 0⟩, rfl, bind_eq_error.2 (Or.inr ⟨d, hafter, ?_⟩)⟩)
    rw [if_pos ⟨rfl, hd⟩]
    rfl

/-- the code from a position on, one instruction at a time -/
theorem instructions_of_drop {rest : List Instruction} (h : code.instructions.toList.drop p = i :: rest) :
    code.instructions[p]? = some i ∧ code.instructions.toList.drop (p + 1) = rest := by
  rw [← Array.getElem?_toList, ← List.head?_drop, ← List.tail_drop, h]
  exact ⟨rfl, rfl⟩

end Code

/-! ## The walk along a block -/

namespace Walk

variable {depths : Array (Option Nat)} {top : Nat}

/-- **The walk along the rest of a block** comes to the peak that is computed along it, if the stack is empty at the
end. Nothing from the position on is recorded yet, so no arrival is dropped. -/
theorem run_straight (hstraight : ∀ i ∈ block, Straight i)
    (hcode : code.instructions.toList.drop p = block ++ [{ opcode := .ret }])
    (hsize : depths.size = code.instructions.size) (hfresh : ∀ q, p ≤ q → (h : q < depths.size) → depths[q] = none)
    (hd : d ≤ top) :
    Walk.peak <$> run code ⟨resolve, false⟩ ⟨depths, [⟨p, d⟩], top⟩ = (do
      let peak ← peakFrom resolve p d top block
      let behind ← depthBehind resolve d block
      if behind = 0 then .ok peak else .error (.stackMismatch (p + block.length) 0 behind)) := by
  induction block generalizing p d top depths with
  | nil =>
    obtain ⟨hi, -⟩ := Code.instructions_of_drop hcode
    have hlt : p < depths.size := hsize ▸ (Array.getElem?_eq_some_iff.1 hi).1
    have hvisit := @Code.visit_ret resolve code p d
    change _ = (if d = 0 then .ok top else .error (.stackMismatch p 0 d) : Except Error Nat)
    by_cases hzero : d = 0
    · rw [if_pos hzero] at hvisit ⊢
      rw [run_of_more (step_visit hlt (hfresh p le_rfl hlt) hi hvisit) (run_of_done rfl)]
      simp [hzero]
    · rw [if_neg hzero] at hvisit ⊢
      rw [run_of_failed (step_visit_error hlt (hfresh p le_rfl hlt) hi hvisit)]
      rfl
  | cons i rest ih =>
    rw [List.cons_append] at hcode
    obtain ⟨hi, hrest⟩ := Code.instructions_of_drop hcode
    have hnext : p + 1 < code.instructions.size := by
      have hlen := congrArg List.length hrest
      rw [List.length_drop, Array.length_toList, List.length_append, List.length_singleton] at hlen
      omega
    have hlt : p < depths.size := by omega
    have hnone := hfresh p le_rfl hlt
    obtain ⟨hhead, htail⟩ := List.forall_mem_cons.1 hstraight
    have hvisit := @Code.visit_straight resolve code i p d hhead hnext
    rw [peakFrom_cons, depthBehind_cons]
    cases hpass : passing resolve p d i with
    | error e =>
      rw [hpass] at hvisit
      rw [run_of_failed (step_visit_error hlt hnone hi hvisit)]
      rfl
    | ok after =>
      rw [hpass] at hvisit
      have hfresh' : ∀ q, p + 1 ≤ q → (h : q < (depths.set p (some d)).size) → (depths.set p (some d))[q] = none := by
        intro q hq h
        rw [Array.size_set] at h
        rw [Array.getElem_set_ne hlt h (by omega)]
        exact hfresh q (by omega) h
      have hend : p + (i :: rest).length = p + 1 + rest.length := by
        rw [List.length_cons]
        omega
      rw [run_of_more (step_visit hlt hnone hi hvisit) rfl, passing_of_ok hpass 0, hend]
      simp only [max_eq_left hd]
      exact ih htail hrest (by rw [Array.size_set, hsize]) hfresh' (le_max_right _ _)

end Walk

/-! ## The analysis of a block -/

theorem entries_of_no_clauses {b : Body} (hpos : 0 < b.size) (hclauses : b.clauses = #[]) :
    (Code.ofBody b).entries = .ok [⟨0, 0⟩] := by
  have hclauses' : (Code.ofBody b).clauses = [] := by simp [Code.ofBody, hclauses]
  have hstart : (Code.ofBody b).instructions.isEmpty = false := by
    simpa [Code.ofBody, Body.size, Nat.pos_iff_ne_zero] using hpos
  simp only [Code.entries, hclauses', hstart]
  rfl

/-- **The analysis of a block with a return behind it** is the computation along the block and a check at the return. -/
theorem analyze_straight {b : Body} (hclauses : b.clauses = #[]) (hcode : b.instructions = block ++ [{ opcode := .ret }])
    (hstraight : ∀ i ∈ block, Straight i) : Report.maxDepth <$> analyze ⟨resolve, false⟩ b = (do
      let peak ← peak resolve block 0
      let behind ← depthBehind resolve 0 block
      if behind = 0 then .ok peak else .error (.stackMismatch block.length 0 behind)) := by
  have hinstructions : (Code.ofBody b).instructions.toList = block ++ [{ opcode := .ret }] := by
    rw [← hcode]
    simp [Code.ofBody, Body.instructions]
  have hpos : 0 < b.size := by
    rw [← Body.instructions_length, hcode, List.length_append, List.length_singleton]
    exact Nat.succ_pos _
  calc Report.maxDepth <$> analyze ⟨resolve, false⟩ b
      _ = Walk.peak <$> Walk.run (Code.ofBody b) ⟨resolve, false⟩ ⟨Array.replicate b.size none, [⟨0, 0⟩], 0⟩ := by
        rw [analyze_eq_run (entries_of_no_clauses hpos hclauses), List.reverse_singleton]
        cases Walk.run (Code.ofBody b) ⟨resolve, false⟩ ⟨Array.replicate b.size none, [⟨0, 0⟩], 0⟩ <;> rfl
      _ = _ := by
        have hwalk := @Walk.run_straight resolve (Code.ofBody b) block 0 0 (Array.replicate b.size none) 0 hstraight
          hinstructions (by simp [Code.ofBody, Body.size]) (fun q _ h => Array.getElem_replicate _) le_rfl
        rwa [Nat.zero_add] at hwalk

/-- a block that is entered with more operands gets as much deeper -/
theorem peak_raise {top : Nat} (h : peak resolve block d = .ok top) (k : Nat) :
    peak resolve block (d + k) = .ok (top + k) := by
  obtain ⟨depths, htrace, rfl⟩ := peakFrom_eq_ok.1 h
  have hraise := htrace.raise k
  rw [Nat.add_comm] at hraise
  refine peakFrom_eq_ok.2 ⟨_, hraise, ?_⟩
  have hmax := max_top_raise depths k
  rw [foldl_max, foldl_max]
  omega

/-- **The analysis and the computation along a block agree.** For every resolver, every block of sequential instructions
and calls that name no instructions, and every body without clauses that is this block with a return behind it, of a
method that returns no value: where the computation along the block fails, the analysis fails with the same error. Where
it tells a peak, the analysis accepts the body just if the total change of depth is 0, and then tells the same peak;
otherwise it finds the mismatch at the return. Besides, any block that is entered with more operands gets as much
deeper. -/
theorem analyze_straight_block (resolve : Resolver) :
    (∀ (block : List Instruction) (b : Body) (signature : MethodSig), (∀ i ∈ block, Straight i) → b.clauses = #[] →
      b.instructions = block ++ [{ opcode := .ret }] → signature.result = .void →
      let analysis := analyze (.ofSignature resolve signature) b
      (∀ e, peak resolve block 0 = .error e → analysis = .error e) ∧
      ∀ top, peak resolve block 0 = .ok top → ∃ es, ∃ behind : Nat, effects ⟨resolve, false⟩ block = .ok es ∧
        behind = totalChange es ∧ ((∃ r, analysis = .ok r) ↔ behind = 0) ∧ (∀ r, analysis = .ok r → r.maxDepth = top) ∧
        (behind ≠ 0 → analysis = .error (.stackMismatch block.length 0 behind))) ∧
      ∀ block entry top, peak resolve block entry = .ok top → ∀ k, peak resolve block (entry + k) = .ok (top + k) := by
  refine ⟨fun block b signature hstraight hclauses hcode hvoid => ?_, fun block entry top h => peak_raise h⟩
  have hcontext : Context.ofSignature resolve signature = ⟨resolve, false⟩ := by
    simp [Context.ofSignature, MethodSig.returnsValue, hvoid]
  intro analysis
  have hanalysis : Report.maxDepth <$> analysis = _ := hcontext ▸ analyze_straight hclauses hcode hstraight
  refine ⟨fun e he => ?_, fun top htop => ?_⟩
  · rw [he] at hanalysis
    exact map_eq_error.1 hanalysis
  · obtain ⟨behind, es, hbehind, hes, hchange⟩ := depthBehind_of_peak htop
    rw [htop, hbehind] at hanalysis
    change _ = (if behind = 0 then .ok top else .error (.stackMismatch block.length 0 behind) : Except Error Nat)
      at hanalysis
    refine ⟨es, behind, hes, by simpa using hchange, ?_⟩
    by_cases hzero : behind = 0
    · rw [if_pos hzero] at hanalysis
      obtain ⟨r, hr, htop⟩ := map_eq_ok.1 hanalysis
      refine ⟨iff_of_true ⟨r, hr⟩ hzero, fun r' hr' => ?_, fun hne => absurd hzero hne⟩
      cases hr.symm.trans hr'
      exact htop
    · rw [if_neg hzero] at hanalysis
      have herror := map_eq_error.1 hanalysis
      have hnone : ¬ ∃ r, analysis = .ok r := by
        rintro ⟨r, hr⟩
        cases herror.symm.trans hr
      exact ⟨iff_of_false hnone hzero, fun r hr => absurd ⟨r, hr⟩ hnone, fun _ => herror⟩

/-- a body that is a block with a return behind it -/
def returning (block : List Instruction) : Body := ((Body.empty 1).append (block ++ [{ opcode := .ret }])).1

theorem returning_instructions (block : List Instruction) :
    (returning block).instructions = block ++ [{ opcode := .ret }] := by
  rw [returning, Body.append_eq_insertAt, Body.insertAt_instructions]
  simp [Body.empty, Body.instructions]

/-- of three blocks one leaves the stack as it was, one leaves a value behind, and one lacks an operand -/
theorem analyze_straight_block_samples :
    let analysis := fun block => analyze (.ofSignature (fun _ => none) (.static .void [])) (returning block)
    (∃ r, analysis [{ opcode := .ldcI40 }, { opcode := .dup }, { opcode := .pop }, { opcode := .pop }] = .ok r ∧
        r.maxDepth = 2) ∧
      analysis [{ opcode := .ldcI40 }, { opcode := .dup }, { opcode := .pop }] = .error (.stackMismatch 3 0 1) ∧
      analysis [{ opcode := .ldcI40 }, { opcode := .add }] = .error (.stackUnderflow 1 2 1) ∧
      peak (fun _ => none) [{ opcode := .ldcI40 }, { opcode := .dup }] (0 + 5) = .ok (2 + 5) := by
  intro analysis
  have hagree := fun block hstraight => (analyze_straight_block fun _ => none).1 block (returning block)
    (.static .void []) hstraight rfl (returning_instructions block) rfl
  have hneutral := hagree [{ opcode := .ldcI40 }, { opcode := .dup }, { opcode := .pop }, { opcode := .pop }] (by decide)
  have hgiving := hagree [{ opcode := .ldcI40 }, { opcode := .dup }, { opcode := .pop }] (by decide)
  refine ⟨?_, ?_, (hagree _ (by decide)).1 _ rfl, (analyze_straight_block fun _ => none).2 _ 0 2 rfl 5⟩
  · obtain ⟨es, behind, hes, hchange, hok, htop, -⟩ := hneutral.2 2 rfl
    cases hes
    obtain ⟨r, hr⟩ := hok.2 (Int.ofNat.inj hchange)
    exact ⟨r, hr, htop r hr⟩
  · obtain ⟨es, behind, hes, hchange, -, -, hmismatch⟩ := hgiving.2 2 rfl
    cases hes
    obtain rfl : behind = 1 := Int.ofNat.inj hchange
    exact hmismatch (by decide)

end CilGraft.Stack

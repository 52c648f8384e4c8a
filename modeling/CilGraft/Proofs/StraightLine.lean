/-
Straight-line code: instructions behind which control only ever goes on to the next one.

- `Trace`: the depths behind the instructions of a block, one after the other. A block that runs with few operands below
  it runs with any number of them (`Trace.raise`).
- `peak_eq_ok`: the peak of a block is the greatest depth of its trace, the entry included.
- `depthBehind_eq_ok`: the depth behind a block is the last one of its trace.
- `Neutral`: a block that takes no operand from below and leaves the stack as it found it. `neutral_of_peak`: it is
  enough that it runs on an empty stack and leaves it empty.
- `StraightBody.disciplined`: a block with a return behind it is a disciplined body.
-/
import CilGraft.Proofs.StackDiscipline

namespace CilGraft

namespace StackEffect

/-- operands below those that an instruction takes are left alone -/
theorem after_add {e : StackEffect} {l : Nat} (h : e.pops.toNat ≤ l) (d : Nat) : e.after (d + l) = d + e.after l := by
  simp only [after]
  omega

end StackEffect

namespace Stack

/-- control goes from the instruction to the next one and nowhere else -/
structure Straight (i : Instruction) : Prop where
  flow : i.flow = .sequential ∨ i.flow = .call
  targets : i.targets = []

instance (i : Instruction) : Decidable (Straight i) :=
  decidable_of_iff ((i.flow = .sequential ∨ i.flow = .call) ∧ i.targets = []) ⟨fun h => ⟨h.1, h.2⟩, fun h => ⟨h.1, h.2⟩⟩

/-- only to a return the method around it makes a difference -/
theorem effect_of_ne_ret {i : Instruction} (c : Context) (hret : i.opcode ≠ .ret) :
    c.effect i = (Context.mk c.resolve false).effect i := by
  simp only [Context.effect, if_neg hret]

namespace Straight

variable {i : Instruction} (h : Straight i)
include h

theorem not_terminal : i.flow.isTerminal = false := by
  rcases h.flow with hf | hf
  · rw [hf]; rfl
  · rw [hf]; rfl

theorem not_ret : i.opcode ≠ .ret := by
  intro hret
  have hflow : i.flow = .ret := by rw [Instruction.flow, hret]; rfl
  rcases h.flow with hf | hf
  · rw [hf] at hflow; cases hflow
  · rw [hf] at hflow; cases hflow

theorem effect (c : Context) : c.effect i = (Context.mk c.resolve false).effect i := effect_of_ne_ret c h.not_ret

end Straight

theorem insertAt_wellFormed {b : Body} {p : Nat} {block : List Instruction} (hb : b.WellFormed)
    (h : ∀ i ∈ block, Straight i) : (b.insertAt p block).WellFormed :=
  hb.insertAt p block fun i hi t ht => by
    rw [(h i hi).targets] at ht
    cases ht

/-! ## Traces -/

/-- The depths behind the instructions of a block that is entered with `d` operands. -/
inductive Trace (c : Context) : Nat → List Instruction → List Nat → Prop where
  | nil {d : Nat} : Trace c d [] []
  | cons {d : Nat} {i : Instruction} {e : StackEffect} {rest : List Instruction} {depths : List Nat}
      (he : c.effect i = .ok e) (hpops : e.pops.toNat ≤ d) (h : Trace c (e.after d) rest depths) :
      Trace c d (i :: rest) (e.after d :: depths)

namespace Trace

variable {c : Context} {d : Nat} {block : List Instruction} {depths : List Nat}

theorem length_eq (h : Trace c d block depths) : depths.length = block.length := by
  induction h with
  | nil => rfl
  | cons _ _ _ ih => simp [ih]

/-- more operands at the bottom of the stack make every depth greater by their number -/
theorem raise (h : Trace c d block depths) (k : Nat) : Trace c (k + d) block (depths.map (k + ·)) := by
  induction h with
  | nil => exact .nil
  | @cons d i e rest depths he hpops _ ih =>
    rw [List.map_cons]
    rw [← StackEffect.after_add hpops k] at ih ⊢
    exact .cons he (by omega) ih

/-- what a trace tells about one instruction: its effect is known, its operands are there, and it leads from the depth
before it to the next one of the trace -/
theorem at_instruction (h : Trace c d block depths) {k : Nat} {i : Instruction} (hi : block[k]? = some i) :
    ∃ e l, c.effect i = .ok e ∧ (d :: depths)[k]? = some l ∧ e.pops.toNat ≤ l ∧
      (d :: depths)[k + 1]? = some (e.after l) := by
  induction h generalizing k with
  | nil => cases hi
  | cons he hpops _ ih =>
    cases k with
    | zero =>
      cases hi
      exact ⟨_, _, he, rfl, hpops, rfl⟩
    | succ k =>
      rw [List.getElem?_cons_succ] at hi
      simpa only [List.getElem?_cons_succ] using ih hi

theorem exists_last (h : Trace c d block depths) : ∃ d', (d :: depths)[block.length]? = some d' := by
  refine ⟨_, List.getElem?_eq_getElem ?_⟩
  rw [List.length_cons, h.length_eq]
  exact Nat.lt_succ_self _

theorem append {rest : List Instruction} {more : List Nat} {d' : Nat} (h : Trace c d block depths)
    (hlast : (d :: depths)[block.length]? = some d') (h' : Trace c d' rest more) :
    Trace c d (block ++ rest) (depths ++ more) := by
  induction h with
  | nil =>
    simp only [List.length_nil, List.getElem?_cons_zero, Option.some.injEq] at hlast
    exact hlast ▸ h'
  | cons he hpops _ ih => exact .cons he hpops (ih hlast)

end Trace

/-! ## Peaks -/

variable {resolve : Resolver}

theorem peakFrom_eq_ok {block : List Instruction} {position d peak m : Nat} :
    peakFrom resolve position d peak block = .ok m ↔
      ∃ depths, Trace ⟨resolve, false⟩ d block depths ∧ m = depths.foldl max peak := by
  induction block generalizing position d peak with
  | nil =>
    simp only [peakFrom, Except.ok.injEq]
    constructor
    · rintro rfl
      exact ⟨[], .nil, rfl⟩
    · rintro ⟨depths, h, rfl⟩
      cases h
      rfl
  | cons i rest ih =>
    simp only [peakFrom, bind_eq_ok, ih]
    constructor
    · rintro ⟨e, he, after, hafter, depths, h, rfl⟩
      obtain ⟨hpops, rfl⟩ := depthAfter_eq_ok.1 hafter
      exact ⟨_, .cons he hpops h, rfl⟩
    · rintro ⟨depths, h, rfl⟩
      cases h with
      | cons he hpops h => exact ⟨_, he, _, depthAfter_eq_ok.2 ⟨hpops, rfl⟩, _, h, rfl⟩

/-- the greatest of some depths, or 0 -/
def top (depths : List Nat) : Nat := depths.foldl max 0

theorem foldl_max (depths : List Nat) (m : Nat) : depths.foldl max m = max m (top depths) := by
  induction depths generalizing m with
  | nil => simp [top]
  | cons d depths ih => rw [top, List.foldl_cons, List.foldl_cons, ih, ih (max 0 d)]; omega

theorem top_cons (d : Nat) (depths : List Nat) : top (d :: depths) = max d (top depths) := by
  rw [top, List.foldl_cons, foldl_max, Nat.zero_max]

theorem le_top {depths : List Nat} {d : Nat} (h : d ∈ depths) : d ≤ top depths := by
  induction depths with
  | nil => cases h
  | cons d' depths ih =>
    rw [top_cons]
    rcases List.mem_cons.1 h with rfl | h
    · exact le_max_left _ _
    · exact (ih h).trans (le_max_right _ _)

theorem top_le {depths : List Nat} {m : Nat} (h : ∀ d ∈ depths, d ≤ m) : top depths ≤ m := by
  induction depths with
  | nil => exact Nat.zero_le m
  | cons d depths ih =>
    rw [top_cons]
    exact max_le (h d List.mem_cons_self) (ih fun d' h' => h d' (List.mem_cons_of_mem d h'))

theorem max_top_raise (depths : List Nat) (k : Nat) : max k (top (depths.map (k + ·))) = k + top depths := by
  induction depths with
  | nil => simp [top]
  | cons d depths ih => rw [List.map_cons, top_cons, top_cons]; omega

/-- **The peak of a block** that is entered above any number of operands is that number more than on an empty stack. -/
theorem peak_eq_ok {block : List Instruction} {levels : List Nat} (h : Trace ⟨resolve, false⟩ 0 block levels)
    (d : Nat) : peak resolve block d = .ok (d + top levels) := by
  refine peakFrom_eq_ok.2 ⟨_, h.raise d, ?_⟩
  rw [foldl_max, max_top_raise]

/-! ## Depths behind blocks -/

/-- the depth behind a block that is entered with `depth` operands -/
def depthBehind (resolve : Resolver) (depth : Nat) (block : List Instruction) : Except Error Nat :=
  block.foldlM (fun depth i => do depthAfter (← (Context.mk resolve false).effect i) 0 depth) depth

/-- it is the last depth of the trace -/
theorem depthBehind_eq_ok {d d' : Nat} {block : List Instruction} {depths : List Nat}
    (h : Trace ⟨resolve, false⟩ d block depths) (hlast : (d :: depths)[block.length]? = some d') :
    depthBehind resolve d block = .ok d' := by
  induction h with
  | nil =>
    simp only [List.length_nil, List.getElem?_cons_zero, Option.some.injEq] at hlast
    rw [hlast]
    rfl
  | cons he hpops _ ih =>
    unfold depthBehind
    rw [List.foldlM_cons]
    exact bind_eq_ok.2 ⟨_, bind_eq_ok.2 ⟨_, he, depthAfter_eq_ok.2 ⟨hpops, rfl⟩⟩, ih hlast⟩

/-! ## Blocks that leave no trace -/

/-- A block that can be run above any stack and leaves it as it was; `levels` are the depths behind its instructions,
counted from the stack that it finds. -/
structure Neutral (resolve : Resolver) (block : List Instruction) (levels : List Nat) : Prop where
  straight : ∀ i ∈ block, Straight i
  trace : Trace ⟨resolve, false⟩ 0 block levels
  closed : (0 :: levels)[block.length]? = some 0

/-- **A block that runs on an empty stack and leaves it empty is neutral.** -/
theorem neutral_of_peak {block : List Instruction} {m : Nat} (hstraight : ∀ i ∈ block, Straight i)
    (hpeak : peak resolve block 0 = .ok m) (hbehind : depthBehind resolve 0 block = .ok 0) :
    ∃ levels, Neutral resolve block levels ∧ m = top levels := by
  obtain ⟨levels, htrace, hm⟩ := peakFrom_eq_ok.1 hpeak
  obtain ⟨d', hlast⟩ := htrace.exists_last
  rw [depthBehind_eq_ok htrace hlast, Except.ok.injEq] at hbehind
  rw [hbehind] at hlast
  exact ⟨levels, ⟨hstraight, htrace, hlast⟩, hm⟩

namespace Neutral

variable {block : List Instruction} {levels : List Nat} (h : Neutral resolve block levels)
include h

theorem no_targets : ∀ i ∈ block, i.targets = [] := fun i hi => (h.straight i hi).targets

theorem append {block' : List Instruction} {levels' : List Nat} (h' : Neutral resolve block' levels') :
    Neutral resolve (block ++ block') (levels ++ levels') := by
  refine ⟨fun i hi => ?_, h.trace.append h.closed h'.trace, ?_⟩
  · rcases List.mem_append.1 hi with hi | hi
    · exact h.straight i hi
    · exact h'.straight i hi
  · have hlen := h.trace.length_eq
    have hclosed' := h'.closed
    rw [← List.cons_append, List.length_append]
    cases block' with
    | nil =>
      cases h'.trace
      simpa using h.closed
    | cons i block' =>
      rw [List.getElem?_append_right (by simp only [List.length_cons]; omega)]
      simp only [List.length_cons] at hclosed' ⊢
      rw [List.getElem?_cons_succ] at hclosed'
      rw [← hclosed']
      congr 1
      omega

end Neutral

/-! ## Bodies of straight-line code -/

/-- a body without clauses that is a block with a return behind it -/
structure StraightBody (c : Context) (b : Body) (block : List Instruction) (depths : List Nat) : Prop where
  clauses : b.clauses = #[]
  code : b.instructions = block ++ [{ opcode := .ret }]
  straight : ∀ i ∈ block, Straight i
  trace : Trace c 0 block depths

namespace StraightBody

variable {c : Context} {b : Body} {block : List Instruction} {depths : List Nat} (h : StraightBody c b block depths)
include h

theorem instructionAt? (p : Nat) : b.instructionAt? p = (block ++ [{ opcode := .ret }])[p]? := by
  rw [← h.code, Body.instructions_getElem?]

theorem size_eq : b.size = block.length + 1 := by
  have hlen := congrArg List.length h.code
  simpa [Body.instructions, Body.size] using hlen

/-- the instruction at a position is one of the block, or the return -/
theorem cases_at {p : Nat} {i : Instruction} (hi : b.instructionAt? p = some i) :
    block[p]? = some i ∨ (p = block.length ∧ i = { opcode := .ret }) := by
  rw [h.instructionAt?] at hi
  by_cases hp : p < block.length
  · rw [List.getElem?_append_left hp] at hi
    exact Or.inl hi
  · rw [List.getElem?_append_right (by omega)] at hi
    obtain ⟨hlt, heq⟩ := List.getElem?_eq_some_iff.1 hi
    rw [List.length_singleton] at hlt
    have hp : p = block.length := by omega
    subst hp
    simp only [Nat.sub_self, List.getElem_cons_zero] at heq
    exact Or.inr ⟨rfl, heq.symm⟩

/-- control follows the trace -/
theorem depth_eq {a : Arrival} (ha : Reaches c b a) : (0 :: depths)[a.position]? = some a.depth := by
  induction ha with
  | entry he =>
    cases he with
    | start => rfl
    | handler hc => rw [h.clauses] at hc; cases Array.mem_toList_iff.2 hc
    | filter hc => rw [h.clauses] at hc; cases Array.mem_toList_iff.2 hc
  | move _ hm ih =>
    cases hm with
    | jump hi _ ht _ =>
      rcases h.cases_at hi with hi | ⟨-, rfl⟩
      · rw [(h.straight _ (List.mem_of_getElem? hi)).targets] at ht; cases ht
      · cases ht
    | next hi he hn =>
      rcases h.cases_at hi with hi | ⟨-, rfl⟩
      · obtain ⟨e, l, he', hl, -, hnext⟩ := h.trace.at_instruction hi
        rw [he] at he'; cases he'
        rw [ih] at hl; cases hl
        exact hnext
      · cases hn

/-- **Straight-line code is disciplined** if the return finds just what it takes. -/
theorem disciplined (hb : b.WellFormed) {e : StackEffect} (he : c.effect { opcode := .ret } = .ok e)
    (hlast : (0 :: depths)[block.length]? = some e.pops.toNat) : Disciplined c b := by
  refine ⟨starts_of_wellFormed hb, fun a a' ha ha' hp => ?_, fun a ha => ?_⟩
  · have hdepth := h.depth_eq ha
    rw [hp, h.depth_eq ha'] at hdepth
    simpa using hdepth.symm
  · have hdepth := h.depth_eq ha
    have hlt : a.position < b.size := by
      have hlen := (List.getElem?_eq_some_iff.1 hdepth).1
      rw [h.size_eq, ← h.trace.length_eq]
      exact hlen
    obtain ⟨i, hi⟩ := Body.instructionAt?_of_lt hlt
    rcases h.cases_at hi with hblock | ⟨hp, rfl⟩
    · have hstraight := h.straight i (List.mem_of_getElem? hblock)
      obtain ⟨e', l, he', hl, hpops, -⟩ := h.trace.at_instruction hblock
      rw [hdepth] at hl; cases hl
      refine ⟨i, e', hi, he', hpops, fun hret => absurd hret hstraight.not_ret, fun t ht => ?_, fun _ => ?_⟩
      · rw [hstraight.targets] at ht; cases ht
      · have hin := (List.getElem?_eq_some_iff.1 hblock).1
        rw [h.size_eq]; omega
    · rw [hp, hlast, Option.some.injEq] at hdepth
      exact ⟨_, e, hi, he, hdepth.le, fun _ => hdepth.symm, fun t ht => by (cases ht), fun hn => by (cases hn)⟩

end StraightBody

end Stack

end CilGraft

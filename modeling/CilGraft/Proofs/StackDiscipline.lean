/-
The stack discipline of a body, said without an analysis.

A configuration is a position with an operand depth. Control enters at the first instruction with an empty stack, and at
every handler and filter (`Entry`); from an instruction it goes to each target and, unless the instruction ends the
flow, to the next one (`Moves`). A body is `Disciplined` if the configurations that control reaches (`Reaches`) have one
depth for each position and every one of them is `Admissible`: the effect of the instruction is known, its operands are
there, a return takes the whole stack, and control stays in the body.
-/
import CilGraft.Proofs.BodyInvariant
import CilGraft.Stack.Walk

namespace CilGraft

/-- the depth behind an instruction that is reached with `depth` operands -/
def StackEffect.after (e : StackEffect) (depth : Nat) : Nat := depth - e.pops.toNat + e.pushes.toNat

namespace Stack

theorem depthAfter_eq_ok {e : StackEffect} {p d n : Nat} :
    depthAfter e p d = .ok n ↔ e.pops.toNat ≤ d ∧ n = e.after d := by
  simp only [depthAfter, StackEffect.after]
  split_ifs with h
  · simp only [false_iff, not_and]; omega
  · simp only [Except.ok.injEq]; omega

/-- an effect of a given size has that size -/
theorem sized_eq_ok {i : Instruction} {e : StackEffect} {pops pushes : Nat} (hpushes : pushes ≤ 255)
    (h : sized i pops pushes = .ok e) : e.pops.toNat = pops ∧ e.pushes.toNat = pushes := by
  unfold sized at h
  split at h
  · cases h
    constructor <;> simp only [UInt8.toNat_ofNat'] <;> omega
  · cases h

/-! ## The discipline -/

/-- where control enters a body -/
inductive Entry (b : Body) : Arrival → Prop where
  | start (h : 0 < b.size) : Entry b ⟨0, 0⟩
  | handler {cl : Clause} {p : Nat} (hc : cl ∈ b.clauses) (hp : b.positionOf? cl.handlerStart = some p) :
      Entry b ⟨p, if cl.pushesException then 1 else 0⟩
  | filter {cl : Clause} {f : Handle} {p : Nat} (hc : cl ∈ b.clauses) (hf : cl.filterStart = some f)
      (hp : b.positionOf? f = some p) : Entry b ⟨p, 1⟩

/-- where control goes from a configuration; leaving a protected region empties the stack -/
inductive Moves (c : Context) (b : Body) : Arrival → Arrival → Prop where
  | jump {p d q : Nat} {i : Instruction} {e : StackEffect} {t : Handle} (hi : b.instructionAt? p = some i)
      (he : c.effect i = .ok e) (ht : t ∈ i.targets) (hq : b.positionOf? t = some q) :
      Moves c b ⟨p, d⟩ ⟨q, if i.flow = .leave then 0 else e.after d⟩
  | next {p d : Nat} {i : Instruction} {e : StackEffect} (hi : b.instructionAt? p = some i) (he : c.effect i = .ok e)
      (hn : i.flow.isTerminal = false) : Moves c b ⟨p, d⟩ ⟨p + 1, e.after d⟩

/-- configurations that control reaches -/
inductive Reaches (c : Context) (b : Body) : Arrival → Prop where
  | entry {a : Arrival} (h : Entry b a) : Reaches c b a
  | move {a a' : Arrival} (h : Reaches c b a) (hm : Moves c b a a') : Reaches c b a'

/-- what every configuration that is reached has to satisfy -/
def Admissible (c : Context) (b : Body) (a : Arrival) : Prop :=
  ∃ i e, b.instructionAt? a.position = some i ∧ c.effect i = .ok e ∧ e.pops.toNat ≤ a.depth ∧
    (i.opcode = .ret → a.depth = e.pops.toNat) ∧ (∀ t ∈ i.targets, b.contains t = true) ∧
    (i.flow.isTerminal = false → a.position + 1 < b.size)

structure Disciplined (c : Context) (b : Body) : Prop where
  starts : ∀ cl ∈ b.clauses, b.contains cl.handlerStart = true ∧ ∀ f ∈ cl.filterStart, b.contains f = true
  consistent : ∀ a a', Reaches c b a → Reaches c b a' → a.position = a'.position → a.depth = a'.depth
  admissible : ∀ a, Reaches c b a → Admissible c b a

/-- the depths before and behind the instruction at a configuration -/
def depthsAt (c : Context) (b : Body) (a : Arrival) : Set Nat :=
  { n | n = a.depth ∨ ∃ i e, b.instructionAt? a.position = some i ∧ c.effect i = .ok e ∧ n = e.after a.depth }

/-- the depths before and behind the instructions that control reaches -/
def reachedDepths (c : Context) (b : Body) : Set Nat := { n | ∃ a, Reaches c b a ∧ n ∈ depthsAt c b a }

/-! ## Where control can be -/

section

variable {b : Body} (hb : b.WellFormed) {c : Context}
include hb

theorem starts_of_wellFormed :
    ∀ cl ∈ b.clauses, b.contains cl.handlerStart = true ∧ ∀ f ∈ cl.filterStart, b.contains f = true := by
  intro cl hc
  refine ⟨hb.clauses cl hc _ (by simp [Clause.boundaries]), fun f hf => hb.clauses cl hc f ?_⟩
  simp [Clause.boundaries, Option.mem_def.1 hf]

theorem Entry.lt_size {a : Arrival} (h : Entry b a) : a.position < b.size := by
  cases h with
  | start h => exact h
  | handler _ hp => exact hb.lt_size_of_positionOf? hp
  | filter _ _ hp => exact hb.lt_size_of_positionOf? hp

theorem Moves.lt_size {a a' : Arrival} (hm : Moves c b a a') (ha : Admissible c b a) : a'.position < b.size := by
  cases hm with
  | jump _ _ _ hq => exact hb.lt_size_of_positionOf? hq
  | next hi _ hterm =>
    obtain ⟨i', e', hi', -, -, -, -, hlast⟩ := ha
    rw [hi] at hi'; cases hi'
    exact hlast hterm

end

/-- in code that is not empty something is reached, so the least bound of the depths is a depth that occurs -/
theorem isGreatest_of_isLUB {b : Body} {c : Context} {n : Nat} (h : IsLUB (reachedDepths c b) n) (hpos : 0 < b.size) :
    IsGreatest (reachedDepths c b) n := by
  have hne : (reachedDepths c b).Nonempty := ⟨0, Arrival.mk 0 0, .entry (.start hpos), Or.inl rfl⟩
  refine ⟨?_, h.1⟩
  rw [← h.csSup_eq hne]
  exact Nat.sSup_mem hne ⟨n, h.1⟩

end Stack

end CilGraft

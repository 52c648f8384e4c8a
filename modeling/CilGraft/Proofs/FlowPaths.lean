/-
The ways that control can take through a body, with what they have passed.

- `Visit`: control at a position, and whether it fell there from the instruction before or jumped there.
- `FlowPath`: a way from the first instruction on, along targets and to next instructions: what it has passed, and where
  it is. `Precedes` and `FallsBefore` say that every way has passed something else before.
- `FlowPath.reaches`: the analysis knows every position that a way gets to.
- `flowPath_shift_iff`, `flowPath_front_iff`: the ways through a body with a block put in are those through the old
  body, with the whole block passed each time that they fall to the place where it was put.
-/
import CilGraft.Proofs.Insertion
import CilGraft.Proofs.StraightLine

namespace CilGraft

/-- control is at a position; it fell there from the instruction before (or entered the body there), or it jumped -/
structure Visit where
  position : Nat
  fallen : Bool
deriving DecidableEq

/-- where control goes from a visit -/
inductive Flows (b : Body) (v : Visit) : Visit → Prop where
  | jump {i : Instruction} {t : Handle} {q : Nat} (hi : b.instructionAt? v.position = some i) (ht : t ∈ i.targets)
      (hq : b.positionOf? t = some q) : Flows b v ⟨q, false⟩
  | next {i : Instruction} (hi : b.instructionAt? v.position = some i) (hn : i.flow.isTerminal = false)
      (hlt : v.position + 1 < b.size) : Flows b v ⟨v.position + 1, true⟩

/-- a way of control from the first instruction on: the visits so far, and the one that control is at -/
inductive FlowPath (b : Body) : List Visit → Visit → Prop where
  | start (h : 0 < b.size) : FlowPath b [] ⟨0, true⟩
  | step {before : List Visit} {v v' : Visit} (h : FlowPath b before v) (hf : Flows b v v') :
      FlowPath b (before ++ [v]) v'

/-- control does not get to `h'` but by way of `h` -/
def Precedes (b : Body) (h h' : Handle) : Prop :=
  ∀ before v, FlowPath b before v → b.handleAt? v.position = some h' → ∃ u ∈ before, b.handleAt? u.position = some h

/-- control does not fall to `h'` unless it has fallen to `h`, before or with the same step -/
def FallsBefore (b : Body) (h h' : Handle) : Prop :=
  ∀ before v, FlowPath b before v → v.fallen = true → b.handleAt? v.position = some h' →
    ∃ u ∈ before ++ [v], u.fallen = true ∧ b.handleAt? u.position = some h

/-! ## What ways depend on -/

section

variable {b b' : Body} {before : List Visit} {v v' : Visit} (hcode : b'.code = b.code) (hnumber : b'.number = b.number)
include hcode hnumber

theorem Flows.congr (h : Flows b v v') : Flows b' v v' := by
  have hat : ∀ p, b'.instructionAt? p = b.instructionAt? p := fun p => by rw [Body.instructionAt?, hcode]; rfl
  have hposition : ∀ t, b'.positionOf? t = b.positionOf? t := fun t => by
    rw [Body.positionOf?, Body.contains, hcode, hnumber]
    rfl
  cases h with
  | jump hi ht hq => exact .jump ((hat _).trans hi) ht ((hposition _).trans hq)
  | next hi hn hlt => exact .next ((hat _).trans hi) hn (by simpa only [Body.size, hcode] using hlt)

/-- neither the locals nor the header matter -/
theorem FlowPath.congr (h : FlowPath b before v) : FlowPath b' before v := by
  induction h with
  | start h => exact .start (by simpa only [Body.size, hcode] using h)
  | step _ hf ih => exact .step ih (hf.congr hcode hnumber)

end

theorem FlowPath.congr_iff {b b' : Body} (hcode : b'.code = b.code) (hnumber : b'.number = b.number)
    {before : List Visit} {v : Visit} : FlowPath b' before v ↔ FlowPath b before v :=
  ⟨.congr hcode.symm hnumber.symm, .congr hcode hnumber⟩

/-- **In a disciplined body every position on a way has a depth.** -/
theorem FlowPath.reaches {c : Stack.Context} {b : Body} (hd : Stack.Disciplined c b) {before : List Visit} {v : Visit}
    (h : FlowPath b before v) : ∃ d, Stack.Reaches c b ⟨v.position, d⟩ := by
  induction h with
  | start h => exact ⟨0, .entry (.start h)⟩
  | step _ hf ih =>
    obtain ⟨d, hr⟩ := ih
    obtain ⟨i, e, hi, he, -⟩ := hd.admissible _ hr
    cases hf with
    | jump hi' ht hq =>
      rw [hi] at hi'; cases hi'
      exact ⟨_, .move hr (.jump hi he ht hq)⟩
    | next hi' hn =>
      rw [hi] at hi'; cases hi'
      exact ⟨_, .move hr (.next hi he hn)⟩

/-! ## Ways through a body with a block put in -/

open Body (shift shift_inj shift_ne_block shift_succ shift_pred shift_of_lt shift_of_le)

/-- the visits of the first `k` instructions of a block in front of position `p` -/
def lead (p k : Nat) : List Visit := (List.range k).map fun j => ⟨p + j, true⟩

/-- what of the block control passes on its way to a visit: all of it if it falls to the place, else nothing -/
def leadTo (p n : Nat) (v : Visit) : List Visit := if v = ⟨p, true⟩ then lead p n else []

/-- the visit of the same instruction where it is afterwards -/
def Visit.shift (p n : Nat) (v : Visit) : Visit := ⟨Body.shift p n v.position, v.fallen⟩

/-- the visits that a visit has become -/
def expand (p n : Nat) (v : Visit) : List Visit := leadTo p n v ++ [v.shift p n]

theorem Visit.shift_inj {p n : Nat} {v v' : Visit} (h : v.shift p n = v'.shift p n) : v = v' := by
  obtain ⟨q, fallen⟩ := v
  obtain ⟨q', fallen'⟩ := v'
  simp only [Visit.shift, Visit.mk.injEq] at h ⊢
  exact ⟨Body.shift_inj h.1, h.2⟩

theorem lead_succ (p k : Nat) : lead p (k + 1) = lead p k ++ [⟨p + k, true⟩] := by
  rw [lead, List.range_succ, List.map_append]
  rfl

theorem mem_lead {p k : Nat} {u : Visit} : u ∈ lead p k ↔ ∃ j < k, u = ⟨p + j, true⟩ := by
  simp only [lead, List.mem_map, List.mem_range, eq_comm]

theorem mem_leadTo {p n : Nat} {u v : Visit} : u ∈ leadTo p n v ↔ v = ⟨p, true⟩ ∧ u ∈ lead p n := by
  rw [leadTo]
  split_ifs with h <;> simp [h]

/-- an instruction of the block is passed when control falls to the place -/
theorem passed_block_iff {p n k : Nat} (hk : k < n) {before : List Visit} {v : Visit} :
    (∃ u ∈ before.flatMap (expand p n) ++ leadTo p n v, u.position = p + k) ↔ ⟨p, true⟩ ∈ before ++ [v] := by
  have hmem : ∀ w, (∃ u ∈ leadTo p n w, u.position = p + k) ↔ w = ⟨p, true⟩ := by
    intro w
    simp only [mem_leadTo, mem_lead]
    constructor
    · rintro ⟨u, ⟨hw, -⟩, -⟩
      exact hw
    · rintro rfl
      exact ⟨⟨p + k, true⟩, ⟨rfl, k, hk, rfl⟩, rfl⟩
  simp only [List.mem_append, List.mem_flatMap, List.mem_singleton, expand, or_and_right, exists_or, hmem]
  constructor
  · rintro (⟨u, ⟨w, hw, hu | rfl⟩, hp⟩ | rfl)
    · obtain rfl := (hmem w).1 ⟨u, hu, hp⟩
      exact Or.inl hw
    · exact absurd hp (shift_ne_block hk)
    · exact Or.inr rfl
  · rintro (hw | rfl)
    · obtain ⟨u, hu, hp⟩ := (hmem ⟨p, true⟩).2 rfl
      exact Or.inl ⟨u, ⟨_, hw, Or.inl hu⟩, hp⟩
    · exact Or.inr rfl

/-- an old instruction is passed when it was, however much of the block is passed behind -/
theorem passed_shift_iff {p n k q : Nat} (hk : k ≤ n) {before : List Visit} :
    (∃ u ∈ before.flatMap (expand p n) ++ lead p k, u.position = shift p n q) ↔ ∃ u ∈ before, u.position = q := by
  have hlead : ∀ j ≤ n, ∀ u ∈ lead p j, u.position ≠ shift p n q := by
    rintro j hj u hu hp
    obtain ⟨i, hi, rfl⟩ := mem_lead.1 hu
    exact shift_ne_block (hi.trans_le hj) hp.symm
  simp only [List.mem_append, List.mem_flatMap, expand, List.mem_singleton]
  constructor
  · rintro ⟨u, ⟨w, hw, hu | rfl⟩ | hu, hp⟩
    · exact absurd hp (hlead n le_rfl u (mem_leadTo.1 hu).2)
    · exact ⟨w, hw, shift_inj hp⟩
    · exact absurd hp (hlead k hk u hu)
  · rintro ⟨u, hu, rfl⟩
    exact ⟨u.shift p n, Or.inl ⟨u, hu, Or.inr rfl⟩, rfl⟩

/-- where control comes to on its way to a visit: to the front of the block if it falls to the place -/
def arrival (p n : Nat) (v : Visit) : Visit := if v = ⟨p, true⟩ then v else v.shift p n

section

variable {b : Body} {p : Nat} {block : List Instruction} (hp : p < b.size)
  (hblock : ∀ i ∈ block, Stack.Straight i)
include hp hblock

/-- control goes through the block -/
theorem FlowPath.through {before : List Visit} (h : FlowPath (b.insertAt p block) before ⟨p, true⟩) {k : Nat}
    (hk : k ≤ block.length) : FlowPath (b.insertAt p block) (before ++ lead p k) ⟨p + k, true⟩ := by
  induction k with
  | zero => simpa [lead] using h
  | succ k ih =>
    have hat := Body.insertAt_instructionAt?_block hp.le (Nat.lt_of_succ_le hk)
    have hstraight := hblock _ (List.getElem_mem (Nat.lt_of_succ_le hk))
    rw [lead_succ, ← List.append_assoc]
    refine .step (ih (by omega)) (.next hat hstraight.not_terminal ?_)
    rw [Body.insertAt_size]
    show p + k + 1 < b.size + block.length
    omega

theorem FlowPath.arrive {before : List Visit} {v : Visit}
    (h : FlowPath (b.insertAt p block) before (arrival p block.length v)) :
    FlowPath (b.insertAt p block) (before ++ leadTo p block.length v) (v.shift p block.length) := by
  unfold arrival at h
  unfold leadTo
  split_ifs at h ⊢ with hv
  · subst hv
    have hthrough := h.through hp hblock le_rfl
    rwa [← shift_of_le (n := block.length) le_rfl] at hthrough
  · rwa [List.append_nil]

variable (hb : b.WellFormed)
include hb

omit hblock in
theorem Flows.arrive {v v' : Visit} (hf : Flows b v v') :
    Flows (b.insertAt p block) (v.shift p block.length) (arrival p block.length v') := by
  have hat : (b.insertAt p block).instructionAt? (v.shift p block.length).position = b.instructionAt? v.position :=
    Body.insertAt_instructionAt?_shift hp.le v.position
  cases hf with
  | jump hi ht hq =>
    rw [arrival, if_neg (by simp)]
    refine .jump (hat.trans hi) ht ?_
    rw [Body.insertAt_positionOf? hb.toCoherent hp.le (hb.targets _ (Body.mem_instructions hi) _ ht), hq]
    rfl
  | next hi hn hlt =>
    have hpos : (arrival p block.length ⟨v.position + 1, true⟩) =
        ⟨(v.shift p block.length).position + 1, true⟩ := by
      unfold arrival
      split_ifs with hv
      · have hv' : v.position + 1 = p := congrArg Visit.position hv
        simp only [Visit.shift, shift_pred hv', hv']
      · have hv' : v.position + 1 ≠ p := fun h => hv (by rw [h])
        simp only [Visit.shift, shift_succ hv']
    rw [hpos]
    refine .next (hat.trans hi) hn ?_
    rw [Body.insertAt_size]
    simp only [Visit.shift, Body.shift]
    split_ifs <;> omega

/-- a way through the old body is one through the new body -/
theorem FlowPath.insertAt {before : List Visit} {v : Visit} (h : FlowPath b before v) :
    FlowPath (b.insertAt p block) (before.flatMap (expand p block.length)) (arrival p block.length v) := by
  induction h with
  | start h =>
    have hstart : arrival p block.length ⟨0, true⟩ = ⟨0, true⟩ := by
      unfold arrival
      split_ifs with h0
      · rfl
      · have hpos : p ≠ 0 := fun hp0 => h0 (by rw [hp0])
        simp only [Visit.shift, shift_of_lt (Nat.pos_of_ne_zero hpos)]
    rw [hstart]
    exact .start (by rw [Body.insertAt_size]; omega)
  | step _ hf ih =>
    have hstep := FlowPath.step (ih.arrive hp hblock) (hf.arrive hp hb)
    rw [List.append_assoc] at hstep
    rw [List.flatMap_append, List.flatMap_singleton]
    exact hstep

/-- **Every way through the new body is one through the old body**, up to the old instruction or to the place of the
block that control is at. -/
theorem FlowPath.cases_insertAt (hpos : 0 < block.length) {before' : List Visit} {u : Visit}
    (h : FlowPath (b.insertAt p block) before' u) :
    (∃ before v, FlowPath b before v ∧ u = v.shift p block.length ∧
      before' = before.flatMap (expand p block.length) ++ leadTo p block.length v) ∨
    (∃ before k, FlowPath b before ⟨p, true⟩ ∧ k < block.length ∧ u = ⟨p + k, true⟩ ∧
      before' = before.flatMap (expand p block.length) ++ lead p k) := by
  induction h with
  | start =>
    rcases Nat.eq_zero_or_pos p with rfl | hp0
    · exact Or.inr ⟨[], 0, .start hp, hpos, rfl, rfl⟩
    · refine Or.inl ⟨[], ⟨0, true⟩, .start (hp0.trans hp), ?_, ?_⟩
      · simp only [Visit.shift, shift_of_lt hp0]
      · rw [leadTo, if_neg (by simp [hp0.ne])]
        rfl
  | step _ hf ih =>
    rcases ih with ⟨before, v, hpath, rfl, rfl⟩ | ⟨before, k, hpath, hk, rfl, rfl⟩
    · -- at an old instruction
      have hat : (b.insertAt p block).instructionAt? (v.shift p block.length).position = b.instructionAt? v.position :=
        Body.insertAt_instructionAt?_shift hp.le v.position
      have hbefore : before.flatMap (expand p block.length) ++ leadTo p block.length v ++
          [v.shift p block.length] = (before ++ [v]).flatMap (expand p block.length) := by
        rw [List.flatMap_append, List.flatMap_singleton, List.append_assoc]
        rfl
      rw [hbefore]
      cases hf with
      | jump hi ht hq =>
        replace hi := hat.symm.trans hi
        rw [Body.insertAt_positionOf? hb.toCoherent hp.le (hb.targets _ (Body.mem_instructions hi) _ ht)] at hq
        obtain ⟨q, hold, rfl⟩ := Option.map_eq_some_iff.1 hq
        refine Or.inl ⟨before ++ [v], ⟨q, false⟩, .step hpath (.jump hi ht hold), rfl, ?_⟩
        rw [leadTo, if_neg (by simp), List.append_nil]
      | next hi hn hlt =>
        replace hi := hat.symm.trans hi
        rw [Body.insertAt_size] at hlt
        by_cases hv : v.position + 1 = p
        · subst hv
          refine Or.inr ⟨before ++ [v], 0, .step hpath (.next hi hn hp), hpos, ?_, (List.append_nil _).symm⟩
          simp only [Visit.shift, shift_pred rfl, Nat.add_zero]
        · have hlt' : v.position + 1 < b.size := by
            simp only [Visit.shift, Body.shift] at hlt
            split_ifs at hlt <;> omega
          refine Or.inl ⟨before ++ [v], ⟨v.position + 1, true⟩, .step hpath (.next hi hn hlt'), ?_, ?_⟩
          · simp only [Visit.shift, shift_succ hv]
          · rw [leadTo, if_neg (by simp [hv]), List.append_nil]
    · -- in the block
      have hat := Body.insertAt_instructionAt?_block hp.le hk
      have hstraight := hblock _ (List.getElem_mem hk)
      rw [List.append_assoc, ← lead_succ]
      cases hf with
      | jump hi ht =>
        obtain rfl := Option.some_injective _ (hat.symm.trans hi)
        rw [hstraight.targets] at ht
        cases ht
      | next =>
        rcases Nat.lt_or_ge (k + 1) block.length with hk' | hk'
        · exact Or.inr ⟨before, k + 1, hpath, hk', rfl, rfl⟩
        · have hlast : k + 1 = block.length := by omega
          refine Or.inl ⟨before, ⟨p, true⟩, hpath, ?_, ?_⟩
          · simp only [Visit.shift, shift_of_le le_rfl, ← hlast, Nat.add_assoc]
          · rw [leadTo, if_pos rfl, hlast]

/-- **The ways to an old instruction.** -/
theorem flowPath_shift_iff (hpos : 0 < block.length) {before' : List Visit} {v : Visit} :
    FlowPath (b.insertAt p block) before' (v.shift p block.length) ↔
      ∃ before, FlowPath b before v ∧
        before' = before.flatMap (expand p block.length) ++ leadTo p block.length v := by
  constructor
  · intro h
    rcases h.cases_insertAt hp hblock hb hpos with ⟨before, v', hpath, hv, hbefore⟩ | ⟨before, k, -, hk, hv, -⟩
    · obtain rfl := Visit.shift_inj hv
      exact ⟨before, hpath, hbefore⟩
    · exact absurd (congrArg Visit.position hv) (shift_ne_block hk)
  · rintro ⟨before, hpath, rfl⟩
    exact (hpath.insertAt hp hblock hb).arrive hp hblock

/-- **The ways to the front of the block** are those that fall to its place. -/
theorem flowPath_front_iff (hpos : 0 < block.length) {before' : List Visit} {u : Visit} :
    FlowPath (b.insertAt p block) before' u ∧ u.position = p ↔
      u = ⟨p, true⟩ ∧ ∃ before, FlowPath b before ⟨p, true⟩ ∧ before' = before.flatMap (expand p block.length) := by
  constructor
  · rintro ⟨h, hu⟩
    rcases h.cases_insertAt hp hblock hb hpos with ⟨before, v, -, rfl, -⟩ | ⟨before, k, hpath, -, rfl, rfl⟩
    · exact absurd hu (shift_ne_block (k := 0) hpos)
    · obtain rfl : k = 0 := Nat.add_eq_left.1 hu
      exact ⟨rfl, before, hpath, List.append_nil _⟩
  · rintro ⟨rfl, before, hpath, rfl⟩
    have harrival : arrival p block.length ⟨p, true⟩ = ⟨p, true⟩ := if_pos rfl
    exact ⟨harrival ▸ hpath.insertAt hp hblock hb, rfl⟩

end

end CilGraft

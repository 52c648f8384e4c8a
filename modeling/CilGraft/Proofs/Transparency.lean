/-
A neutral block that is put in front of an instruction does not show in the stack analysis of the body.

- `Reaches.shift`: what is reached is reached afterwards, at its new position and with the same depth. Control that
  falls into the anchor now comes through the block; control that jumps to it still skips the block.
- `reaches_cases`: nothing else is reached, except the block itself, with the depth of the anchor below it.
- `FallsInto.front`: control gets to the block if it falls into the anchor.
- `disciplined_insertAt`: the body is disciplined afterwards if and only if it was before.
- `insertAt_report`: the report afterwards has the same depths for the old instructions, and its maximum takes in the
  peak of the block if control gets there (`Transparent`).
- `insertBefore_transparent`: both, for every block that runs on an empty stack and leaves it empty.
-/
import CilGraft.Proofs.Insertion
import CilGraft.Proofs.StraightLine
import CilGraft.Proofs.WalkExact

namespace CilGraft.Stack

/-- the depth before the instruction that a handle names; none if control does not reach it -/
def Report.depthOf (r : Report) (b : Body) (h : Handle) : Option Nat := (b.positionOf? h).bind r.depthAt?

open Body (shift shift_of_lt shift_of_le shift_inj shift_ne_block shift_succ shift_pred)

variable {c : Context} {b : Body} {p : Nat} {block : List Instruction} {levels : List Nat}

/-- control comes to a position from the one in front of it, and not by a jump -/
def FallsInto (c : Context) (b : Body) (p : Nat) : Prop :=
  ∃ q d i e, p = q + 1 ∧ Reaches c b ⟨q, d⟩ ∧ b.instructionAt? q = some i ∧ c.effect i = .ok e ∧
    i.flow.isTerminal = false

/-- the report `r'` of a body with a block in front of an anchor, next to the report `r` of the body without it: what
was issued before keeps its depth, and the maximum takes in the peak of the block, above the depth of the anchor, if
control gets to the first instruction of the block -/
structure Transparent (b : Body) (p : Nat) (block : List Instruction) (levels : List Nat) (anchor : Handle)
    (r r' : Report) : Prop where
  depths : ∀ t, b.Issued t → r'.depthOf (b.insertAt p block) t = r.depthOf b t
  grows : r.maxDepth ≤ r'.maxDepth
  bound : ∀ n, (∀ d, r.depthOf b anchor = some d → d + top levels ≤ n) → r'.maxDepth ≤ max r.maxDepth n
  entered : 0 < block.length → ∀ d, r'.depthOf (b.insertAt p block) ⟨b.number, b.size⟩ = some d →
    r.depthOf b anchor = some d ∧ r'.maxDepth = max r.maxDepth (d + top levels)

/-! ## In the block -/

/-- what the context says about an instruction of the block -/
theorem Neutral.at_instruction (h : Neutral c.resolve block levels) {k : Nat} (hk : k < block.length) :
    ∃ e l, c.effect block[k] = .ok e ∧ (0 :: levels)[k]? = some l ∧ e.pops.toNat ≤ l ∧
      (0 :: levels)[k + 1]? = some (e.after l) := by
  obtain ⟨e, l, he, hl, hpops, hnext⟩ := h.trace.at_instruction (List.getElem?_eq_getElem hk)
  rw [← (h.straight _ (List.getElem_mem hk)).effect] at he
  exact ⟨e, l, he, hl, hpops, hnext⟩

theorem Neutral.insertAt_wellFormed (hb : b.WellFormed) (h : Neutral c.resolve block levels) :
    (b.insertAt p block).WellFormed :=
  Stack.insertAt_wellFormed hb h.straight

/-- control that enters the block goes through it -/
theorem Reaches.through (hp : p < b.size) (h : Neutral c.resolve block levels) {d : Nat}
    (hr : Reaches c (b.insertAt p block) ⟨p, d⟩) {k l : Nat} (hk : k ≤ block.length) (hl : (0 :: levels)[k]? = some l) :
    Reaches c (b.insertAt p block) ⟨p + k, d + l⟩ := by
  induction k generalizing l with
  | zero =>
    cases hl
    exact hr
  | succ k ih =>
    obtain ⟨e, l', he, hl', hpops, hnext⟩ := h.at_instruction hk
    rw [hl] at hnext; cases hnext
    have hm := Moves.next (d := d + l') (Body.insertAt_instructionAt?_block hp.le hk) he
      (h.straight _ (List.getElem_mem hk)).not_terminal
    rw [StackEffect.after_add hpops] at hm
    exact .move (ih (by omega) hl') hm

/-- control that enters the block comes out at the anchor with the depth that it had -/
theorem Reaches.behind (hp : p < b.size) (h : Neutral c.resolve block levels) {d : Nat}
    (hr : Reaches c (b.insertAt p block) ⟨p, d⟩) :
    Reaches c (b.insertAt p block) ⟨shift p block.length p, d⟩ := by
  rw [shift_of_le le_rfl]
  exact hr.through hp h le_rfl h.closed

/-- a configuration of the longer code: an old one at its new position, or one in the block above a depth of the
anchor -/
def Inserted (c : Context) (b : Body) (p : Nat) (block : List Instruction) (levels : List Nat) (a : Arrival) : Prop :=
  (∃ q, a.position = Body.shift p block.length q ∧ Reaches c b ⟨q, a.depth⟩) ∨
    ∃ d k l, k < block.length ∧ Reaches c b ⟨p, d⟩ ∧ (0 :: levels)[k]? = some l ∧ a = ⟨p + k, d + l⟩

/-- in front of the anchor is the block, or the anchor itself if there is nothing in the block -/
theorem inserted_front {d : Nat} (hr : Reaches c b ⟨p, d⟩) : Inserted c b p block levels ⟨p, d⟩ := by
  rcases Nat.eq_zero_or_pos block.length with hzero | hpos
  · exact Or.inl ⟨p, by rw [shift_of_le le_rfl, hzero]; rfl, hr⟩
  · exact Or.inr ⟨d, 0, 0, hpos, hr, rfl, rfl⟩

/-- control that enters the block reaches all depths of its trace -/
theorem Reaches.levels_mem (hp : p < b.size) (h : Neutral c.resolve block levels) {d : Nat}
    (hr : Reaches c (b.insertAt p block) ⟨p, d⟩) : ∀ l ∈ levels, d + l ∈ reachedDepths c (b.insertAt p block) := by
  intro l hl
  obtain ⟨k, hk⟩ := List.getElem?_of_mem hl
  have hlt : k < block.length := by
    rw [← h.trace.length_eq]
    exact (List.getElem?_eq_some_iff.1 hk).1
  exact ⟨_, hr.through hp h (k := k + 1) hlt (by simpa using hk), Or.inl rfl⟩

/-- an old instruction is as admissible afterwards as it was -/
theorem admissible_shift_iff (hb : b.WellFormed) (hp : p < b.size) {q d : Nat} :
    Admissible c (b.insertAt p block) ⟨Body.shift p block.length q, d⟩ ↔ Admissible c b ⟨q, d⟩ := by
  have hlast : Body.shift p block.length q + 1 < b.size + block.length ↔ q + 1 < b.size := by
    simp only [Body.shift]
    split_ifs <;> omega
  have htargets : ∀ i, b.instructionAt? q = some i →
      ((∀ t ∈ i.targets, (b.insertAt p block).contains t = true) ↔ ∀ t ∈ i.targets, b.contains t = true) := by
    intro i hi
    refine forall₂_congr fun t ht => ⟨fun hc => ?_, fun hc => Body.contains_insertAt hc p block⟩
    have hn := ((Body.contains_iff _ t).1 hc).1
    exact (b.contains_iff t).2 ⟨hn, hb.targets i (Body.mem_instructions hi) t ht hn⟩
  simp only [Admissible, Body.insertAt_instructionAt?_shift hp.le, Body.insertAt_size, hlast]
  constructor
  · rintro ⟨i, e, hi, he, hpops, hret, ht, hnext⟩
    exact ⟨i, e, hi, he, hpops, hret, (htargets i hi).1 ht, hnext⟩
  · rintro ⟨i, e, hi, he, hpops, hret, ht, hnext⟩
    exact ⟨i, e, hi, he, hpops, hret, (htargets i hi).2 ht, hnext⟩

/-- the block is admissible above any stack -/
theorem admissible_block (hp : p < b.size) (h : Neutral c.resolve block levels) {d k l : Nat} (hk : k < block.length)
    (hl : (0 :: levels)[k]? = some l) : Admissible c (b.insertAt p block) ⟨p + k, d + l⟩ := by
  obtain ⟨e, l', he, hl', hpops, -⟩ := h.at_instruction hk
  rw [hl] at hl'; cases hl'
  have hstraight := h.straight _ (List.getElem_mem hk)
  refine ⟨block[k], e, Body.insertAt_instructionAt?_block hp.le hk, he, hpops.trans (Nat.le_add_left l d),
    fun hret => absurd hret hstraight.not_ret, fun t ht => ?_, fun _ => ?_⟩
  · rw [hstraight.targets] at ht; cases ht
  · rw [Body.insertAt_size]
    change p + k + 1 < _
    omega

section

variable (hb : b.WellFormed) (hp : p < b.size) (h : Neutral c.resolve block levels)
include hb hp h

omit h in
/-- a target that the body has is where it was, and it has no others -/
theorem insertAt_positionOf?_eq_some {t : Handle} (ht : b.Issued t) {r : Nat} :
    (b.insertAt p block).positionOf? t = some r ↔ ∃ q, b.positionOf? t = some q ∧ r = shift p block.length q := by
  rw [Body.insertAt_positionOf? hb.toCoherent hp.le ht]
  simp [eq_comm]

/-! ## Control that was there goes on being there -/

omit h in
/-- an entry moves with its instruction; the start of the code is the block if it was put there -/
theorem Entry.shift {q d : Nat} (he : Entry b ⟨q, d⟩) :
    Entry (b.insertAt p block) ⟨shift p block.length q, d⟩ ∨ (p = 0 ∧ q = 0 ∧ d = 0) := by
  cases he with
  | start hpos =>
    rcases Nat.eq_zero_or_pos p with hzero | hp0
    · exact Or.inr ⟨hzero, rfl, rfl⟩
    · rw [shift_of_lt hp0]
      exact Or.inl (.start (by rw [Body.insertAt_size]; omega))
  | handler hc hq =>
    have hi := Body.Issued.of_contains (starts_of_wellFormed hb _ hc).1
    exact Or.inl (.handler hc ((insertAt_positionOf?_eq_some hb hp hi).2 ⟨q, hq, rfl⟩))
  | filter hc hf hq =>
    have hi := Body.Issued.of_contains ((starts_of_wellFormed hb _ hc).2 _ hf)
    exact Or.inl (.filter hc hf ((insertAt_positionOf?_eq_some hb hp hi).2 ⟨q, hq, rfl⟩))

omit h in
/-- a move goes between the new positions, unless it falls into the anchor: then it goes to the block -/
theorem Moves.shift {q d q' d' : Nat} (hm : Moves c b ⟨q, d⟩ ⟨q', d'⟩) :
    Moves c (b.insertAt p block) ⟨shift p block.length q, d⟩ ⟨shift p block.length q', d'⟩ ∨
      (q' = p ∧ Moves c (b.insertAt p block) ⟨shift p block.length q, d⟩ ⟨p, d'⟩) := by
  cases hm with
  | jump hi he ht hq =>
    have hissued := hb.targets _ (Body.mem_instructions hi) _ ht
    exact Or.inl (.jump ((Body.insertAt_instructionAt?_shift hp.le q).trans hi) he ht
      ((insertAt_positionOf?_eq_some hb hp hissued).2 ⟨q', hq, rfl⟩))
  | next hi he hn =>
    have hnext := Moves.next (d := d) ((@Body.insertAt_instructionAt?_shift b p block hp.le q).trans hi) he hn
    by_cases hq : q + 1 = p
    · rw [shift_pred hq] at hnext
      exact Or.inr ⟨hq, hnext⟩
    · rw [shift_succ hq] at hnext
      exact Or.inl hnext

/-- **What is reached is reached afterwards**, with the same depth. -/
theorem Reaches.shift {q d : Nat} (hr : Reaches c b ⟨q, d⟩) :
    Reaches c (b.insertAt p block) ⟨shift p block.length q, d⟩ := by
  -- a configuration is a variable in the induction, so that its position and depth may change
  suffices hall : ∀ a, Reaches c b a →
      Reaches c (b.insertAt p block) ⟨Body.shift p block.length a.position, a.depth⟩ from hall _ hr
  intro a ha
  induction ha with
  | @entry a he =>
    rcases he.shift hb hp with he' | ⟨h0, hq, hd⟩
    · exact .entry he'
    · have hstart : Reaches c (b.insertAt p block) ⟨p, 0⟩ := by
        rw [h0]
        exact .entry (.start (by rw [Body.insertAt_size]; omega))
      have hout := hstart.behind hp h
      rw [hq, hd]
      rw [h0] at hout ⊢
      exact hout
  | @move a a' _ hm ih =>
    rcases hm.shift hb hp with hm' | ⟨hq, hm'⟩
    · exact .move ih hm'
    · rw [hq]
      exact (Reaches.move ih hm').behind hp h

/-- control that falls into the anchor comes into the block -/
theorem FallsInto.front (hf : FallsInto c b p) : ∃ d, Reaches c (b.insertAt p block) ⟨p, d⟩ := by
  obtain ⟨q, d, i, e, hq, hr, hi, he, hn⟩ := hf
  have hnext := Moves.next (d := d) ((@Body.insertAt_instructionAt?_shift b p block hp.le q).trans hi) he hn
  rw [shift_pred hq.symm] at hnext
  exact ⟨e.after d, .move (hr.shift hb hp h) hnext⟩

/-- control goes on falling into an instruction, and into the anchor from the end of the block -/
theorem FallsInto.insertAt (hpos : 0 < block.length) {r : Nat} (hf : FallsInto c b r) :
    FallsInto c (b.insertAt p block) (Body.shift p block.length r) := by
  by_cases hrp : r = p
  · subst hrp
    obtain ⟨d, hd⟩ := hf.front hb hp h
    have hlast : block.length - 1 < block.length := by omega
    obtain ⟨e, l, he, hl, -, -⟩ := h.at_instruction hlast
    refine ⟨r + (block.length - 1), d + l, block[block.length - 1], e, ?_, hd.through hp h hlast.le hl,
      Body.insertAt_instructionAt?_block hp.le hlast, he, (h.straight _ (List.getElem_mem hlast)).not_terminal⟩
    rw [shift_of_le le_rfl]
    omega
  · obtain ⟨q, d, i, e, rfl, hr, hi, he, hn⟩ := hf
    exact ⟨Body.shift p block.length q, d, i, e, (shift_succ hrp).symm, hr.shift hb hp h,
      (Body.insertAt_instructionAt?_shift hp.le q).trans hi, he, hn⟩

/-! ## Nothing else is reached -/

omit h in
/-- where an entry of the longer code comes from -/
theorem Entry.cases_insertAt {a : Arrival} (he : Entry (b.insertAt p block) a) :
    (∃ q, a.position = Body.shift p block.length q ∧ Entry b ⟨q, a.depth⟩) ∨ (p = 0 ∧ a = ⟨0, 0⟩) := by
  cases he with
  | start hpos =>
    rcases Nat.eq_zero_or_pos p with hzero | hp0
    · exact Or.inr ⟨hzero, rfl⟩
    · exact Or.inl ⟨0, (shift_of_lt hp0).symm, .start (by omega)⟩
  | handler hc hq =>
    have hi := Body.Issued.of_contains (starts_of_wellFormed hb _ hc).1
    obtain ⟨q, hold, rfl⟩ := (insertAt_positionOf?_eq_some hb hp hi).1 hq
    exact Or.inl ⟨q, rfl, .handler hc hold⟩
  | filter hc hf hq =>
    have hi := Body.Issued.of_contains ((starts_of_wellFormed hb _ hc).2 _ hf)
    obtain ⟨q, hold, rfl⟩ := (insertAt_positionOf?_eq_some hb hp hi).1 hq
    exact Or.inl ⟨q, rfl, .filter hc hf hold⟩

omit h in
/-- where a move from an old instruction goes: where it went before, or to the block in front of that -/
theorem Moves.cases_insertAt {q d : Nat} {a : Arrival}
    (hm : Moves c (b.insertAt p block) ⟨Body.shift p block.length q, d⟩ a) :
    ∃ q', Moves c b ⟨q, d⟩ ⟨q', a.depth⟩ ∧
      (a.position = Body.shift p block.length q' ∨ (q' = p ∧ a.position = p)) := by
  cases hm with
  | jump hi he ht hr =>
    rw [Body.insertAt_instructionAt?_shift hp.le] at hi
    have hissued := hb.targets _ (Body.mem_instructions hi) _ ht
    obtain ⟨q', hq', rfl⟩ := (insertAt_positionOf?_eq_some hb hp hissued).1 hr
    exact ⟨q', .jump hi he ht hq', Or.inl rfl⟩
  | next hi he hn =>
    rw [Body.insertAt_instructionAt?_shift hp.le] at hi
    refine ⟨q + 1, .next hi he hn, ?_⟩
    by_cases hq : q + 1 = p
    · exact Or.inr ⟨hq, shift_pred hq⟩
    · exact Or.inl (shift_succ hq)

/-- **Nothing else is reached** but the block. -/
theorem reaches_cases {a : Arrival} (hr : Reaches c (b.insertAt p block) a) : Inserted c b p block levels a := by
  induction hr with
  | @entry a he =>
    rcases he.cases_insertAt hb hp with ⟨q, hq, he'⟩ | ⟨h0, ha⟩
    · exact Or.inl ⟨q, hq, .entry he'⟩
    · have hstart : Reaches c b ⟨p, 0⟩ := by
        rw [h0]
        exact .entry (.start (by omega))
      have hfront : Inserted c b p block levels ⟨p, 0⟩ := inserted_front hstart
      rw [ha]
      rw [h0] at hfront ⊢
      exact hfront
  | @move a a' _ hm ih =>
    rcases ih with ⟨q, hq, hr⟩ | ⟨d, k, l, hk, hr, hl, ha⟩
    · obtain ⟨position, depth⟩ := a
      simp only at hq
      subst hq
      obtain ⟨q', hm', hq' | ⟨hq', hp'⟩⟩ := hm.cases_insertAt hb hp
      · exact Or.inl ⟨q', hq', .move hr hm'⟩
      · obtain ⟨position', depth'⟩ := a'
        simp only at hp'
        subst hp' hq'
        exact inserted_front (.move hr hm')
    · -- from an instruction of the block control goes to the next one, and from the last to the anchor
      subst ha
      obtain ⟨e, l', he, hl', hpops, hnext⟩ := h.at_instruction hk
      rw [hl] at hl'; cases hl'
      have hi := @Body.insertAt_instructionAt?_block b p block hp.le k hk
      cases hm with
      | jump hi' _ ht _ =>
        rw [hi] at hi'; cases hi'
        rw [h.no_targets _ (List.getElem_mem hk)] at ht
        cases ht
      | next hi' he' _ =>
        rw [hi] at hi'; cases hi'
        rw [he] at he'; cases he'
        rw [StackEffect.after_add hpops, Nat.add_assoc]
        rcases Nat.lt_or_ge (k + 1) block.length with hlt | hge
        · exact Or.inr ⟨d, k + 1, e.after l, hlt, hr, hnext, rfl⟩
        · have hend : k + 1 = block.length := by omega
          rw [hend, h.closed, Option.some.injEq] at hnext
          rw [← hnext]
          exact Or.inl ⟨p, by rw [shift_of_le le_rfl, ← hend], hr⟩

theorem reaches_shift_iff {q d : Nat} :
    Reaches c (b.insertAt p block) ⟨Body.shift p block.length q, d⟩ ↔ Reaches c b ⟨q, d⟩ := by
  constructor
  · intro hr
    rcases reaches_cases hb hp h hr with ⟨q', hq', hr'⟩ | ⟨_, k, _, hk, -, -, ha⟩
    · rw [shift_inj hq']
      exact hr'
    · exact absurd (congrArg Arrival.position ha) (shift_ne_block hk)
  · exact fun hr => hr.shift hb hp h

/-- control that is in the block has come from its front, with the depth of the anchor -/
theorem reaches_front {d : Nat} (hpos : 0 < block.length) (hr : Reaches c (b.insertAt p block) ⟨p, d⟩) :
    Reaches c b ⟨p, d⟩ := by
  rcases reaches_cases hb hp h hr with ⟨q, hq, -⟩ | ⟨d', k, l, hk, hr', hl, ha⟩
  · exact absurd hq.symm (shift_ne_block (k := 0) hpos)
  · simp only [Arrival.mk.injEq] at ha
    obtain rfl : k = 0 := by omega
    cases hl
    rw [ha.2]
    exact hr'

/-! ## The discipline -/

/-- **The body is disciplined afterwards if and only if it was before.** -/
theorem disciplined_insertAt : Disciplined c (b.insertAt p block) ↔ Disciplined c b := by
  constructor
  · intro hd
    refine ⟨starts_of_wellFormed hb, fun ⟨q, d⟩ ⟨q', d'⟩ ha ha' hq => ?_, fun ⟨q, d⟩ ha => ?_⟩
    · simp only at hq
      subst hq
      have hsame := hd.consistent _ _ (ha.shift hb hp h) (ha'.shift hb hp h) rfl
      exact hsame
    · exact (admissible_shift_iff hb hp).1 (hd.admissible _ (ha.shift hb hp h))
  · intro hd
    refine ⟨starts_of_wellFormed (h.insertAt_wellFormed hb), fun ⟨r, d⟩ ⟨r', d'⟩ ha ha' hr => ?_, fun ⟨r, d⟩ ha => ?_⟩
    · simp only at hr ⊢
      subst hr
      rcases reaches_cases hb hp h ha with ⟨q, hq, hold⟩ | ⟨d₁, k, l, hk, hold, hl, heq⟩
      · simp only at hq
        subst hq
        exact hd.consistent _ _ hold ((reaches_shift_iff hb hp h).1 ha') rfl
      · rcases reaches_cases hb hp h ha' with ⟨q, hq, -⟩ | ⟨d₂, k', l', -, hold', hl', heq'⟩
        · exact absurd (hq.symm.trans (Arrival.mk.injEq .. ▸ heq).1) (shift_ne_block hk)
        · simp only [Arrival.mk.injEq] at heq heq'
          obtain rfl : k = k' := by omega
          have hd₁ : d₁ = d₂ := hd.consistent _ _ hold hold' rfl
          rw [hl] at hl'; cases hl'
          rw [heq.2, heq'.2, hd₁]
    · rcases reaches_cases hb hp h ha with ⟨q, hq, hold⟩ | ⟨d₁, k, l, hk, -, hl, heq⟩
      · simp only at hq
        subst hq
        exact (admissible_shift_iff hb hp).2 (hd.admissible _ hold)
      · rw [heq]
        exact admissible_block hp h hk hl

/-! ## Depths -/

theorem reachedDepths_insertAt_le : reachedDepths c b ⊆ reachedDepths c (b.insertAt p block) := by
  rintro n ⟨⟨q, d⟩, ha, hn⟩
  refine ⟨_, ha.shift hb hp h, ?_⟩
  rcases hn with hn | ⟨i, e, hi, he, hn⟩
  · exact Or.inl hn
  · exact Or.inr ⟨i, e, (Body.insertAt_instructionAt?_shift hp.le q).trans hi, he, hn⟩

/-- a depth that occurs afterwards occurred before, or it occurs in the block, above the anchor -/
theorem reachedDepths_cases {n : Nat} (hn : n ∈ reachedDepths c (b.insertAt p block)) :
    n ∈ reachedDepths c b ∨ ∃ d, Reaches c b ⟨p, d⟩ ∧ n ≤ d + top levels := by
  obtain ⟨⟨r, d⟩, ha, hn⟩ := hn
  rcases reaches_cases hb hp h ha with ⟨q, hq, hold⟩ | ⟨d₁, k, l, hk, hold, hl, heq⟩
  · simp only at hq
    subst hq
    refine Or.inl ⟨_, hold, ?_⟩
    rcases hn with hn | ⟨i, e, hi, he, hn⟩
    · exact Or.inl hn
    · exact Or.inr ⟨i, e, (Body.insertAt_instructionAt?_shift hp.le q).symm.trans hi, he, hn⟩
  · have hle : ∀ {j m : Nat}, (0 :: levels)[j]? = some m → m ≤ top levels := by
      intro j m hm
      rcases List.mem_cons.1 (List.mem_of_getElem? hm) with rfl | hm
      · exact Nat.zero_le _
      · exact le_top hm
    obtain ⟨e', l', he', hl', hpops, hnext⟩ := h.at_instruction hk
    rw [hl] at hl'; cases hl'
    refine Or.inr ⟨d₁, hold, ?_⟩
    rw [heq] at hn
    rcases hn with hn | ⟨i, e, hi, he, hn⟩
    · rw [hn]
      exact Nat.add_le_add_left (hle hl) d₁
    · have hi' := (@Body.insertAt_instructionAt?_block b p block hp.le k hk).symm.trans hi
      cases hi'
      rw [he'] at he; cases he
      rw [hn, StackEffect.after_add hpops]
      exact Nat.add_le_add_left (hle hnext) d₁

/-! ## The report -/

omit hp h in
/-- whether control falls into a position can be read off a report -/
theorem fallsInto_iff {r : Report} (hr : analyze c b = .ok r) : FallsInto c b p ↔
    ∃ q i, p = q + 1 ∧ (r.depthAt? q).isSome = true ∧ b.instructionAt? q = some i ∧ i.flow.isTerminal = false := by
  obtain ⟨hd, hdepths, -⟩ := analyze_ok hb hr
  constructor
  · rintro ⟨q, d, i, e, hq, hreach, hi, -, hn⟩
    exact ⟨q, i, hq, Option.isSome_iff_exists.2 ⟨d, (hdepths q d).2 hreach⟩, hi, hn⟩
  · rintro ⟨q, i, hq, hsome, hi, hn⟩
    obtain ⟨d, hdepth⟩ := Option.isSome_iff_exists.1 hsome
    have hreach := (hdepths q d).1 hdepth
    obtain ⟨i', e, hi', he, -⟩ := hd.admissible _ hreach
    rw [hi] at hi'; cases hi'
    exact ⟨q, d, i, e, hq, hreach, hi, he, hn⟩

/-- **A neutral block does not show in the analysis.** A body that was accepted is accepted afterwards, with a report
that differs at most in the maximum. -/
theorem insertAt_report {anchor : Handle} (hanchor : b.positionOf? anchor = some p) {r : Report}
    (hr : analyze c b = .ok r) :
    ∃ r', analyze c (b.insertAt p block) = .ok r' ∧ Transparent b p block levels anchor r r' := by
  have hb' : (b.insertAt p block).WellFormed := h.insertAt_wellFormed hb
  obtain ⟨hd, hdepths, hmax⟩ := analyze_ok hb hr
  obtain ⟨r', hr'⟩ := (analyze_isOk_iff hb').2 ((disciplined_insertAt hb hp h).2 hd)
  obtain ⟨-, hdepths', hmax'⟩ := analyze_ok hb' hr'
  have hat : r.depthOf b anchor = r.depthAt? p := by rw [Report.depthOf, hanchor, Option.bind_some]
  have hle : r.maxDepth ≤ r'.maxDepth := by
    refine hmax.2 fun n hn => hmax'.1 ?_
    exact reachedDepths_insertAt_le hb hp h hn
  have hbound : ∀ n, (∀ d, r.depthOf b anchor = some d → d + top levels ≤ n) → r'.maxDepth ≤ max r.maxDepth n := by
    intro n hn
    refine hmax'.2 fun k hk => ?_
    rcases reachedDepths_cases hb hp h hk with hold | ⟨d, hreach, hk⟩
    · exact (hmax.1 hold).trans (le_max_left _ _)
    · exact (hk.trans (hn d (hat ▸ (hdepths p d).2 hreach))).trans (le_max_right _ _)
  refine ⟨r', hr', ⟨fun t ht => ?_, hle, hbound, fun hpos d hfront => ?_⟩⟩
  · rw [Report.depthOf, Report.depthOf, Body.insertAt_positionOf? hb.toCoherent hp.le ht]
    cases b.positionOf? t with
    | none => rfl
    | some q =>
      refine Option.ext fun d => ?_
      rw [Option.map_some, Option.bind_some, Option.bind_some, hdepths', hdepths, reaches_shift_iff hb hp h]
  · have hposition : (b.insertAt p block).positionOf? ⟨b.number, b.size⟩ = some p :=
      Body.insertAt_positionOf?_fresh (k := 0) hb.toCoherent hp.le hpos
    rw [Report.depthOf, hposition, Option.bind_some] at hfront
    have hreach' := (hdepths' p d).1 hfront
    have hold := hat.trans ((hdepths p d).2 (reaches_front hb hp h hpos hreach'))
    refine ⟨hold, le_antisymm (hbound _ fun d' hd' => ?_) (max_le hle ?_)⟩
    · rw [hold] at hd'; cases hd'
      exact le_rfl
    · -- the depth at the front itself bounds the case that nothing is put on the stack
      have hbase : d ≤ r'.maxDepth := hmax'.1 ⟨_, hreach', Or.inl rfl⟩
      have htop : top levels ≤ r'.maxDepth - d := top_le fun l hl => by
        have hl' := hmax'.1 (hreach'.levels_mem hp h l hl)
        omega
      omega

end

/-- **Putting in a neutral block is transparent to the analysis.** For every resolver and signature, every body that can
be built, every anchor in it and every block of straight-line code that runs on an empty stack and leaves it empty: the
analysis accepts the body afterwards if and only if it did before. Then it tells the same depths of the instructions
that were there; the maximum takes in the peak of the block above the depth of the anchor at most, and exactly if
control comes to the first instruction of the block. -/
theorem insertBefore_transparent (resolve : Resolver) (signature : MethodSig) (b : Body) (hb : b.Reachable)
    (anchor : Handle) (ha : b.contains anchor = true) (block : List Instruction) (hstraight : ∀ i ∈ block, Straight i)
    (m : Nat) (hpeak : peak resolve block 0 = .ok m) (hbehind : depthBehind resolve 0 block = .ok 0) :
    let c := Context.ofSignature resolve signature
    ∃ b' new, b.insertBefore anchor block = .ok (b', new) ∧
      ((∃ r, analyze c b = .ok r) ↔ ∃ r', analyze c b' = .ok r') ∧
      ∀ r r', analyze c b = .ok r → analyze c b' = .ok r' →
        (∀ t, b.contains t = true → r'.depthOf b' t = r.depthOf b t) ∧
        (∀ d, r.depthOf b anchor = some d → r'.maxDepth ≤ max r.maxDepth (d + m)) ∧
        (r.depthOf b anchor = none → r'.maxDepth = r.maxDepth) ∧
        ∀ first ∈ new.head?, ∀ d, r'.depthOf b' first = some d →
          r.depthOf b anchor = some d ∧ r'.maxDepth = max r.maxDepth (d + m) := by
  intro c
  have hwf := hb.wellFormed
  obtain ⟨levels, hneutral, rfl⟩ := neutral_of_peak hstraight hpeak hbehind
  obtain ⟨p, hanchor⟩ := Option.isSome_iff_exists.1 (hwf.positionOf?_isSome.2 ha)
  have hp : p < b.size := hwf.lt_size_of_positionOf? hanchor
  have hinsert : b.insertBefore anchor block = .ok (b.insertAt p block, b.fresh block.length) := by
    simp only [Body.insertBefore, hanchor]
  refine ⟨_, _, hinsert, ?_, fun r r' hr hr' => ?_⟩
  · rw [analyze_isOk_iff hwf, analyze_isOk_iff (insertAt_wellFormed hwf hstraight)]
    exact (disciplined_insertAt (c := c) hwf hp hneutral).symm
  · obtain ⟨r₁, hr₁, htransparent⟩ := insertAt_report (c := c) hwf hp hneutral hanchor hr
    cases hr'.symm.trans hr₁
    refine ⟨fun t ht => htransparent.depths t (.of_contains ht), fun d hd => ?_, fun hnone => ?_,
      fun first hfirst d hd => ?_⟩
    · refine htransparent.bound _ fun d' hd' => ?_
      cases hd.symm.trans hd'
      exact le_rfl
    · -- an anchor that is not reached bounds nothing
      have hbound := htransparent.bound 0 fun d hd => by
        rw [hnone] at hd
        cases hd
      rw [Nat.max_zero] at hbound
      exact le_antisymm hbound htransparent.grows
    · rcases Nat.eq_zero_or_pos block.length with hzero | hpos
      · rw [hzero] at hfirst
        cases hfirst
      · obtain ⟨n, hn⟩ := Nat.exists_eq_succ_of_ne_zero hpos.ne'
        rw [hn, Body.fresh, List.range_succ_eq_map] at hfirst
        cases hfirst
        exact htransparent.entered hpos d hd

/-- A block is put in front of the loop that a body starts with. Control falls into it at the start and jumps past it
when it goes back. -/
theorem insertBefore_transparent_guardedLoop :
    let c := Context.ofSignature (fun _ => none) (.static .void [])
    let block : List Instruction :=
      [{ opcode := .ldcI40 }, { opcode := .dup }, { opcode := .pop }, { opcode := .pop }]
    peak (fun _ => none) block 0 = .ok 2 ∧ depthBehind (fun _ => none) 0 block = .ok 0 ∧
      ∃ b' r', guardedLoop.insertBefore ⟨1, 1⟩ block = .ok (b', [⟨1, 5⟩, ⟨1, 6⟩, ⟨1, 7⟩, ⟨1, 8⟩]) ∧
        analyze c b' = .ok r' ∧ r'.depthOf b' ⟨1, 4⟩ = some 1 ∧ r'.maxDepth = 2 := by
  intro c block
  have hstraight : ∀ i ∈ block, Straight i := by
    simp only [block, List.mem_cons, List.not_mem_nil, or_false, forall_eq_or_imp, forall_eq]
    exact ⟨⟨Or.inl rfl, rfl⟩, ⟨Or.inl rfl, rfl⟩, ⟨Or.inl rfl, rfl⟩, ⟨Or.inl rfl, rfl⟩⟩
  obtain ⟨b', new, hinsert, hiff, hreports⟩ := insertBefore_transparent (fun _ => none) (.static .void []) guardedLoop
    guardedLoop_reachable ⟨1, 1⟩ (by decide) block hstraight 2 rfl rfl
  have hcode : guardedLoop.insertBefore ⟨1, 1⟩ block =
      .ok (guardedLoop.insertAt 0 block, [⟨1, 5⟩, ⟨1, 6⟩, ⟨1, 7⟩, ⟨1, 8⟩]) := by cbv
  cases hcode.symm.trans hinsert
  obtain ⟨r', hr'⟩ := hiff.1 ⟨_, analyze_guardedLoop _⟩
  obtain ⟨hdepths, -, -, hfirst⟩ := hreports _ r' (analyze_guardedLoop _) hr'
  -- the block is where the code starts now
  have hwf : (guardedLoop.insertAt 0 block).WellFormed := insertAt_wellFormed guardedLoop_reachable.wellFormed hstraight
  have hstart : r'.depthOf (guardedLoop.insertAt 0 block) ⟨1, 5⟩ = some 0 := by
    have hposition : (guardedLoop.insertAt 0 block).positionOf? ⟨1, 5⟩ = some 0 := by cbv
    rw [Report.depthOf, hposition]
    exact ((analyze_ok hwf hr').2.1 0 0).2 (.entry (.start (by decide)))
  have hhandler : r'.depthOf (guardedLoop.insertAt 0 block) ⟨1, 4⟩ = some 1 :=
    (hdepths ⟨1, 4⟩ (by decide)).trans (by cbv)
  exact ⟨rfl, rfl, _, r', hcode, hr', hhandler, (hfirst ⟨1, 5⟩ rfl 0 hstart).2⟩

end CilGraft.Stack

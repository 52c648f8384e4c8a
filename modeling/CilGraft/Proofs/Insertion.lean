/-
Where things are after a block was put in front of a position.

- `shift p n`: the position that an old instruction has afterwards. The instructions from `p` on move by the length `n`
  of the block, the ones before stay.
- `insertAt_handleAt?_shift`, `insertAt_instructionAt?_shift`: at that position stands the same instruction with the
  same handle; `insertAt_handleAt?_block`, `insertAt_instructionAt?_block`: at the positions from `p` on stands the
  block, with fresh handles.
- `insertAt_code_flatMap`: the new code as the old code with the block in front of its anchor.
- `mem_fresh`, `contains_insertAt_iff`: the fresh handles, and that they are what the body gets.
- `insertAt_positionOf?`, `insertAt_get?`: what a handle that was issued before named, it goes on naming.
-/
import CilGraft.Proofs.BodyInvariant

namespace CilGraft.Body

/-! ## Positions -/

/-- the position that the instruction at `q` has after `n` instructions were put in front of position `p` -/
def shift (p n q : Nat) : Nat := if q < p then q else q + n

theorem shift_of_lt {p n q : Nat} (h : q < p) : shift p n q = q := if_pos h

theorem shift_of_le {p n q : Nat} (h : p ≤ q) : shift p n q = q + n := if_neg (by omega)

theorem shift_inj {p n q q' : Nat} (h : shift p n q = shift p n q') : q = q' := by
  simp only [shift] at h
  split_ifs at h <;> omega

/-- no old instruction is where the block is -/
theorem shift_ne_block {p n q k : Nat} (hk : k < n) : shift p n q ≠ p + k := by
  simp only [shift]
  split_ifs <;> omega

/-- old instructions keep their order -/
theorem shift_le_shift {p n q q' : Nat} : shift p n q ≤ shift p n q' ↔ q ≤ q' := by
  simp only [shift]
  split_ifs <;> omega

theorem shift_lt_shift {p n q q' : Nat} : shift p n q < shift p n q' ↔ q < q' := by
  simp only [shift]
  split_ifs <;> omega

/-- the block comes behind what was before the anchor, and before all else -/
theorem shift_le_block {p n q k : Nat} (hk : k < n) : shift p n q ≤ p + k ↔ q < p := by
  simp only [shift]
  split_ifs <;> omega

theorem block_lt_shift {p n q k : Nat} (hk : k < n) : p + k < shift p n q ↔ p ≤ q := by
  simp only [shift]
  split_ifs <;> omega

/-- at any position is an old instruction or one of the block -/
theorem shift_or_block (p n q' : Nat) : (∃ q, q' = shift p n q) ∨ ∃ k < n, q' = p + k := by
  rcases Nat.lt_or_ge q' p with hlt | hge
  · exact Or.inl ⟨q', (shift_of_lt hlt).symm⟩
  · rcases Nat.lt_or_ge (q' - p) n with hin | hout
    · exact Or.inr ⟨q' - p, hin, by omega⟩
    · exact Or.inl ⟨q' - n, by rw [shift_of_le (by omega)]; omega⟩

/-- the position behind an old instruction is that of the next old one, unless the block is in between -/
theorem shift_succ {p n q : Nat} (h : q + 1 ≠ p) : shift p n q + 1 = shift p n (q + 1) := by
  simp only [shift]
  split_ifs <;> omega

theorem shift_pred {p n q : Nat} (h : q + 1 = p) : shift p n q + 1 = p := by
  rw [shift_of_lt (by omega)]; exact h

/-! ## Code -/

variable {b : Body} {p : Nat} {block : List Instruction}

theorem insertAt_code_shift (hp : p ≤ b.size) (q : Nat) :
    (b.insertAt p block).code[shift p block.length q]? = b.code[q]? := by
  have hlen : b.code.toList.length = b.size := rfl
  rw [← Array.getElem?_toList, ← Array.getElem?_toList, insertAt_code, List.append_assoc]
  by_cases h : q < p
  · rw [shift_of_lt h, List.getElem?_append_left (by rw [List.length_take]; omega), List.getElem?_take_of_lt h]
  · rw [shift_of_le (by omega), List.getElem?_append_right (by rw [List.length_take]; omega),
      List.getElem?_append_right (by rw [List.length_take, issue_length]; omega), List.getElem?_drop,
      List.length_take, issue_length]
    congr 1
    omega

theorem insertAt_code_block (hp : p ≤ b.size) {k : Nat} (hk : k < block.length) :
    (b.insertAt p block).code[p + k]? = some ⟨b.size + k, block[k]⟩ := by
  have hlen : b.code.toList.length = b.size := rfl
  rw [← Array.getElem?_toList, insertAt_code, List.append_assoc,
    List.getElem?_append_right (by rw [List.length_take]; omega),
    List.getElem?_append_left (by rw [List.length_take, issue_length]; omega), List.length_take]
  have hidx : p + k - min p b.code.toList.length = k := by omega
  rw [hidx]
  simp [issue, size, List.getElem?_eq_getElem hk]

theorem insertAt_handleAt?_shift (hp : p ≤ b.size) (q : Nat) :
    (b.insertAt p block).handleAt? (shift p block.length q) = b.handleAt? q := by
  simp only [handleAt?, insertAt_code_shift hp]
  rfl

theorem insertAt_handleAt?_block (hp : p ≤ b.size) {k : Nat} (hk : k < block.length) :
    (b.insertAt p block).handleAt? (p + k) = some ⟨b.number, b.size + k⟩ := by
  simp only [handleAt?, insertAt_code_block hp hk]
  rfl

theorem insertAt_instructionAt?_shift (hp : p ≤ b.size) (q : Nat) :
    (b.insertAt p block).instructionAt? (shift p block.length q) = b.instructionAt? q := by
  simp only [instructionAt?, insertAt_code_shift hp]

theorem insertAt_instructionAt?_block (hp : p ≤ b.size) {k : Nat} (hk : k < block.length) :
    (b.insertAt p block).instructionAt? (p + k) = some block[k] := by
  simp only [instructionAt?, insertAt_code_block hp hk]
  rfl

theorem insertAt_instructions (b : Body) (p : Nat) (block : List Instruction) :
    (b.insertAt p block).instructions = b.instructions.take p ++ block ++ b.instructions.drop p := by
  simp only [instructions, insertAt_code, List.map_append, issue_instructions, List.map_take, List.map_drop]

theorem insertAt_handles (b : Body) (p : Nat) (block : List Instruction) :
    (b.insertAt p block).handles = b.handles.take p ++ b.fresh block.length ++ b.handles.drop p := by
  have hissue := congrArg (List.map fun slot => (⟨b.number, slot⟩ : Handle)) (issue_slots b block)
  rw [List.map_map, List.map_map] at hissue
  simp only [handles, insertAt_code, List.map_append, List.map_take, List.map_drop]
  exact congrArg (_ ++ · ++ _) hissue

/-! ## Code as a whole -/

/-- nothing is put in front of elements with other keys -/
theorem flatMap_of_ne {α : Type} {key : α → Nat} {l : List α} {k : Nat} (hl : ∀ c ∈ l, key c ≠ k) (block : List α) :
    (l.flatMap fun c => (if key c = k then block else []) ++ [c]) = l := by
  rw [List.flatMap_congr (g := fun c => [c]) fun c hc => ?_]
  · exact List.flatMap_singleton' l
  · rw [if_neg (hl c hc), List.nil_append]

/-- to put a block in front of a position is to put it in front of the element there, known by its key -/
theorem insert_eq_flatMap {α : Type} {key : α → Nat} {l : List α} (hl : (l.map key).Nodup) {p : Nat} {x : α}
    (hx : l[p]? = some x) (block : List α) :
    l.take p ++ block ++ l.drop p = l.flatMap fun c => (if key c = key x then block else []) ++ [c] := by
  induction l generalizing p with
  | nil => cases hx
  | cons y l ih =>
    rw [List.map_cons, List.nodup_cons] at hl
    rw [List.flatMap_cons]
    cases p with
    | zero =>
      cases hx
      -- the key does not occur again
      have hne : ∀ c ∈ l, key c ≠ key x := fun c hc heq => hl.1 (heq ▸ List.mem_map_of_mem hc)
      rw [flatMap_of_ne hne]
      simp
    | succ p =>
      rw [List.getElem?_cons_succ] at hx
      have hne : key y ≠ key x := fun heq => hl.1 (heq ▸ List.mem_map_of_mem (List.mem_of_getElem? hx))
      rw [List.take_succ_cons, List.drop_succ_cons, if_neg hne, ← ih hl.2 hx]
      simp

/-- **The code with a block in front of an anchor**, the anchor known by its handle. -/
theorem insertAt_code_flatMap (hb : b.Coherent) {h : Handle} (hp : b.positionOf? h = some p) :
    (b.insertAt p block).code.toList =
      b.code.toList.flatMap fun c => (if c.slot = h.slot then b.issue block else []) ++ [c] := by
  obtain ⟨-, hslot⟩ := handleAt?_eq_some.1 (hb.positionOf?_eq_some.1 hp)
  rw [List.getElem?_map] at hslot
  obtain ⟨c, hc, hslot⟩ := Option.map_eq_some_iff.1 hslot
  rw [insertAt_code, insert_eq_flatMap hb.slots_nodup hc, hslot]

/-! ## Handles -/

theorem fresh_length (b : Body) (n : Nat) : (b.fresh n).length = n := by
  simp [fresh]

theorem fresh_getElem?_eq_some {b : Body} {n k : Nat} {h : Handle} :
    (b.fresh n)[k]? = some h ↔ k < n ∧ h = ⟨b.number, b.size + k⟩ := by
  rw [fresh, List.getElem?_map, Option.map_eq_some_iff]
  simp only [List.getElem?_eq_some_iff, List.length_range, List.getElem_range]
  constructor
  · rintro ⟨_, ⟨hk, rfl⟩, rfl⟩
    exact ⟨hk, rfl⟩
  · rintro ⟨hk, rfl⟩
    exact ⟨k, ⟨hk, rfl⟩, rfl⟩

theorem mem_fresh {b : Body} {n : Nat} {h : Handle} : h ∈ b.fresh n ↔ ∃ k < n, h = ⟨b.number, b.size + k⟩ := by
  rw [List.mem_iff_getElem?]
  exact exists_congr fun k => fresh_getElem?_eq_some

theorem fresh_head? (b : Body) {n : Nat} (hpos : 0 < n) : (b.fresh n).head? = some ⟨b.number, b.size⟩ := by
  rw [List.head?_eq_getElem?]
  exact fresh_getElem?_eq_some.2 ⟨hpos, rfl⟩

theorem not_contains_fresh {b : Body} {n : Nat} {h : Handle} (hh : h ∈ b.fresh n) : ¬ b.contains h = true := by
  obtain ⟨k, -, rfl⟩ := mem_fresh.1 hh
  intro hc
  exact absurd ((b.contains_iff _).1 hc).2 (Nat.not_lt.2 (Nat.le_add_right _ _))

theorem contains_insertAt_iff {h : Handle} :
    (b.insertAt p block).contains h = true ↔ b.contains h = true ∨ h ∈ b.fresh block.length := by
  have hnumber : (b.insertAt p block).number = b.number := rfl
  rw [contains_iff, contains_iff, mem_fresh, insertAt_size, hnumber]
  constructor
  · intro ⟨hbody, hlt⟩
    by_cases hold : h.slot < b.size
    · exact Or.inl ⟨hbody, hold⟩
    · refine Or.inr ⟨h.slot - b.size, by omega, ?_⟩
      rw [Nat.add_sub_cancel' (Nat.le_of_not_lt hold), ← hbody]
  · rintro (⟨hbody, hlt⟩ | ⟨k, hk, rfl⟩)
    · exact ⟨hbody, Nat.lt_add_right _ hlt⟩
    · exact ⟨rfl, Nat.add_lt_add_left hk _⟩

/-- **A handle goes on naming its instruction.** Where the body has no instruction of a handle that it has not still to
issue, it has none afterwards. -/
theorem insertAt_positionOf? (hb : b.Coherent) (hp : p ≤ b.size) {h : Handle} (hi : b.Issued h) :
    (b.insertAt p block).positionOf? h = (b.positionOf? h).map (shift p block.length) := by
  have hb' : (b.insertAt p block).Coherent := hb.insertAt p block
  cases hq : b.positionOf? h with
  | some q =>
    rw [Option.map_some, hb'.positionOf?_eq_some, insertAt_handleAt?_shift hp, ← hb.positionOf?_eq_some, hq]
  | none =>
    have hout : b.contains h ≠ true := fun hc => by
      have := hb.positionOf?_isSome.2 hc
      rw [hq] at this; cases this
    have hforeign : h.body ≠ b.number := fun hn => hout ((b.contains_iff h).2 ⟨hn, hi hn⟩)
    rw [Option.map_none, ← Option.not_isSome_iff_eq_none, hb'.positionOf?_isSome]
    exact fun hc => hforeign (((b.insertAt p block).contains_iff h).1 hc).1

theorem insertAt_positionOf?_fresh (hb : b.Coherent) (hp : p ≤ b.size) {k : Nat} (hk : k < block.length) :
    (b.insertAt p block).positionOf? ⟨b.number, b.size + k⟩ = some (p + k) :=
  (hb.insertAt p block).positionOf?_eq_some.2 (insertAt_handleAt?_block hp hk)

theorem get?_eq (b : Body) (h : Handle) : b.get? h = (b.positionOf? h).bind b.instructionAt? := by
  unfold get? instructionAt?
  cases b.positionOf? h with
  | none => rfl
  | some p => cases hp : b.code[p]? <;> simp [hp]

theorem Coherent.get?_isSome (hb : b.Coherent) {h : Handle} : (b.get? h).isSome = true ↔ b.contains h = true := by
  rw [get?_eq, ← hb.positionOf?_isSome]
  cases hp : b.positionOf? h with
  | none => exact Iff.rfl
  | some p =>
    obtain ⟨i, hi⟩ := instructionAt?_of_lt (hb.lt_size_of_positionOf? hp)
    rw [Option.bind_some, hi]
    exact Iff.rfl

theorem mem_instructions_of_get? {b : Body} {h : Handle} {i : Instruction} (hi : b.get? h = some i) :
    i ∈ b.instructions := by
  rw [get?_eq] at hi
  obtain ⟨p, -, hp⟩ := Option.bind_eq_some_iff.1 hi
  exact mem_instructions hp

/-- **What a handle names stays the same.** -/
theorem insertAt_get? (hb : b.Coherent) (hp : p ≤ b.size) {h : Handle} (hh : b.contains h = true) :
    (b.insertAt p block).get? h = b.get? h := by
  rw [get?_eq, get?_eq, insertAt_positionOf? hb hp (.of_contains hh), Option.bind_map]
  exact congrArg _ (funext (insertAt_instructionAt?_shift hp))

theorem insertAt_get?_fresh (hb : b.Coherent) (hp : p ≤ b.size) {k : Nat} (hk : k < block.length) :
    (b.insertAt p block).get? ⟨b.number, b.size + k⟩ = some block[k] := by
  rw [get?_eq, insertAt_positionOf?_fresh hb hp hk, Option.bind_some, insertAt_instructionAt?_block hp hk]

/-- **The new handles name the block.** -/
theorem insertAt_map_get?_fresh (hb : b.Coherent) (hp : p ≤ b.size) :
    (b.fresh block.length).map (b.insertAt p block).get? = block.map some := by
  refine List.ext_getElem (by simp [fresh]) fun k hk hk' => ?_
  rw [List.length_map] at hk'
  simp only [fresh, List.getElem_map, List.getElem_range]
  exact insertAt_get?_fresh hb hp hk'

end CilGraft.Body

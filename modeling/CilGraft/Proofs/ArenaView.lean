/-
The two layouts of a body: an arena with its order, and one list of placed instructions.

- `Arena.Sound`: the order of the code is a permutation of the handles that were given out, the local slots are numbered
  in their order, and clauses name instructions of the body.
- `Sound.body_contains`, `body_get?`, `body_positionOf?`, `body_handleAt?`, `body_next?`, `body_local?`: what can be
  looked up in a sound arena can be looked up in its body, with the same answer.
- `Sound.insertAt`, `Sound.insertAt_body`: a block that is put in keeps an arena sound, and is put in the body.
- `run_push`, `run_insertBefore`, `run_addLocal`, `run_addClause`, `run_insertChecked`: what the operations do.
- `seen_push`, `seen_insertBefore`, `seen_addLocal`, `seen_addClause`, `seen_insertChecked`: what is seen of each is the
  operation on the body.
- `Body.Coherent.body_arena`, `Arena.Sound.arena_body`: coherent bodies and sound arenas correspond to each other.
-/
import CilGraft.Arena
import CilGraft.Proofs.Insertion

namespace CilGraft

namespace Arena

/-! ## The invariant -/

/-- the handles of the slots, in the order in which they were given out -/
def issued (a : Arena) : List Handle := (List.range a.cells.size).map (⟨a.number, ·⟩)

/-- the handles of the next slots -/
def fresh (a : Arena) (count : Nat) : List Handle := (List.range count).map fun i => ⟨a.number, a.cells.size + i⟩

structure Sound (a : Arena) : Prop where
  order : a.order.toList.Perm a.issued
  ids : a.locals.toList.map (·.id) = (List.range a.locals.size).map (⟨.ofNat ·⟩)
  room : a.locals.size ≤ 65536
  clauses : ∀ c ∈ a.clauses, ∀ h ∈ c.boundaries, a.contains h = true

variable {a : Arena} {h anchor : Handle} {p : Nat} {block : List Instruction}

theorem contains_iff (a : Arena) (h : Handle) : a.contains h = true ↔ h.body = a.number ∧ h.slot < a.cells.size := by
  simp [contains]

theorem mem_issued : h ∈ a.issued ↔ a.contains h = true := by
  obtain ⟨body, slot⟩ := h
  simp only [issued, contains_iff, List.mem_map, List.mem_range, Handle.mk.injEq]
  constructor
  · rintro ⟨_, hlt, rfl, rfl⟩
    exact ⟨rfl, hlt⟩
  · rintro ⟨rfl, hlt⟩
    exact ⟨slot, hlt, rfl, rfl⟩

theorem issued_nodup (a : Arena) : a.issued.Nodup := by
  refine List.nodup_range.map fun m n hmn => ?_
  injection hmn

/-- the arena has an instruction for each handle that it has issued -/
theorem get?_isSome : (a.get? h).isSome = true ↔ a.contains h = true := by
  simp only [get?]
  split_ifs with hc
  · simp [hc, ((a.contains_iff h).1 hc).2]
  · simp [hc]

namespace Sound

variable (ha : a.Sound)
include ha

theorem size : a.size = a.cells.size := by
  simpa [issued, Arena.size] using ha.order.length_eq

theorem mem_order : h ∈ a.order.toList ↔ a.contains h = true := ha.order.mem_iff.trans mem_issued

theorem nodup : a.order.toList.Nodup := ha.order.nodup_iff.2 a.issued_nodup

/-- a local slot is numbered by its place -/
theorem id_eq {i : Nat} (hi : i < a.locals.size) : a.locals[i].id = ⟨.ofNat i⟩ := by
  have hids := congrArg (·[i]?) ha.ids
  simpa [hi] using hids

theorem index_eq {i : Nat} (hi : i < a.locals.size) : a.locals[i].id.index.toNat = i := by
  rw [ha.id_eq hi]
  exact UInt16.toNat_ofNat_of_lt' (hi.trans_le ha.room)

theorem local?_ofNat {i : Nat} (hi : i < a.locals.size) : a.local? ⟨.ofNat i⟩ = some a.locals[i] := by
  rw [← ha.id_eq hi, local?, ha.index_eq hi, Array.getElem?_eq_getElem hi]

end Sound

theorem sound_empty (number : Nat) : (empty number).Sound := by
  refine ⟨.refl _, rfl, Nat.zero_le _, fun c hc => ?_⟩
  exact absurd hc (by simp [empty])

/-! ## What the body shows -/

theorem body_size (a : Arena) : a.body.size = a.size := by simp [body, Body.size, size]

theorem body_slots (a : Arena) : a.body.code.toList.map (·.slot) = a.order.toList.map (·.slot) := by
  simp [body]

theorem body_local? (a : Arena) (l : Local) : a.body.local? l = (a.local? l).map (·.type) := by
  simp [body, Body.local?, local?]

namespace Sound

variable (ha : a.Sound)
include ha

theorem body_contains (h : Handle) : a.body.contains h = a.contains h := by
  have hsize : a.body.code.size = a.cells.size := a.body_size.trans ha.size
  rw [Body.contains, hsize]
  rfl

theorem body_handles : a.body.handles = a.order.toList := by
  simp only [Body.handles, body, Array.toList_map, List.map_map]
  refine (List.map_congr_left fun h hh => ?_).trans (List.map_id _)
  have hnumber : h.body = a.number := ((a.contains_iff h).1 (ha.mem_order.1 hh)).1
  exact congrArg (fun n => (⟨n, h.slot⟩ : Handle)) hnumber.symm

theorem body_handleAt? (p : Nat) : a.body.handleAt? p = a.handleAt? p := by
  have hget := congrArg (·[p]?) ha.body_handles
  simpa [Body.handles, Body.handleAt?, handleAt?] using hget

theorem coherent : a.body.Coherent := by
  refine ⟨?_, by simpa [body] using ha.room, fun c hc h hh => (ha.body_contains h).trans (ha.clauses c hc h hh)⟩
  have hissued : a.issued.map (·.slot) = List.range a.cells.size := by
    rw [issued, List.map_map]
    exact List.map_id _
  rw [body_slots, body_size, ha.size, ← hissued]
  exact ha.order.map _

theorem positionOf?_eq_some : a.positionOf? h = some p ↔ a.handleAt? p = some h := by
  simp only [positionOf?, handleAt?, ← Array.getElem?_toList]
  constructor
  · intro hp
    split at hp
    · obtain ⟨hlt, hbeq, -⟩ := Array.findIdx?_eq_some_iff_getElem.1 hp
      simpa [Array.getElem?_eq_getElem hlt] using hbeq
    · cases hp
  · intro hp
    have hc := ha.mem_order.1 (List.mem_of_getElem? hp)
    obtain ⟨hlt, hget⟩ := List.getElem?_eq_some_iff.1 hp
    rw [if_pos hc]
    refine Array.findIdx?_eq_some_iff_getElem.2 ⟨hlt, by simpa using hget, fun j hj => ?_⟩
    simp only [beq_iff_eq]
    intro hjh
    have hsame : a.order.toList[j] = a.order.toList[p] := by rw [hget]; simpa using hjh
    exact absurd (ha.nodup.getElem_inj_iff.1 hsame) hj.ne

theorem lt_size_of_positionOf? (hp : a.positionOf? h = some p) : p < a.size :=
  (Array.getElem?_eq_some_iff.1 (ha.positionOf?_eq_some.1 hp)).1

theorem body_positionOf? (h : Handle) : a.body.positionOf? h = a.positionOf? h := by
  refine Option.ext fun p => ?_
  rw [ha.coherent.positionOf?_eq_some, ha.positionOf?_eq_some, ha.body_handleAt?]

theorem body_next? (h : Handle) : a.body.next? h = a.next? h := by
  unfold Body.next? next?
  rw [ha.body_positionOf?]
  cases a.positionOf? h with
  | none => rfl
  | some p => exact ha.body_handleAt? (p + 1)

theorem positionOf?_isSome : (a.positionOf? h).isSome = true ↔ a.contains h = true := by
  rw [← ha.body_positionOf?, ha.coherent.positionOf?_isSome, ha.body_contains]

theorem body_get? (h : Handle) : a.body.get? h = a.get? h := by
  have hcontains := @positionOf?_isSome a h ha
  rw [Body.get?_eq, ha.body_positionOf?]
  cases hp : a.positionOf? h with
  | none =>
    rw [hp] at hcontains
    have hc : ¬ a.contains h = true := by simpa using hcontains
    simp [get?, hc]
  | some p =>
    rw [hp] at hcontains
    have hc : a.contains h = true := hcontains.1 rfl
    have hat : a.order[p]? = some h := ha.positionOf?_eq_some.1 hp
    have hlt := ((a.contains_iff h).1 hc).2
    simp [get?, hc, Body.instructionAt?, body, hat, hlt]

end Sound

/-! ## A block put in -/

/-- the arena with a block in front of a position -/
def insertAt (a : Arena) (p : Nat) (block : List Instruction) : Arena :=
  { a with
    cells := a.cells ++ block.toArray
    order := a.order.take p ++ (a.fresh block.length).toArray ++ a.order.drop p }

@[simp] theorem fresh_length (a : Arena) (n : Nat) : (a.fresh n).length = n := by simp [fresh]

/-- of the next handles, all but the first are the next ones behind one more instruction -/
theorem fresh_succ (i : Instruction) (a : Arena) (n : Nat) :
    a.fresh (n + 1) = ⟨a.number, a.cells.size⟩ :: fresh { a with cells := a.cells.push i } n := by
  simp [fresh, List.range_succ_eq_map, Nat.add_assoc, Nat.add_comm 1]

theorem mem_fresh {n : Nat} : h ∈ a.fresh n ↔ ∃ k < n, h = ⟨a.number, a.cells.size + k⟩ := by
  simp [fresh, eq_comm]

theorem Sound.body_fresh (ha : a.Sound) (n : Nat) : a.body.fresh n = a.fresh n := by
  have hsize : a.body.code.size = a.cells.size := a.body_size.trans ha.size
  rw [Body.fresh, hsize]
  rfl

theorem insertAt_order (a : Arena) (p : Nat) (block : List Instruction) : (a.insertAt p block).order.toList =
    a.order.toList.take p ++ a.fresh block.length ++ a.order.toList.drop p := by
  simp [insertAt]

theorem insertAt_cells_size (a : Arena) (p : Nat) (block : List Instruction) :
    (a.insertAt p block).cells.size = a.cells.size + block.length := by
  simp [insertAt]

theorem contains_insertAt (hc : a.contains h = true) (p : Nat) (block : List Instruction) :
    (a.insertAt p block).contains h = true := by
  obtain ⟨hnumber, hlt⟩ := (a.contains_iff h).1 hc
  refine (contains_iff _ h).2 ⟨hnumber, ?_⟩
  rw [insertAt_cells_size]
  exact Nat.lt_add_right _ hlt

theorem contains_insertAt_fresh (a : Arena) (p : Nat) {k : Nat} (hk : k < block.length) :
    (a.insertAt p block).contains ⟨a.number, a.cells.size + k⟩ = true := by
  rw [contains_iff, insertAt_cells_size]
  exact ⟨rfl, Nat.add_lt_add_left hk _⟩

/-- old instructions stay in their slots -/
theorem insertAt_get? (hc : a.contains h = true) (p : Nat) (block : List Instruction) :
    (a.insertAt p block).get? h = a.get? h := by
  have hlt := ((a.contains_iff h).1 hc).2
  rw [get?, if_pos (contains_insertAt hc p block), get?, if_pos hc]
  simp [insertAt, Array.getElem?_append_left hlt]

/-- the new slots hold the block -/
theorem insertAt_map_get?_fresh (a : Arena) (p : Nat) (block : List Instruction) :
    (a.fresh block.length).map (a.insertAt p block).get? = block.map some := by
  refine List.ext_getElem (by simp) fun k hk hk' => ?_
  rw [List.length_map] at hk'
  simp only [fresh, List.getElem_map, List.getElem_range, get?, if_pos (contains_insertAt_fresh a p hk')]
  simp [insertAt, hk']

/-- **A block put in is put in the body.** -/
theorem Sound.insertAt_body (ha : a.Sound) (p : Nat) (block : List Instruction) :
    (a.insertAt p block).body = a.body.insertAt p block := by
  have hsize : a.body.code.size = a.cells.size := a.body_size.trans ha.size
  have hold : ∀ l : List Handle, l ⊆ a.order.toList →
      l.map (fun h => (⟨h.slot, (a.cells ++ block.toArray)[h.slot]?.getD { opcode := .nop }⟩ : Placed)) =
        l.map fun h => ⟨h.slot, a.cells[h.slot]?.getD { opcode := .nop }⟩ := by
    intro l hl
    refine List.map_congr_left fun h hh => ?_
    have hlt := ((a.contains_iff h).1 (ha.mem_order.1 (hl hh))).2
    rw [Array.getElem?_append_left hlt]
  have hnew : (a.fresh block.length).map
      (fun h => (⟨h.slot, (a.cells ++ block.toArray)[h.slot]?.getD { opcode := .nop }⟩ : Placed)) =
        a.body.issue block := by
    refine List.ext_getElem (by simp) fun k hk hk' => ?_
    rw [Body.issue_length] at hk'
    simp [fresh, Body.issue, hsize, hk']
  have hcode : (a.insertAt p block).body.code = (a.body.insertAt p block).code := by
    refine Array.toList_inj.1 ?_
    have hbody : a.body.code.toList =
        a.order.toList.map fun h => ⟨h.slot, a.cells[h.slot]?.getD { opcode := .nop }⟩ := by simp [body]
    rw [Body.insertAt_code, hbody, ← List.map_take, ← List.map_drop, ← hold _ (List.take_subset p _),
      ← hold _ (List.drop_subset p _), ← hnew, ← List.map_append, ← List.map_append, ← insertAt_order]
    simp [body, insertAt]
  exact congrArg (fun code => { a.body with code }) hcode

/-- the slots of a block have the next handles -/
theorem insertAt_issued (a : Arena) (p : Nat) (block : List Instruction) :
    (a.insertAt p block).issued = a.issued ++ a.fresh block.length := by
  rw [issued, insertAt_cells_size, List.range_add, List.map_append, List.map_map]
  rfl

/-- **A block that is put in anywhere keeps an arena sound.** -/
theorem Sound.insertAt (ha : a.Sound) (p : Nat) (block : List Instruction) : (a.insertAt p block).Sound := by
  refine ⟨?_, ha.ids, ha.room, fun c hc h hh => contains_insertAt (ha.clauses c hc h hh) p block⟩
  have hperm : (a.insertAt p block).order.toList.Perm (a.order.toList ++ a.fresh block.length) := by
    rw [insertAt_order, List.append_assoc]
    refine (List.Perm.append_left _ List.perm_append_comm).trans ?_
    rw [← List.append_assoc, List.take_append_drop]
  rw [insertAt_issued]
  exact hperm.trans (ha.order.append_right _)

/-! ## What the operations do -/

section

variable {α β : Type} {x : Change α} {f : α → Change β} {v : α} {a' : Arena} {e : Error}

theorem run_bind_ok (h : x.run a = .ok v a') : (x >>= f).run a = (f v).run a' := by
  rw [EStateM.run_bind, h]

theorem run_bind_error (h : x.run a = .error e a') : (x >>= f).run a = .error e a' := by
  rw [EStateM.run_bind, h]

theorem run_ofExcept_ok (a : Arena) (v : α) : (MonadExcept.ofExcept (.ok v) : Change α).run a = .ok v a := rfl

end

theorem run_allocate (a : Arena) (i : Instruction) :
    (allocate i).run a = .ok ⟨a.number, a.cells.size⟩ { a with cells := a.cells.push i } := rfl

theorem run_mapM_allocate (a : Arena) (block : List Instruction) : (block.mapM allocate).run a =
    .ok (a.fresh block.length) { a with cells := a.cells ++ block.toArray } := by
  induction block generalizing a with
  | nil => simp [fresh]
  | cons i block ih =>
    rw [List.mapM_cons, run_bind_ok (run_allocate a i), run_bind_ok (ih _), EStateM.run_pure, List.length_cons,
      fresh_succ i]
    simp

/-- a block at the end -/
theorem insertAt_size (a : Arena) (block : List Instruction) : a.insertAt a.size block =
    { a with cells := a.cells ++ block.toArray, order := a.order ++ (a.fresh block.length).toArray } := by
  simp [insertAt, size]

theorem run_push (a : Arena) (i : Instruction) :
    (push i).run a = .ok ⟨a.number, a.cells.size⟩ (a.insertAt a.size [i]) := by
  rw [insertAt_size]
  simp [push, allocate, fresh]

theorem run_mapM_push (a : Arena) (block : List Instruction) :
    (block.mapM push).run a = .ok (a.fresh block.length) (a.insertAt a.size block) := by
  induction block generalizing a with
  | nil => simp [fresh, insertAt_size]
  | cons i block ih =>
    rw [List.mapM_cons, run_bind_ok (run_push a i), run_bind_ok (ih _), EStateM.run_pure]
    simp only [insertAt_size, List.length_cons, fresh_succ i]
    simp [fresh]

theorem run_insertBefore (a : Arena) (anchor : Handle) (block : List Instruction) :
    (insertBefore anchor block).run a = match a.positionOf? anchor with
      | some p => .ok (a.fresh block.length) (a.insertAt p block)
      | none => .error (.invalidAnchor anchor) a := by
  unfold insertBefore
  rw [run_bind_ok (EStateM.run_get a)]
  cases a.positionOf? anchor with
  | none => rfl
  | some p =>
    exact run_bind_ok (run_mapM_allocate a block)

theorem run_put_none (a : Arena) (block : List Instruction) :
    (put none block).run a = .ok (a.fresh block.length) (a.insertAt a.size block) := run_mapM_push a block

theorem run_put_some (hp : a.positionOf? anchor = some p) (block : List Instruction) :
    (put (some anchor) block).run a = .ok (a.fresh block.length) (a.insertAt p block) := by
  simp only [put, run_insertBefore, hp]

theorem run_addLocal (a : Arena) (type : TypeSig) : (addLocal type).run a =
    if a.locals.size < 65536 then
      .ok ⟨.ofNat a.locals.size⟩ { a with locals := a.locals.push ⟨⟨.ofNat a.locals.size⟩, type⟩ }
    else .error (.malformed .localTableFull) a := by
  unfold addLocal
  rw [run_bind_ok (EStateM.run_get a)]
  dsimp only
  split_ifs <;> rfl

theorem run_addClause (a : Arena) (c : Clause) : (addClause c).run a =
    match c.boundaries.find? (!a.contains ·) with
    | some foreign => .error (.invalidAnchor foreign) a
    | none => .ok () { a with clauses := a.clauses.push c } := by
  unfold addClause
  rw [run_bind_ok (EStateM.run_get a)]
  cases c.boundaries.find? (!a.contains ·) <;> rfl

/-- the check is that of the body, and changes nothing -/
theorem Sound.run_check (ha : a.Sound) (i : Instruction) :
    (check i).run a = (MonadExcept.ofExcept (Splicing.checkInstruction a.body i) : Change Unit).run a := by
  unfold check Splicing.checkInstruction
  simp only [ha.body_contains, body_local?, Option.isNone_map]
  cases i.validate with
  | error e => rfl
  | ok u =>
    rw [run_bind_ok (run_ofExcept_ok a u), run_bind_ok (EStateM.run_get a)]
    cases i.local? with
    | none => cases i.targets.find? (!a.contains ·) <;> rfl
    | some slot =>
      cases hslot : a.local? slot with
      | none =>
        simp only [hslot, Option.isNone_none, if_true]
        rfl
      | some entry =>
        simp only [hslot, Option.isNone_some, Bool.false_eq_true, if_false]
        cases i.targets.find? (!a.contains ·) <;> rfl

theorem Sound.run_forM_check (ha : a.Sound) (block : List Instruction) : (forM block check).run a =
    (MonadExcept.ofExcept (forM block (Splicing.checkInstruction a.body)) : Change Unit).run a := by
  induction block with
  | nil => rfl
  | cons i block ih =>
    have hfirst := ha.run_check i
    rw [List.forM_cons, List.forM_cons]
    cases hcheck : Splicing.checkInstruction a.body i with
    | error e =>
      rw [hcheck] at hfirst
      exact run_bind_error hfirst
    | ok u =>
      rw [hcheck] at hfirst
      exact (run_bind_ok hfirst).trans ih

theorem Sound.run_insertChecked (ha : a.Sound) (anchor : Handle) (block : List Instruction) :
    (insertChecked anchor block).run a =
      if a.contains anchor then
        match forM block (Splicing.checkInstruction a.body) with
        | .ok _ => (insertBefore anchor block).run a
        | .error err => .error err a
      else .error (.invalidAnchor anchor) a := by
  have hchecks := ha.run_forM_check block
  unfold insertChecked
  rw [run_bind_ok (EStateM.run_get a)]
  by_cases hc : a.contains anchor = true
  · simp only [hc, Bool.not_true, Bool.false_eq_true, if_false, if_true]
    cases hcheck : forM block (Splicing.checkInstruction a.body) with
    | error err =>
      rw [hcheck] at hchecks
      exact run_bind_error hchecks
    | ok u =>
      rw [hcheck] at hchecks
      exact run_bind_ok hchecks
  · simp only [hc, Bool.not_false, if_true]
    rfl

/-! ## What is seen of the operations -/

theorem seen_return {α β : Type} (x : Change α) (f : α → β) (a : Arena) :
    seen ((x >>= fun v => pure (f v)).run a) = (fun out => (out.1, f out.2)) <$> seen (x.run a) := by
  rw [EStateM.run_bind]
  cases x.run a <;> rfl

theorem seen_addLocal (a : Arena) (type : TypeSig) :
    seen ((addLocal type).run a) = leaving a.body (a.body.addLocal type) := by
  have hsize : a.body.locals.size = a.locals.size := by simp [body]
  rw [run_addLocal, Body.addLocal, hsize]
  split_ifs
  · simp [seen, body]
  · rfl

namespace Sound

variable (ha : a.Sound)
include ha

theorem seen_push (i : Instruction) : seen ((push i).run a) = .ok (a.body.push i) := by
  have hsize : a.body.code.size = a.cells.size := a.body_size.trans ha.size
  have hhandle : (a.body.push i).2 = ⟨a.number, a.cells.size⟩ := by
    rw [Body.push, hsize]
    rfl
  have hbody : (a.insertAt a.size [i]).body = (a.body.push i).1 := by
    rw [Body.push_eq_insertAt, body_size, ha.insertAt_body]
  rw [run_push]
  exact congrArg Except.ok (Prod.ext hbody hhandle.symm)

theorem seen_insertBefore (anchor : Handle) (block : List Instruction) :
    seen ((insertBefore anchor block).run a) = leaving a.body (a.body.insertBefore anchor block) := by
  rw [run_insertBefore, Body.insertBefore, ha.body_positionOf?]
  cases a.positionOf? anchor with
  | none => rfl
  | some p => exact congrArg Except.ok (Prod.ext (ha.insertAt_body p block) (ha.body_fresh _).symm)

theorem seen_addClause (c : Clause) :
    seen ((addClause c).run a) = leaving a.body ((·, ()) <$> a.body.addClause c) := by
  have hcontains : a.body.contains = a.contains := funext ha.body_contains
  rw [run_addClause, Body.addClause, hcontains]
  cases c.boundaries.find? (!a.contains ·) <;> rfl

theorem seen_insertChecked (anchor : Handle) (block : List Instruction) (done : List Splice) :
    seen ((insertChecked anchor block).run a) = leaving a.body
      ((fun out => (out.1.body, out.2.inserted)) <$> Splicing.insertBefore ⟨a.body, done⟩ anchor block) := by
  have hinsert := ha.seen_insertBefore anchor block
  rw [ha.run_insertChecked, Splicing.insertBefore]
  by_cases hc : a.contains anchor = true
  · simp only [ha.body_contains, hc, Bool.not_true, Bool.false_eq_true, if_false, if_true, List.forM_eq_forM]
    cases forM block (Splicing.checkInstruction a.body) with
    | error e => rfl
    | ok u =>
      refine hinsert.trans ?_
      cases a.body.insertBefore anchor block <;> rfl
  · simp only [ha.body_contains, hc, Bool.not_false, if_true]
    rfl

end Sound

end Arena

/-! ## The two layouts -/

namespace Body

variable {b : Body}

theorem Coherent.cell (hb : b.Coherent) {slot : Nat} (hslot : slot < b.size) :
    b.arena.cells[slot]? = b.get? ⟨b.number, slot⟩ := by
  have hc : b.contains ⟨b.number, slot⟩ = true := (b.contains_iff _).2 ⟨rfl, hslot⟩
  obtain ⟨i, hi⟩ := Option.isSome_iff_exists.1 (hb.get?_isSome.2 hc)
  simp [arena, hslot, hi]

theorem Coherent.arena_sound (hb : b.Coherent) : b.arena.Sound := by
  have hcells : b.arena.cells.size = b.size := by simp [arena]
  refine ⟨?_, ?_, by simpa [arena] using hb.locals, fun c hc h hh => ?_⟩
  · have hmap := hb.slots.map fun slot => (⟨b.number, slot⟩ : Handle)
    rw [List.map_map] at hmap
    rw [Arena.issued, hcells]
    exact hmap
  · refine List.ext_getElem (by simp [arena]) fun k hk hk' => ?_
    simp [arena]
  · rw [Arena.contains_iff, hcells]
    exact (b.contains_iff h).1 (hb.clauses c hc h hh)

/-- **A coherent body, laid out, is the body of its arena.** -/
theorem Coherent.body_arena (hb : b.Coherent) : b.arena.body = b := by
  have hcode : b.arena.body.code = b.code := by
    refine Array.toList_inj.1 (List.ext_getElem (by simp [arena, Arena.body, handles]) fun p hp hp' => ?_)
    rw [Array.length_toList] at hp'
    have hat : b.handleAt? p = some ⟨b.number, b.code[p].slot⟩ := by
      simp [handleAt?, Array.getElem?_eq_getElem hp']
    have hslot := ((b.contains_iff _).1 (hb.contains_of_handleAt? hat)).2
    have hget : b.get? ⟨b.number, b.code[p].slot⟩ = some b.code[p].instruction := by
      rw [get?_eq, hb.positionOf?_eq_some.2 hat]
      simp [instructionAt?, Array.getElem?_eq_getElem hp']
    have hcell := (hb.cell hslot).trans hget
    have horder : b.arena.order[p]? = some ⟨b.number, b.code[p].slot⟩ := by
      simp [arena, handles, Array.getElem?_eq_getElem hp']
    obtain ⟨hlt, horder⟩ := Array.getElem?_eq_some_iff.1 horder
    simp [Arena.body, horder, hcell]
  have hlocals : b.arena.body.locals = b.locals := by
    refine Array.ext (by simp [arena, Arena.body]) fun k hk hk' => ?_
    simp [arena, Arena.body]
  calc b.arena.body = { b with code := b.arena.body.code, locals := b.arena.body.locals } := rfl
    _ = b := by rw [hcode, hlocals]

end Body

/-- **A sound arena is the layout of its body.** -/
theorem Arena.Sound.arena_body {a : Arena} (ha : a.Sound) : a.body.arena = a := by
  have hsize : a.body.size = a.cells.size := a.body_size.trans ha.size
  have hcells : a.body.arena.cells = a.cells := by
    refine Array.ext (by simp [Body.arena, hsize]) fun k hk hk' => ?_
    have hc : a.contains ⟨a.number, k⟩ = true := (a.contains_iff _).2 ⟨rfl, hk'⟩
    have hget : a.body.get? ⟨a.number, k⟩ = some a.cells[k] := by
      rw [ha.body_get?, get?, if_pos hc, Array.getElem?_eq_getElem hk']
    have hnumber : a.body.number = a.number := rfl
    simp [Body.arena, hnumber, hget]
  have horder : a.body.arena.order = a.order := by
    rw [Body.arena, ha.body_handles]
  have hlocals : a.body.arena.locals = a.locals := by
    refine Array.ext (by simp [Body.arena, body]) fun k hk hk' => ?_
    have hid := ha.id_eq hk'
    simp [Body.arena, body, ← hid]
  calc a.body.arena = { a with
        cells := a.body.arena.cells, order := a.body.arena.order, locals := a.body.arena.locals } := rfl
    _ = a := by rw [hcells, horder, hlocals]

end CilGraft

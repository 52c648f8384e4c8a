/-
The invariant of method bodies.

- `Reachable`: the bodies that the operations build, from an empty one on, in any order. Operands may name any
  instruction that was issued before, of this or of another body: there is no other way to get hold of a handle.
- `Coherent`: the slots of the code are the issued ones, each once; there are at most 65536 locals; and clauses name
  instructions of the body. `WellFormed`: besides, no operand names an instruction that the body has still to issue.
- `Reachable.wellFormed`: the first have the second.
- `positionOf?_eq_some`: in a coherent body positions and handles are the same thing seen from two sides.
-/
import CilGraft.Body.Draft
import CilGraft.Graft.Splice
import CilGraft.Proofs.Checks

namespace CilGraft.Body

/-! ## The invariant -/

/-- the handle is not one that the body has still to issue -/
def Issued (b : Body) (h : Handle) : Prop := h.body = b.number → h.slot < b.size

structure Coherent (b : Body) : Prop where
  slots : (b.code.toList.map (·.slot)).Perm (List.range b.size)
  locals : b.locals.size ≤ 65536
  clauses : ∀ c ∈ b.clauses, ∀ h ∈ c.boundaries, b.contains h = true

structure WellFormed (b : Body) : Prop extends Coherent b where
  targets : ∀ i ∈ b.instructions, ∀ h ∈ i.targets, b.Issued h

/-- bodies that the operations build -/
inductive Reachable : Body → Prop where
  | empty (number : Nat) : Reachable (.empty number)
  | push {b : Body} (h : Reachable b) (i : Instruction) (hi : ∀ t ∈ i.targets, b.Issued t) : Reachable (b.push i).1
  | insertBefore {b b' : Body} {anchor : Handle} {block : List Instruction} {new : List Handle} (h : Reachable b)
      (hi : ∀ i ∈ block, ∀ t ∈ i.targets, b.Issued t) (hb : b.insertBefore anchor block = .ok (b', new)) : Reachable b'
  | splice {s s' : Splicing} {anchor : Handle} {block : List Instruction} {record : Splice} (h : Reachable s.body)
      (hs : s.insertBefore anchor block = .ok (s', record)) : Reachable s'.body
  | appendDraft {b b' : Body} {d : Draft} {new : List Handle} (h : Reachable b)
      (hd : ∀ i, .ready i ∈ d.items → ∀ t ∈ i.targets, b.Issued t) (hb : d.appendTo b = .ok (b', new)) : Reachable b'
  | insertDraft {b b' : Body} {d : Draft} {anchor : Handle} {new : List Handle} (h : Reachable b)
      (hd : ∀ i, .ready i ∈ d.items → ∀ t ∈ i.targets, b.Issued t)
      (hb : d.insertBefore b anchor = .ok (b', new)) : Reachable b'
  | addLocal {b b' : Body} {type : TypeSig} {slot : Local} (h : Reachable b)
      (hb : b.addLocal type = .ok (b', slot)) : Reachable b'
  | addClause {b b' : Body} {c : Clause} (h : Reachable b) (hb : b.addClause c = .ok b') : Reachable b'
  | header {b : Body} (h : Reachable b) (maxStack : UInt16) (initLocals : Bool) :
      Reachable { b with maxStack, initLocals }

theorem contains_iff (b : Body) (h : Handle) : b.contains h = true ↔ h.body = b.number ∧ h.slot < b.size := by
  simp [contains, size]

theorem Issued.of_contains {b : Body} {h : Handle} (hc : b.contains h = true) : b.Issued h :=
  fun _ => ((b.contains_iff h).1 hc).2

/-! ## Positions and handles -/

/-- the instruction at a position -/
def instructionAt? (b : Body) (position : Nat) : Option Instruction := b.code[position]?.map (·.instruction)

theorem instructions_getElem? (b : Body) (p : Nat) : b.instructions[p]? = b.instructionAt? p := by
  rw [instructions, instructionAt?, List.getElem?_map, Array.getElem?_toList]

theorem instructions_length (b : Body) : b.instructions.length = b.size := by
  simp [instructions, size]

theorem handleAt?_eq_some {b : Body} {p : Nat} {h : Handle} :
    b.handleAt? p = some h ↔ h.body = b.number ∧ (b.code.toList.map (·.slot))[p]? = some h.slot := by
  obtain ⟨body, slot⟩ := h
  simp only [handleAt?, Option.map_eq_some_iff, Handle.mk.injEq, List.getElem?_map, Array.getElem?_toList]
  constructor
  · rintro ⟨c, hc, rfl, rfl⟩
    exact ⟨rfl, c, hc, rfl⟩
  · rintro ⟨rfl, c, hc, rfl⟩
    exact ⟨c, hc, rfl, rfl⟩

theorem handleAt?_isSome {b : Body} {p : Nat} : (b.handleAt? p).isSome = true ↔ p < b.size := by
  simp [handleAt?, size]

theorem lt_size_of_handleAt? {b : Body} {p : Nat} {h : Handle} (hp : b.handleAt? p = some h) : p < b.size :=
  handleAt?_isSome.1 (by rw [hp]; rfl)

/-- where a handle is found stands the instruction that it names -/
theorem handleAt?_of_positionOf? {b : Body} {p : Nat} {h : Handle} (hp : b.positionOf? h = some p) :
    b.handleAt? p = some h := by
  simp only [positionOf?] at hp
  split at hp
  · rename_i hc
    obtain ⟨hlt, hslot, -⟩ := Array.findIdx?_eq_some_iff_getElem.1 hp
    refine handleAt?_eq_some.2 ⟨((b.contains_iff h).1 hc).1, ?_⟩
    simp only [beq_iff_eq] at hslot
    simp [Array.getElem?_eq_getElem hlt, hslot]
  · cases hp

theorem lt_size_of_instructionAt? {b : Body} {p : Nat} {i : Instruction} (hp : b.instructionAt? p = some i) :
    p < b.size := by
  simp only [instructionAt?, Option.map_eq_some_iff] at hp
  obtain ⟨c, hc, -⟩ := hp
  exact (Array.getElem?_eq_some_iff.1 hc).1

theorem instructionAt?_of_lt {b : Body} {p : Nat} (hp : p < b.size) : ∃ i, b.instructionAt? p = some i :=
  ⟨b.code[p].instruction, by simp [instructionAt?, Array.getElem?_eq_getElem hp]⟩

theorem mem_instructions {b : Body} {p : Nat} {i : Instruction} (hp : b.instructionAt? p = some i) :
    i ∈ b.instructions := by
  simp only [instructionAt?, Option.map_eq_some_iff] at hp
  obtain ⟨c, hc, rfl⟩ := hp
  exact List.mem_map.2 ⟨c, Array.mem_toList_iff.2 (Array.mem_of_getElem? hc), rfl⟩

namespace Coherent

variable {b : Body} (hb : b.Coherent)
include hb

theorem slots_nodup : (b.code.toList.map (·.slot)).Nodup := hb.slots.nodup_iff.2 List.nodup_range

theorem slot_lt {c : Placed} (hc : c ∈ b.code.toList) : c.slot < b.size :=
  List.mem_range.1 (hb.slots.mem_iff.1 (List.mem_map_of_mem hc))

theorem contains_of_handleAt? {p : Nat} {h : Handle} (hp : b.handleAt? p = some h) : b.contains h = true := by
  obtain ⟨hn, hs⟩ := handleAt?_eq_some.1 hp
  have hm : h.slot ∈ List.range b.size := hb.slots.mem_iff.1 (List.mem_of_getElem? hs)
  exact (b.contains_iff h).2 ⟨hn, List.mem_range.1 hm⟩

/-- **Positions and handles are inverse.** A handle is at the one position whose instruction it names. -/
theorem positionOf?_eq_some {h : Handle} {p : Nat} : b.positionOf? h = some p ↔ b.handleAt? p = some h := by
  constructor
  · exact handleAt?_of_positionOf?
  · intro hp
    have hc := hb.contains_of_handleAt? hp
    obtain ⟨-, hs⟩ := handleAt?_eq_some.1 hp
    obtain ⟨hlt, hslot⟩ := List.getElem?_eq_some_iff.1 hs
    simp only [positionOf?, hc, if_true]
    refine Array.findIdx?_eq_some_iff_getElem.2 ⟨by simpa using hlt, by simpa using hslot, fun j hj => ?_⟩
    simp only [beq_iff_eq]
    intro hjs
    have hjlt := hj.trans hlt
    have hsame : (b.code.toList.map (·.slot))[j] = (b.code.toList.map (·.slot))[p] := by
      rw [hslot]; simpa using hjs
    exact absurd (hb.slots_nodup.getElem_inj_iff.1 hsame) (by omega)

theorem positionOf?_isSome {h : Handle} : (b.positionOf? h).isSome = true ↔ b.contains h = true := by
  constructor
  · intro hp
    obtain ⟨p, hp⟩ := Option.isSome_iff_exists.1 hp
    exact hb.contains_of_handleAt? (hb.positionOf?_eq_some.1 hp)
  · intro hc
    obtain ⟨hn, hlt⟩ := (b.contains_iff h).1 hc
    obtain ⟨p, hp⟩ := List.getElem?_of_mem (hb.slots.mem_iff.2 (List.mem_range.2 hlt))
    rw [hb.positionOf?_eq_some.2 (handleAt?_eq_some.2 ⟨hn, hp⟩)]
    rfl

theorem lt_size_of_positionOf? {h : Handle} {p : Nat} (hp : b.positionOf? h = some p) : p < b.size :=
  lt_size_of_handleAt? (hb.positionOf?_eq_some.1 hp)

end Coherent

/-! ## The operations keep the invariant -/

theorem coherent_empty (number : Nat) : (empty number).Coherent := by
  constructor <;> simp [empty, size]

theorem wellFormed_empty (number : Nat) : (empty number).WellFormed :=
  ⟨coherent_empty number, by simp [empty, instructions]⟩

@[simp] theorem issue_length (b : Body) (block : List Instruction) : (b.issue block).length = block.length := by
  simp [issue]

theorem issue_slots (b : Body) (block : List Instruction) :
    (b.issue block).map (·.slot) = (List.range block.length).map (b.size + ·) := by
  apply List.ext_getElem
  · simp [issue]
  · intro k h1 h2; simp [issue, size]

theorem issue_instructions (b : Body) (block : List Instruction) : (b.issue block).map (·.instruction) = block := by
  apply List.ext_getElem
  · simp [issue]
  · intro k h1 h2; simp [issue]

/-- the code around a block that is put in -/
theorem insertAt_code (b : Body) (p : Nat) (block : List Instruction) :
    (b.insertAt p block).code.toList = b.code.toList.take p ++ b.issue block ++ b.code.toList.drop p := by
  simp [insertAt]

@[simp] theorem insertAt_size (b : Body) (p : Nat) (block : List Instruction) :
    (b.insertAt p block).size = b.size + block.length := by
  have h := congrArg List.length (insertAt_code b p block)
  simp only [Array.length_toList, List.length_append, List.length_take, List.length_drop, issue_length] at h
  simp only [size]
  omega

theorem contains_insertAt {b : Body} {h : Handle} (hc : b.contains h = true) (p : Nat) (block : List Instruction) :
    (b.insertAt p block).contains h = true := by
  obtain ⟨hn, hs⟩ := (b.contains_iff h).1 hc
  refine ((b.insertAt p block).contains_iff h).2 ⟨hn, ?_⟩
  rw [insertAt_size]; omega

theorem Issued.insertAt {b : Body} {h : Handle} (hi : b.Issued h) (p : Nat) (block : List Instruction) :
    (b.insertAt p block).Issued h := by
  intro hn
  have := hi hn
  rw [insertAt_size]; omega

theorem mem_insertAt_instructions {b : Body} {p : Nat} {block : List Instruction} {i : Instruction}
    (h : i ∈ (b.insertAt p block).instructions) : i ∈ b.instructions ∨ i ∈ block := by
  obtain ⟨c, hc, rfl⟩ := List.mem_map.1 h
  rw [insertAt_code, List.append_assoc] at hc
  rcases List.mem_append.1 hc with hc | hc
  · exact Or.inl (List.mem_map_of_mem (List.mem_of_mem_take hc))
  · rcases List.mem_append.1 hc with hc | hc
    · exact Or.inr (issue_instructions b block ▸ List.mem_map_of_mem hc)
    · exact Or.inl (List.mem_map_of_mem (List.mem_of_mem_drop hc))

/-- **A block that is put in anywhere keeps a body coherent.** -/
theorem Coherent.insertAt {b : Body} (hb : b.Coherent) (p : Nat) (block : List Instruction) :
    (b.insertAt p block).Coherent := by
  refine ⟨?_, hb.locals, fun c hc h hh => contains_insertAt (hb.clauses c hc h hh) p block⟩
  have hperm : (b.insertAt p block).code.toList.Perm (b.code.toList ++ b.issue block) := by
    rw [insertAt_code, List.append_assoc]
    refine (List.Perm.append_left _ List.perm_append_comm).trans ?_
    rw [← List.append_assoc, List.take_append_drop]
  rw [insertAt_size, List.range_add, ← issue_slots]
  refine (hperm.map _).trans ?_
  rw [List.map_append]
  exact hb.slots.append_right _

/-- **So it keeps a body well-formed**, if its operands name issued instructions. -/
theorem WellFormed.insertAt {b : Body} (hb : b.WellFormed) (p : Nat) (block : List Instruction)
    (hi : ∀ i ∈ block, ∀ t ∈ i.targets, (b.insertAt p block).Issued t) : (b.insertAt p block).WellFormed := by
  refine ⟨hb.toCoherent.insertAt p block, fun i hmem t ht => ?_⟩
  rcases mem_insertAt_instructions hmem with hold | hnew
  · exact (hb.targets i hold t ht).insertAt p block
  · exact hi i hnew t ht

theorem append_eq_insertAt (b : Body) (block : List Instruction) : (b.append block).1 = b.insertAt b.size block := by
  have hcode : b.code.appendList (b.issue block) = (b.insertAt b.size block).code :=
    Array.toList_inj.1 (by simp [insertAt_code, size, ← Array.length_toList])
  simp only [append, hcode, insertAt]

theorem push_eq_insertAt (b : Body) (i : Instruction) : (b.push i).1 = b.insertAt b.size [i] := by
  simp [push, insertAt, size, issue]

theorem insertBefore_ok {b b' : Body} {anchor : Handle} {block : List Instruction} {new : List Handle}
    (h : b.insertBefore anchor block = .ok (b', new)) :
    ∃ p, b.positionOf? anchor = some p ∧ b' = b.insertAt p block ∧ new = b.fresh block.length := by
  simp only [insertBefore] at h
  split at h
  · rename_i p hp
    injection h with h
    injection h with h1 h2
    exact ⟨p, hp, h1.symm, h2.symm⟩
  · cases h

theorem addLocal_ok {b b' : Body} {type : TypeSig} {slot : Local} (h : b.addLocal type = .ok (b', slot)) :
    b.locals.size < 65536 ∧ b' = { b with locals := b.locals.push type } ∧ slot = ⟨.ofNat b.locals.size⟩ := by
  simp only [addLocal] at h
  split at h
  · rename_i hlt
    injection h with h
    injection h with h1 h2
    exact ⟨hlt, h1.symm, h2.symm⟩
  · cases h

theorem addClause_ok {b b' : Body} {c : Clause} (h : b.addClause c = .ok b') :
    (∀ t ∈ c.boundaries, b.contains t = true) ∧ b' = { b with clauses := b.clauses.push c } := by
  simp only [addClause] at h
  split at h
  · cases h
  · rename_i hnone
    injection h with h
    refine ⟨fun t ht => ?_, h.symm⟩
    have := List.find?_eq_none.1 hnone t ht
    simpa using this

theorem Coherent.addLocal {b b' : Body} (hb : b.Coherent) {type : TypeSig} {slot : Local}
    (h : b.addLocal type = .ok (b', slot)) : b'.Coherent := by
  obtain ⟨hlt, rfl, -⟩ := addLocal_ok h
  exact ⟨hb.slots, by simp only [Array.size_push]; omega, hb.clauses⟩

theorem WellFormed.addLocal {b b' : Body} (hb : b.WellFormed) {type : TypeSig} {slot : Local}
    (h : b.addLocal type = .ok (b', slot)) : b'.WellFormed := by
  refine ⟨hb.toCoherent.addLocal h, ?_⟩
  obtain ⟨-, rfl, -⟩ := addLocal_ok h
  exact hb.targets

theorem Coherent.addClause {b b' : Body} (hb : b.Coherent) {c : Clause} (h : b.addClause c = .ok b') :
    b'.Coherent := by
  obtain ⟨hin, rfl⟩ := addClause_ok h
  refine ⟨hb.slots, hb.locals, fun c' hc' => ?_⟩
  rcases Array.mem_push.1 hc' with hold | rfl
  · exact hb.clauses c' hold
  · exact hin

theorem WellFormed.addClause {b b' : Body} (hb : b.WellFormed) {c : Clause} (h : b.addClause c = .ok b') :
    b'.WellFormed := by
  refine ⟨hb.toCoherent.addClause h, ?_⟩
  obtain ⟨-, rfl⟩ := addClause_ok h
  exact hb.targets

/-- a checked insertion is an insertion of code whose targets are all in the body -/
theorem splice_ok {s s' : Splicing} {anchor : Handle} {block : List Instruction} {record : Splice}
    (h : s.insertBefore anchor block = .ok (s', record)) :
    (∀ i ∈ block, Splicing.checkInstruction s.body i = .ok ()) ∧
      ∃ p, s.body.positionOf? anchor = some p ∧ s'.body = s.body.insertAt p block ∧
        record = ⟨anchor, s.body.fresh block.length⟩ ∧ s'.records = s.records ++ [record] := by
  simp only [Splicing.insertBefore] at h
  split at h
  · cases h
  · obtain ⟨_, hcheck, h⟩ := bind_eq_ok.1 h
    obtain ⟨⟨b', new⟩, hins, h⟩ := bind_eq_ok.1 h
    obtain ⟨p, hp, rfl, rfl⟩ := insertBefore_ok hins
    injection h with h
    injection h with h1 h2
    subst h1; subst h2
    exact ⟨forM_eq_ok.1 hcheck, p, hp, rfl, rfl, rfl⟩

/-- a checked insertion of code that passes the check, in front of an instruction of the body, is made -/
theorem splice_eq_ok {s : Splicing} {anchor : Handle} {block : List Instruction} {p : Nat} (hb : s.body.Coherent)
    (hp : s.body.positionOf? anchor = some p) (hcheck : ∀ i ∈ block, Splicing.checkInstruction s.body i = .ok ()) :
    s.insertBefore anchor block =
      .ok (⟨s.body.insertAt p block, s.records ++ [⟨anchor, s.body.fresh block.length⟩]⟩,
        ⟨anchor, s.body.fresh block.length⟩) := by
  have hin : s.body.contains anchor = true := hb.positionOf?_isSome.1 (by rw [hp]; rfl)
  have hforM : forM block (Splicing.checkInstruction s.body) = .ok () := forM_eq_ok.2 hcheck
  have hins : s.body.insertBefore anchor block = .ok (s.body.insertAt p block, s.body.fresh block.length) := by
    simp only [insertBefore, hp]
  simp only [Splicing.insertBefore, hin, Bool.not_true, Bool.false_eq_true, if_false]
  refine bind_eq_ok.2 ⟨(), hforM, bind_eq_ok.2 ⟨_, hins, rfl⟩⟩

/-- an instruction passes the check when its operand fits and names nothing that the body lacks -/
theorem checkInstruction_eq_ok {b : Body} {i : Instruction} :
    Splicing.checkInstruction b i = .ok () ↔
      i.isValid = true ∧ (∀ slot ∈ i.local?, (b.local? slot).isSome = true) ∧
        ∀ t ∈ i.targets, b.contains t = true := by
  have htargets : i.targets.find? (!b.contains ·) = none ↔ ∀ t ∈ i.targets, b.contains t = true := by
    simp [List.find?_eq_none]
  simp only [Splicing.checkInstruction, Instruction.validate, ← htargets]
  cases hv : i.isValid
  · simp [bind, Except.bind]
  · cases hl : i.local? with
    | none => cases List.find? (!b.contains ·) i.targets <;> simp [bind, Except.bind, pure, Except.pure]
    | some slot =>
      cases hs : b.local? slot <;> cases List.find? (!b.contains ·) i.targets <;>
        simp [bind, Except.bind, pure, Except.pure, hs]

/-! ## Drafts -/

/-- what a label stands for is an instruction of the draft, or the anchor -/
theorem handle?_ok {d : Draft} {s : Draft.Site} {label : String} {spot : Draft.Spot} {t : Handle}
    (hspot : d.spot label = .ok spot) (h : s.handle? spot = some t) :
    (∃ k < d.size, t = ⟨s.body, s.first + k⟩) ∨ s.anchor = some t := by
  unfold Draft.spot at hspot
  split at hspot
  · cases hspot
    split at h
    · rename_i hlt
      cases h
      exact Or.inl ⟨_, hlt, rfl⟩
    · exact Or.inr h
  · cases hspot

theorem handle_ok {s : Draft.Site} {label : String} {spot : Draft.Spot} {t : Handle}
    (h : s.handle label spot = .ok t) : s.handle? spot = some t := by
  unfold Draft.Site.handle at h
  split at h
  · cases h
    assumption
  · cases h

theorem target_ok {d : Draft} {s : Draft.Site} {label : String} {t : Handle} (h : d.target s label = .ok t) :
    (∃ k < d.size, t = ⟨s.body, s.first + k⟩) ∨ s.anchor = some t := by
  obtain ⟨spot, hspot, h⟩ := bind_eq_ok.1 h
  exact handle?_ok hspot (handle_ok h)

theorem instruction_targets {d : Draft} {s : Draft.Site} {item : Draft.Item} {i : Instruction}
    (h : d.instruction s item = .ok i) {t : Handle} (ht : t ∈ i.targets) :
    ((∃ k < d.size, t = ⟨s.body, s.first + k⟩) ∨ s.anchor = some t) ∨ item = .ready i := by
  cases item with
  | ready j =>
    injection h with h
    exact Or.inr (h ▸ rfl)
  | jump j label =>
    obtain ⟨handle, hhandle, h⟩ := bind_eq_ok.1 h
    injection h with h
    subst h
    obtain rfl : t = handle := by simpa [Instruction.targets] using ht
    exact Or.inl (target_ok hhandle)
  | switch labels =>
    obtain ⟨handles, hhandles, h⟩ := bind_eq_ok.1 h
    injection h with h
    subst h
    have hmem : t ∈ handles := by simpa [Instruction.targets] using ht
    obtain ⟨label, -, hlabel⟩ := mem_of_mapM hhandles hmem
    exact Or.inl (target_ok hlabel)

theorem resolve_length {d : Draft} {s : Draft.Site} {block : List Instruction} {clauses : List Clause}
    (h : d.resolve s = .ok (block, clauses)) : block.length = d.size := by
  obtain ⟨block', hblock, h⟩ := bind_eq_ok.1 h
  obtain ⟨clauses', -, h⟩ := bind_eq_ok.1 h
  cases h
  simpa [Draft.size] using (mapM_eq_ok.1 hblock).length_eq.symm

/-- where the code of a draft goes: its operands name what the body had issued, or the draft itself -/
theorem resolve_targets {b : Body} {d : Draft} {anchor : Option Handle} {p : Nat} {block : List Instruction}
    {clauses : List Clause} (hanchor : ∀ a ∈ anchor, b.contains a = true)
    (hd : ∀ i, .ready i ∈ d.items → ∀ t ∈ i.targets, b.Issued t)
    (h : d.resolve ⟨b.number, b.size, anchor⟩ = .ok (block, clauses)) :
    ∀ i ∈ block, ∀ t ∈ i.targets, (b.insertAt p block).Issued t := by
  have hlen := resolve_length h
  obtain ⟨block', hblock, h⟩ := bind_eq_ok.1 h
  obtain ⟨clauses', -, h⟩ := bind_eq_ok.1 h
  cases h
  intro i hi t ht
  obtain ⟨item, hitem, hok⟩ := mem_of_mapM hblock hi
  rcases instruction_targets hok ht with (⟨k, hk, rfl⟩ | ha) | rfl
  · intro _
    rw [insertAt_size, hlen]
    exact Nat.add_lt_add_left hk _
  · exact (Issued.of_contains (hanchor t ha)).insertAt p block
  · exact (hd i (by simpa using hitem) t ht).insertAt p block

theorem WellFormed.addClauses {b b' : Body} (hb : b.WellFormed) {clauses : List Clause}
    (h : clauses.foldlM Body.addClause b = .ok b') : b'.WellFormed :=
  foldlM_keeps (fun _ _ _ _ hs hc => hs.addClause hc) hb h

theorem WellFormed.appendDraft {b b' : Body} (hb : b.WellFormed) {d : Draft} {new : List Handle}
    (hd : ∀ i, .ready i ∈ d.items → ∀ t ∈ i.targets, b.Issued t) (h : d.appendTo b = .ok (b', new)) :
    b'.WellFormed := by
  obtain ⟨⟨block, clauses⟩, hres, h⟩ := bind_eq_ok.1 h
  obtain ⟨b'', hfold, h⟩ := bind_eq_ok.1 h
  injection h with h
  injection h with h1 h2
  subst h1
  replace hfold : clauses.foldlM Body.addClause (b.append block).1 = .ok b'' := hfold
  rw [append_eq_insertAt] at hfold
  exact (hb.insertAt _ _ (resolve_targets (by simp) hd hres)).addClauses hfold

theorem WellFormed.insertDraft {b b' : Body} (hb : b.WellFormed) {d : Draft} {anchor : Handle} {new : List Handle}
    (hd : ∀ i, .ready i ∈ d.items → ∀ t ∈ i.targets, b.Issued t) (h : d.insertBefore b anchor = .ok (b', new)) :
    b'.WellFormed := by
  simp only [Draft.insertBefore] at h
  split at h
  · cases h
  · rename_i hc
    obtain ⟨⟨block, clauses⟩, hres, h⟩ := bind_eq_ok.1 h
    obtain ⟨⟨b₁, new₁⟩, hins, h⟩ := bind_eq_ok.1 h
    obtain ⟨p, -, rfl, -⟩ := insertBefore_ok hins
    obtain ⟨b₂, hfold, h⟩ := bind_eq_ok.1 h
    injection h with h
    injection h with h1 h2
    subst h1
    have hanchor : ∀ a ∈ some anchor, b.contains a = true := by simpa using hc
    exact (hb.insertAt _ _ (resolve_targets hanchor hd hres)).addClauses hfold

theorem append_cons (b : Body) (i : Instruction) (block : List Instruction) :
    (b.append (i :: block)).1 = ((b.push i).1.append block).1 := by
  have hissue : b.issue (i :: block) = ⟨b.code.size, i⟩ :: (b.push i).1.issue block := by
    simp [issue, push, List.mapIdx_cons, Nat.add_comm 1, Nat.add_assoc]
  simp [append, hissue, push]

/-- a block without targets can be put behind any code -/
theorem Reachable.append {b : Body} (hb : b.Reachable) {block : List Instruction} (h : ∀ i ∈ block, i.targets = []) :
    (b.append block).1.Reachable := by
  induction block generalizing b with
  | nil => exact hb
  | cons i block ih =>
    rw [append_cons]
    refine ih (hb.push i fun t ht => ?_) fun j hj => h j (List.mem_cons_of_mem i hj)
    rw [h i List.mem_cons_self] at ht
    cases ht

/-- **Every body that the operations build is well-formed.** -/
theorem Reachable.wellFormed {b : Body} (h : b.Reachable) : b.WellFormed := by
  induction h with
  | empty number => exact wellFormed_empty number
  | push _ i hi ih =>
    rw [push_eq_insertAt]
    refine ih.insertAt _ _ fun j hj t ht => ?_
    obtain rfl := List.mem_singleton.1 hj
    exact (hi t ht).insertAt _ _
  | insertBefore _ hi hb ih =>
    obtain ⟨p, -, rfl, -⟩ := insertBefore_ok hb
    exact ih.insertAt p _ fun i hmem t ht => (hi i hmem t ht).insertAt _ _
  | splice _ hs ih =>
    obtain ⟨hcheck, p, -, heq, -⟩ := splice_ok hs
    rw [heq]
    refine ih.insertAt p _ fun i hmem t ht => ?_
    exact (Issued.of_contains ((checkInstruction_eq_ok.1 (hcheck i hmem)).2.2 t ht)).insertAt _ _
  | appendDraft _ hd hb ih => exact ih.appendDraft hd hb
  | insertDraft _ hd hb ih => exact ih.insertDraft hd hb
  | addLocal _ hb ih => exact ih.addLocal hb
  | addClause _ hb ih => exact ih.addClause hb
  | header _ _ _ ih => exact ⟨⟨ih.slots, ih.locals, ih.clauses⟩, ih.targets⟩

end CilGraft.Body

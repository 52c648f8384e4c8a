/-
Checked insertion keeps bodies closed, and it is made as a whole or not at all.

- `Touches`, `ClosedIn`, `Body.Closed`: all that an instruction can refer to is there.
- `touches_iff`: a valid instruction names a slot in one way only, so the check misses none.
- `checkInstruction_iff`: an instruction passes the check if it is closed in the body.
- `insertStepwise`: the insertion with the state that each step leaves. `insertStepwise_eq`: no step that can fail comes
  after one that changes anything.
- `Spliced`: what is different after an insertion. `insertStepwise_closed`: all of it.
-/
import CilGraft.Proofs.Insertion

namespace CilGraft

/-! ## What instructions refer to -/

namespace Instruction

/-- the instruction uses a slot: its operand names it, or its opcode does by itself -/
def Touches (i : Instruction) (slot : Local) : Prop :=
  i.operand = .local slot ∨ i.opcode.implicitLocal? = some slot.index

/-- the operand fits the opcode, and all that the instruction refers to is in the body -/
structure ClosedIn (i : Instruction) (b : Body) : Prop where
  valid : i.validate = .ok ()
  slots : ∀ slot, i.Touches slot → (b.local? slot).isSome = true
  targets : ∀ t ∈ i.targets, b.contains t = true

theorem validate_eq_ok {i : Instruction} : i.validate = .ok () ↔ i.isValid = true := by
  simp [validate]

/-- forms that name a slot by themselves take no operand -/
theorem operandKind_of_implicitLocal {op : Opcode} {n : UInt16} (h : op.implicitLocal? = some n) :
    op.operandKind = .none := by
  cases op <;> first | rfl | cases h

/-- **A valid instruction names a slot in one way only.** -/
theorem touches_iff {i : Instruction} {slot : Local} (hi : i.isValid = true) :
    i.Touches slot ↔ i.local? = some slot := by
  obtain ⟨opcode, operand⟩ := i
  cases operand with
  | «local» slot' =>
    have himplicit : opcode.implicitLocal? ≠ some slot.index := by
      intro h
      simp only [isValid, operandKind_of_implicitLocal h] at hi
      cases hi
    simp only [Touches, local?, himplicit, or_false, Operand.local.injEq, Option.some_inj]
  | _ =>
    simp only [Touches, local?, reduceCtorEq, false_or, Option.map_eq_some_iff]
    constructor
    · intro h
      exact ⟨_, h, rfl⟩
    · rintro ⟨n, hn, rfl⟩
      exact hn

end Instruction

/-- nothing in the body refers to what is not there -/
def Body.Closed (b : Body) : Prop := ∀ i ∈ b.instructions, i.ClosedIn b

variable {b : Body} {i : Instruction} {p : Nat} {block : List Instruction}

/-- what is closed in a body is so when code is put in -/
theorem Instruction.ClosedIn.insertAt (h : i.ClosedIn b) (p : Nat) (block : List Instruction) :
    i.ClosedIn (b.insertAt p block) :=
  ⟨h.valid, h.slots, fun t ht => Body.contains_insertAt (h.targets t ht) p block⟩

/-- **Code that is closed in a closed body can be put in anywhere.** -/
theorem Body.Closed.insertAt (hb : b.Closed) (hblock : ∀ i ∈ block, i.ClosedIn b) : (b.insertAt p block).Closed := by
  intro i hi
  rcases mem_insertAt_instructions hi with hold | hnew
  · exact (hb i hold).insertAt p block
  · exact (hblock i hnew).insertAt p block

namespace Splicing

/-- **The check is for all that an instruction refers to.** -/
theorem checkInstruction_iff : checkInstruction b i = .ok () ↔ i.ClosedIn b := by
  rw [Body.checkInstruction_eq_ok]
  constructor
  · rintro ⟨hvalid, hslots, htargets⟩
    exact ⟨Instruction.validate_eq_ok.2 hvalid, fun slot h => hslots slot ((Instruction.touches_iff hvalid).1 h), htargets⟩
  · rintro ⟨hvalid, hslots, htargets⟩
    have hvalid' := Instruction.validate_eq_ok.1 hvalid
    exact ⟨hvalid', fun slot h => hslots slot ((Instruction.touches_iff hvalid').2 h), htargets⟩

/-! ## Step by step -/

/-- a checked insertion in all steps; a failure leaves the splicing as it is by then -/
def insertStepwise (s : Splicing) (anchor : Handle) (block : List Instruction) :
    Except (Failure Splicing) (Splicing × Splice) := do
  if !s.body.contains anchor then
    throw ⟨.invalidAnchor anchor, s⟩
  block.forM fun i => leaving s (checkInstruction s.body i)
  let (body, inserted) ← leaving s (s.body.insertBefore anchor block)
  let s := { s with body }
  let record := { anchor, inserted }
  let s := { s with records := s.records ++ [record] }
  return (s, record)

variable {s s' : Splicing} {anchor : Handle} {record : Splice}

/-- **An insertion is made as a whole or not at all.** -/
theorem insertStepwise_eq (s : Splicing) (anchor : Handle) (block : List Instruction) :
    s.insertStepwise anchor block = leaving s (s.insertBefore anchor block) := by
  have hchecks : leaving s (block.forM (checkInstruction s.body)) =
      block.forM fun i => leaving s (checkInstruction s.body i) := leaving_forM s _ block
  unfold insertStepwise insertBefore
  split_ifs
  · rfl
  · -- behind the checks only the insertion itself can fail
    rw [leaving_bind, leaving_bind, hchecks]
    rfl

theorem insertBefore_isOk_iff (hb : s.body.Coherent) :
    (∃ out, s.insertBefore anchor block = .ok out) ↔
      s.body.contains anchor = true ∧ ∀ i ∈ block, i.ClosedIn s.body := by
  constructor
  · rintro ⟨⟨s', record⟩, h⟩
    obtain ⟨hcheck, p, hp, -⟩ := Body.splice_ok h
    exact ⟨hb.positionOf?_isSome.1 (by rw [hp]; rfl), fun i hi => checkInstruction_iff.1 (hcheck i hi)⟩
  · rintro ⟨hanchor, hblock⟩
    obtain ⟨p, hp⟩ := Option.isSome_iff_exists.1 (hb.positionOf?_isSome.2 hanchor)
    exact ⟨_, Body.splice_eq_ok hb hp fun i hi => checkInstruction_iff.2 (hblock i hi)⟩

/-! ## What is different afterwards -/

/-- `s'` is `s` with a block just in front of an anchor, and with the record of it -/
structure Spliced (s s' : Splicing) (anchor : Handle) (block : List Instruction) (record : Splice) : Prop where
  order : ∃ before after, s.body.handles = before ++ anchor :: after ∧
    s'.body.handles = before ++ record.inserted ++ anchor :: after
  block_named : record.inserted.map s'.body.get? = block.map some
  block_new : ∀ h ∈ record.inserted, s.body.contains h = false
  anchor_recorded : record.anchor = anchor
  recorded : s'.records = s.records ++ [record]
  counted : s'.insertedCount = s.insertedCount + block.length
  instructions_kept : ∀ h, s.body.contains h = true → s'.body.get? h = s.body.get? h
  /-- locals, clauses and all else but the code are the same -/
  rest_kept : s'.body = { s.body with code := s'.body.code }
  closed : s.body.Closed → s'.body.Closed

/-- the handles from the anchor on -/
theorem drop_handles (h : b.handleAt? p = some anchor) : b.handles.drop p = anchor :: b.handles.drop (p + 1) := by
  have hget : b.handles[p]? = some anchor := by
    rw [Body.handles, List.getElem?_map, Array.getElem?_toList]
    exact h
  obtain ⟨hlt, hanchor⟩ := List.getElem?_eq_some_iff.1 hget
  rw [List.drop_eq_getElem_cons hlt, hanchor]

theorem spliced_of_ok (hb : s.body.Coherent) (h : s.insertBefore anchor block = .ok (s', record)) :
    Spliced s s' anchor block record := by
  obtain ⟨hcheck, p, hp, hbody, rfl, hrecords⟩ := Body.splice_ok h
  have hle := (hb.lt_size_of_positionOf? hp).le
  have hdrop := drop_handles (hb.positionOf?_eq_some.1 hp)
  refine
    { order := ⟨s.body.handles.take p, s.body.handles.drop (p + 1), ?_, ?_⟩
      block_named := ?_
      block_new := fun h hh => by simpa using Body.not_contains_fresh hh
      anchor_recorded := rfl
      recorded := hrecords
      counted := ?_
      instructions_kept := fun h hh => ?_
      rest_kept := ?_
      closed := fun hclosed => ?_ }
  · rw [← hdrop, List.take_append_drop]
  · rw [← hdrop, hbody]
    exact Body.insertAt_handles s.body p block
  · rw [hbody]
    exact Body.insertAt_map_get?_fresh hb hle
  · simp [insertedCount, hrecords, Body.fresh_length]
  · rw [hbody]
    exact Body.insertAt_get? hb hle hh
  · rw [hbody]
    rfl
  · rw [hbody]
    exact hclosed.insertAt fun i hi => checkInstruction_iff.1 (hcheck i hi)

/-- **Checked insertion is exact, made as a whole, and keeps bodies closed.** It succeeds if the anchor is in the body and
the block is closed in it. If it fails, body and records are as they were; if it succeeds, the block is in front of the
anchor, all else is where it was, and a closed body stays closed. Every body that operations build is coherent
(`Body.Reachable.wellFormed`), even with operands from elsewhere (`Bodies.run_seen`). -/
theorem insertStepwise_closed (s : Splicing) (hb : s.body.Coherent) (anchor : Handle) (block : List Instruction) :
    s.insertStepwise anchor block = leaving s (s.insertBefore anchor block) ∧
      ((∃ out, s.insertStepwise anchor block = .ok out) ↔
        s.body.contains anchor = true ∧ ∀ i ∈ block, i.ClosedIn s.body) ∧
      (∀ f, s.insertStepwise anchor block = .error f → f.state = s) ∧
      ∀ s' record, s.insertStepwise anchor block = .ok (s', record) → Spliced s s' anchor block record := by
  simp only [insertStepwise_eq, leaving_eq_ok, leaving_eq_error, insertBefore_isOk_iff hb, true_and]
  exact ⟨fun f h => h.2, fun s' record h => spliced_of_ok hb h⟩

/-- a block that uses the only slot and jumps into the body is put in; one that uses the next slot is refused for its
last instruction, and so is an anchor of another body -/
theorem insertStepwise_closed_oneSlot :
    let code := (((Body.empty 1).push { opcode := .nop }).1.push { opcode := .ret }).1
    let s : Splicing := { body := { code with locals := #[.int32] } }
    let block : List Instruction := [⟨.ldcI40, .none⟩, ⟨.stloc0, .none⟩, ⟨.br, .target ⟨1, 0⟩⟩]
    s.body.Coherent ∧ s.body.Closed ∧
      (∃ s' record, s.insertStepwise ⟨1, 1⟩ block = .ok (s', record) ∧ s'.body.Closed ∧ s'.insertedCount = 3) ∧
      (∃ f, s.insertStepwise ⟨1, 1⟩ [⟨.ldcI40, .none⟩, ⟨.stloc1, .none⟩] = .error f ∧ f.state = s) ∧
      ∃ f, s.insertStepwise ⟨2, 1⟩ block = .error f ∧ f.state = s := by
  intro code s block
  have hreachable : s.body.Reachable := by
    have h := @Body.Reachable.addLocal code _ .int32 _ ?_ rfl
    · exact h
    · exact .push (.push (.empty 1) _ (by simp [Instruction.targets])) _ (by simp [Instruction.targets])
  have hcoherent := hreachable.wellFormed.toCoherent
  have hclosed : s.body.Closed := by
    have hall : ∀ i ∈ [(⟨.nop, .none⟩ : Instruction), ⟨.ret, .none⟩], checkInstruction s.body i = .ok () := by decide
    exact fun i hi => checkInstruction_iff.1 (hall i hi)
  have hblock : ∀ i ∈ block, i.ClosedIn s.body := by
    have hall : ∀ i ∈ block, checkInstruction s.body i = .ok () := by decide
    exact fun i hi => checkInstruction_iff.1 (hall i hi)
  obtain ⟨-, hok, -, hspliced⟩ := insertStepwise_closed s hcoherent ⟨1, 1⟩ block
  obtain ⟨⟨s', record⟩, hdone⟩ := hok.2 ⟨by decide, hblock⟩
  have hchanged := hspliced s' record hdone
  refine ⟨hcoherent, hclosed, ⟨s', record, hdone, hchanged.closed hclosed, hchanged.counted⟩, ?_, ?_⟩
  · obtain ⟨-, -, hstate, -⟩ := insertStepwise_closed s hcoherent ⟨1, 1⟩ [⟨.ldcI40, .none⟩, ⟨.stloc1, .none⟩]
    exact ⟨_, rfl, hstate _ rfl⟩
  · obtain ⟨-, -, hstate, -⟩ := insertStepwise_closed s hcoherent ⟨2, 1⟩ block
    exact ⟨_, rfl, hstate _ rfl⟩

end Splicing

end CilGraft

/-
Short forms lose nothing.

An instruction that loads, stores or gives the address of a slot has up to three forms: one for each of the first slots,
one with a byte for the slot, and one with two. A constant has a form for each of three values, one with a byte, and one
with four.

- `SlotUse`, `SlotUse.Names`: the three families, and that an instruction belongs to one with a slot.
- `SlotUse.act`: what is done with the slot. `SlotUse.Names.step`: every form does this and no more.
- `SlotUse.Names.size_cases`, `SlotUse.shortest_size`: how long the forms are, and how long the chosen one is.
- `Instruction.constant?`, `step_constant`, `constant_size_cases`, `loadInt32_size`: the same for constants.
- `shortest_forms`: the chosen form is one of its family, and none of them is shorter.
-/
import CilGraft.Body.Draft
import CilGraft.Proofs.CheckedInsertion
import CilGraft.Proofs.MachineRuns

namespace CilGraft

variable {env : Machine.Surroundings} {position : Nat} {m : Machine} {l : Local} {i : Instruction} {n : Int32}

/-- the size of a valid instruction is that of its opcode and its kind of operand -/
theorem Instruction.size_of_valid (h : i.isValid = true) (hkind : i.opcode.operandKind ≠ .switch) :
    i.size = i.opcode.size + i.opcode.operandKind.size?.getD 0 := by
  obtain ⟨op, operand⟩ := i
  cases operand with
  | switch handles =>
    simp only at hkind
    cases hop : op.operandKind <;> simp_all [Instruction.isValid]
  | _ => rfl

/-! ## Slots -/

/-- what an instruction is to do with a slot -/
inductive SlotUse where
  | load
  | store
  | address
deriving DecidableEq, Repr

namespace SlotUse

/-- the forms, short ones first -/
def opcodes : SlotUse → List Opcode
  | load => [.ldloc0, .ldloc1, .ldloc2, .ldloc3, .ldlocS, .ldloc]
  | store => [.stloc0, .stloc1, .stloc2, .stloc3, .stlocS, .stloc]
  | address => [.ldlocaS, .ldloca]

/-- the form that is chosen for a slot -/
def shortest : SlotUse → Local → Instruction
  | load => .loadLocal
  | store => .storeLocal
  | address => .loadLocalAddress

/-- The slot is loaded, stored to, or its address is given. A slot that does not exist is an error, which is found when
the value that is to be stored is off the stack. -/
def act (use : SlotUse) (position : Nat) (l : Local) (m : Machine) : Except (Failure Machine) Machine :=
  match use with
  | load =>
    match m.local? l with
    | some value => .ok { m with stack := value :: m.stack }
    | none => .error ⟨.localNotFound l.text, m⟩
  | store =>
    match m.stack with
    | [] => .error ⟨.stackUnderflow position 1 0, m⟩
    | value :: rest =>
      if l.index.toNat < m.locals.size then .ok { m.withLocal l value with stack := rest }
      else .error ⟨.localNotFound l.text, { m with stack := rest }⟩
  | address =>
    match m.local? l with
    | some _ => .ok { m with stack := .address l :: m.stack }
    | none => .error ⟨.localNotFound l.text, m⟩

/-- a valid instruction of the family that names the slot -/
structure Names (use : SlotUse) (l : Local) (i : Instruction) : Prop where
  valid : i.validate = .ok ()
  opcode : i.opcode ∈ use.opcodes
  slot : i.local? = some l

variable {use : SlotUse}

/-- what the machine makes of any form -/
def plan (use : SlotUse) (l : Local) (m : Machine) : Machine.Plan :=
  match use with
  | load => .give (m.readLocal l)
  | store => ⟨1, fun values => .ok (.store l (values.headD .void))⟩
  | address => .give ((fun _ => Value.address l) <$> m.readLocal l)

theorem plan_eq (hop : i.opcode ∈ use.opcodes) (hl : i.local? = some l) : m.plan env i = .ok (use.plan l m) := by
  have hslot : Machine.slotOf i = .ok l := by simp only [Machine.slotOf, hl]
  obtain ⟨op, operand⟩ := i
  cases use with
  | load | store =>
    simp only [opcodes, List.mem_cons, List.not_mem_nil, or_false] at hop
    rcases hop with rfl | rfl | rfl | rfl | rfl | rfl <;> simp only [Machine.plan, hslot] <;> rfl
  | address =>
    simp only [opcodes, List.mem_cons, List.not_mem_nil, or_false] at hop
    rcases hop with rfl | rfl <;> simp only [Machine.plan, hslot] <;> rfl

/-- **Every form does the same with its slot.** -/
theorem Names.step (h : use.Names l i) : m.step env position i = use.act position l m := by
  obtain ⟨locals, args, stack, returned⟩ := m
  simp only [Machine.step, plan_eq h.opcode h.slot, leaving_ok, act]
  cases use with
  | load | address =>
    simp only [plan, Machine.readLocal]
    cases Machine.local? _ l <;> rfl
  | store =>
    cases stack with
    | nil => rfl
    | cons value rest =>
      simp only [plan, Machine.takeOperands, Machine.perform, Machine.setLocal, bind, Except.bind, List.headD_cons]
      by_cases hlt : l.index.toNat < locals.size
      · simp [hlt, Machine.withLocal]
      · simp [hlt]

/-- **No other slot is read or written**: it does not matter what is in one, and it stays there. -/
theorem act_withLocal {l' : Local} (h : l' ≠ l) (value : Value) : use.act position l (m.withLocal l' value) =
    ((use.act position l m).map (·.withLocal l' value)).mapError
      fun f => { f with state := f.state.withLocal l' value } := by
  have hindex : l.index.toNat ≠ l'.index.toNat := by
    intro heq
    obtain ⟨index⟩ := l
    obtain ⟨index'⟩ := l'
    exact h (congrArg Local.mk (UInt16.toNat_inj.1 heq).symm)
  have hlocal : (m.withLocal l' value).local? l = m.local? l := Machine.withLocal_local?_of_ne hindex
  cases use with
  | load | address =>
    simp only [act, hlocal]
    cases m.local? l <;> rfl
  | store =>
    obtain ⟨locals, args, stack, returned⟩ := m
    cases stack with
    | nil => rfl
    | cons top rest =>
      simp only [act, Machine.withLocal, Array.size_setIfInBounds]
      split_ifs
      · simp only [Except.map, Except.mapError, Array.setIfInBounds_comm _ _ hindex]
      · rfl

/-! ## The chosen form -/

theorem names_implicit {op : Opcode} (hop : op ∈ use.opcodes) (hkind : op.operandKind = .none)
    (hslot : op.implicitLocal? = some l.index) : use.Names l { opcode := op } := by
  refine ⟨Instruction.validate_eq_ok.2 ?_, hop, ?_⟩
  · simp only [Instruction.isValid, hkind]
  · simp only [Instruction.local?, hslot, Option.map_some]

theorem names_short {op : Opcode} (hop : op ∈ use.opcodes) (hkind : op.operandKind = .localShort)
    (hslot : l.index ≤ 255) : use.Names l ⟨op, .local l⟩ := by
  refine ⟨Instruction.validate_eq_ok.2 ?_, hop, rfl⟩
  simp only [Instruction.isValid, hkind, hslot, decide_true]

theorem names_long {op : Opcode} (hop : op ∈ use.opcodes) (hkind : op.operandKind = .local) :
    use.Names l ⟨op, .local l⟩ := by
  refine ⟨Instruction.validate_eq_ok.2 ?_, hop, rfl⟩
  simp only [Instruction.isValid, hkind]

/-- **The form that is chosen is one of its family.** -/
theorem shortest_names (use : SlotUse) (l : Local) : use.Names l (use.shortest l) := by
  cases use with
  | load | store =>
    simp only [shortest, Instruction.loadLocal, Instruction.storeLocal]
    split_ifs with h0 h1 h2 h3 hshort
    · exact names_implicit (by decide) rfl (h0 ▸ rfl)
    · exact names_implicit (by decide) rfl (h1 ▸ rfl)
    · exact names_implicit (by decide) rfl (h2 ▸ rfl)
    · exact names_implicit (by decide) rfl (h3 ▸ rfl)
    · exact names_short (by decide) rfl hshort
    · exact names_long (by decide) rfl
  | address =>
    simp only [shortest, Instruction.loadLocalAddress]
    split_ifs with hshort
    · exact names_short (by decide) rfl hshort
    · exact names_long (by decide) rfl

/-! ## How long the forms are -/

theorem implicitLocal_le {op : Opcode} {k : UInt16} (h : op.implicitLocal? = some k) : k ≤ 3 := by
  cases op <;> cases h <;> decide

theorem le_three_iff {k : UInt16} : k ≤ 3 ↔ k = 0 ∨ k = 1 ∨ k = 2 ∨ k = 3 := by
  simp only [UInt16.le_iff_toNat_le, ← UInt16.toNat_inj, UInt16.reduceToNat]
  omega

/-- an opcode names a slot by itself, or takes one of the two kinds of operand -/
theorem opcode_cases {op : Opcode} (hop : op ∈ use.opcodes) :
    (op.operandKind = .none ∧ op.size = 1 ∧ use ≠ address) ∨ (op.operandKind = .localShort ∧ op.size = 1) ∨
      (op.operandKind = .local ∧ op.size = 2) := by
  revert op
  cases use <;> decide

/-- **A form takes one byte, two or four**, and short ones are there for small slots only. -/
theorem Names.size_cases (h : use.Names l i) :
    (i.size = 1 ∧ use ≠ address ∧ l.index ≤ 3) ∨ (i.size = 2 ∧ l.index ≤ 255) ∨ i.size = 4 := by
  have hvalid := Instruction.validate_eq_ok.1 h.valid
  have htouches := (Instruction.touches_iff hvalid).2 h.slot
  rcases opcode_cases h.opcode with ⟨hkind, hop, huse⟩ | ⟨hkind, hop⟩ | ⟨hkind, hop⟩
  · have hsize := Instruction.size_of_valid hvalid (by rw [hkind]; decide)
    rw [hop, hkind] at hsize
    rcases htouches with hoperand | himplicit
    · simp [Instruction.isValid, hoperand, hkind] at hvalid
    · exact Or.inl ⟨hsize, huse, implicitLocal_le himplicit⟩
  · have hsize := Instruction.size_of_valid hvalid (by rw [hkind]; decide)
    rw [hop, hkind] at hsize
    rcases htouches with hoperand | himplicit
    · simp only [Instruction.isValid, hoperand, hkind, decide_eq_true_eq] at hvalid
      exact Or.inr (Or.inl ⟨hsize, hvalid⟩)
    · rw [Instruction.operandKind_of_implicitLocal himplicit] at hkind
      cases hkind
  · have hsize := Instruction.size_of_valid hvalid (by rw [hkind]; decide)
    rw [hop, hkind] at hsize
    exact Or.inr (Or.inr hsize)

theorem shortest_size (use : SlotUse) (l : Local) : (use.shortest l).size =
    if use ≠ address ∧ l.index ≤ 3 then 1 else if l.index ≤ 255 then 2 else 4 := by
  cases use with
  | load | store =>
    simp only [shortest, Instruction.loadLocal, Instruction.storeLocal, le_three_iff]
    split_ifs <;> simp_all <;> rfl
  | address =>
    simp only [shortest, Instruction.loadLocalAddress]
    split_ifs <;> simp_all <;> rfl

/-- **No form of the family is shorter than the one that is chosen.** -/
theorem Names.shortest_le (h : use.Names l i) : (use.shortest l).size ≤ i.size := by
  rw [shortest_size]
  rcases h.size_cases with ⟨hsize, huse, hslot⟩ | ⟨hsize, hslot⟩ | hsize
  · rw [if_pos ⟨huse, hslot⟩, hsize]
  · rw [if_pos hslot, hsize]
    split_ifs <;> decide
  · rw [hsize]
    split_ifs <;> decide

end SlotUse

/-! ## Constants -/

namespace Instruction

/-- the constant of an instruction that loads a 32-bit integer -/
def constant? (i : Instruction) : Option Int32 :=
  match i.opcode, i.operand with
  | .ldcI4M1, _ => some (-1)
  | .ldcI40, _ => some 0
  | .ldcI41, _ => some 1
  | .ldcI4S, .immediate (.int8 value) => some value.toInt32
  | .ldcI4, .immediate (.int32 value) => some value
  | _, _ => none

/-- **Every form puts its constant onto the stack.** -/
theorem step_constant (h : i.constant? = some n) :
    m.step env position i = .ok { m with stack := .int32 n :: m.stack } := by
  have hplan : m.plan env i = .ok (.give (.ok (.int32 n))) := by
    obtain ⟨op, operand⟩ := i
    unfold constant? at h
    split at h <;> cases h <;> simp_all only <;> rfl
  simp only [Machine.step, hplan, leaving_ok]
  rfl

/-- a constant that fits a byte is read back from it -/
theorem toInt8_toInt32 (h : -128 ≤ n ∧ n ≤ 127) : n.toInt8.toInt32 = n := by
  have hlow : -128 ≤ n.toInt := by simpa using Int32.le_iff_toInt_le.1 h.1
  have hhigh : n.toInt ≤ 127 := by simpa using Int32.le_iff_toInt_le.1 h.2
  apply Int32.toInt_inj.1
  rw [Int8.toInt_toInt32, Int32.toInt_toInt8, Int.bmod_def]
  split_ifs <;> omega

theorem toInt32_bounds (value : Int8) : -128 ≤ value.toInt32 ∧ value.toInt32 ≤ 127 := by
  have hlow := value.le_toInt
  have hhigh := value.toInt_lt
  simp only [Int32.le_iff_toInt_le, Int8.toInt_toInt32, Int32.reduceToInt]
  omega

/-- **The form that is chosen is valid and has the constant.** -/
theorem loadInt32_constant (n : Int32) :
    (loadInt32 n).validate = .ok () ∧ (loadInt32 n).constant? = some n := by
  unfold loadInt32
  split_ifs with hm h0 h1 hshort
  · exact ⟨rfl, hm ▸ rfl⟩
  · exact ⟨rfl, h0 ▸ rfl⟩
  · exact ⟨rfl, h1 ▸ rfl⟩
  · exact ⟨rfl, congrArg some (toInt8_toInt32 hshort)⟩
  · exact ⟨rfl, rfl⟩

theorem loadInt32_size (n : Int32) : (loadInt32 n).size =
    if n = -1 ∨ n = 0 ∨ n = 1 then 1 else if -128 ≤ n ∧ n ≤ 127 then 2 else 5 := by
  unfold loadInt32
  split_ifs <;> simp_all <;> rfl

/-- **A constant takes one byte, two or five**, and short forms are there for small ones only. -/
theorem constant_size_cases (hvalid : i.validate = .ok ()) (h : i.constant? = some n) :
    (i.size = 1 ∧ (n = -1 ∨ n = 0 ∨ n = 1)) ∨ (i.size = 2 ∧ -128 ≤ n ∧ n ≤ 127) ∨ i.size = 5 := by
  have hsize : ∀ op, i.opcode = op → op.operandKind ≠ .switch → i.size = op.size + op.operandKind.size?.getD 0 := by
    rintro op rfl hkind
    exact size_of_valid (validate_eq_ok.1 hvalid) hkind
  unfold constant? at h
  split at h
  · rename_i hop
    cases h
    exact Or.inl ⟨hsize _ hop (by decide), Or.inl rfl⟩
  · rename_i hop
    cases h
    exact Or.inl ⟨hsize _ hop (by decide), Or.inr (Or.inl rfl)⟩
  · rename_i hop
    cases h
    exact Or.inl ⟨hsize _ hop (by decide), Or.inr (Or.inr rfl)⟩
  · rename_i value hop _
    cases h
    exact Or.inr (Or.inl ⟨hsize _ hop (by decide), toInt32_bounds value⟩)
  · rename_i hop _
    exact Or.inr (Or.inr (hsize _ hop (by decide)))
  · cases h

/-- **No form is shorter than the one that is chosen.** -/
theorem loadInt32_size_le (hvalid : i.validate = .ok ()) (h : i.constant? = some n) : (loadInt32 n).size ≤ i.size := by
  rw [loadInt32_size]
  rcases constant_size_cases hvalid h with ⟨hsize, hsmall⟩ | ⟨hsize, hbyte⟩ | hsize
  · rw [if_pos hsmall, hsize]
  · rw [if_pos hbyte, hsize]
    split_ifs <;> decide
  · rw [hsize]
    split_ifs <;> decide

end Instruction

/-! ## Both -/

/-- a valid instruction is put behind a draft as it is -/
theorem Draft.emit_eq (d : Draft) (h : i.validate = .ok ()) :
    d.emit i = .ok { d with items := d.items.push (.ready i) } := by
  simp only [Draft.emit, h]
  rfl

/-- **Short forms lose nothing.** For every 32-bit constant, one valid instruction is written, which puts the constant
onto the stack of any machine, and no valid instruction that loads it is shorter. For every slot and each of the three
uses of slots, one valid instruction is written, which names the slot and makes of it what the use says, also where the
slot or the operand is missing; it has to do with no other slot, and no valid instruction of the family that names the
slot is shorter. -/
theorem shortest_forms :
    (∀ n : Int32,
      (∀ d : Draft, d.emit (.loadInt32 n) = .ok { d with items := d.items.push (.ready (.loadInt32 n)) }) ∧
      (Instruction.loadInt32 n).validate = .ok () ∧
      (∀ env position (m : Machine), m.step env position (.loadInt32 n) = .ok { m with stack := .int32 n :: m.stack }) ∧
      ∀ i : Instruction, i.validate = .ok () → i.constant? = some n → (Instruction.loadInt32 n).size ≤ i.size) ∧
    ∀ (use : SlotUse) (l : Local),
      (∀ d : Draft, d.emit (use.shortest l) = .ok { d with items := d.items.push (.ready (use.shortest l)) }) ∧
      (use.shortest l).validate = .ok () ∧ (use.shortest l).local? = some l ∧
      (∀ env position (m : Machine), m.step env position (use.shortest l) = use.act position l m) ∧
      (∀ position (m : Machine) l' value, l' ≠ l → use.act position l (m.withLocal l' value) =
        ((use.act position l m).map (·.withLocal l' value)).mapError
          fun f => { f with state := f.state.withLocal l' value }) ∧
      ∀ i, use.Names l i → (use.shortest l).size ≤ i.size := by
  refine ⟨fun n => ?_, fun use l => ?_⟩
  · obtain ⟨hvalid, hconstant⟩ := Instruction.loadInt32_constant n
    exact ⟨fun d => d.emit_eq hvalid, hvalid, fun env position m => Instruction.step_constant hconstant,
      fun i => Instruction.loadInt32_size_le⟩
  · have hnames := use.shortest_names l
    exact ⟨fun d => d.emit_eq hnames.valid, hnames.valid, hnames.slot, fun env position m => hnames.step,
      fun position m l' value hne => SlotUse.act_withLocal hne value, fun i => SlotUse.Names.shortest_le⟩

/-- on both sides of a boundary: a constant that just fits a byte, and the last slot that does -/
theorem shortest_forms_boundary :
    let wide : Instruction := ⟨.ldcI4, .immediate (.int32 (-128))⟩
    let long : Instruction := ⟨.stloc, .local ⟨255⟩⟩
    let machine : Machine := { locals := .replicate 257 .void, stack := [.int32 1] }
    wide.validate = .ok () ∧ wide.constant? = some (-128) ∧ (Instruction.loadInt32 (-128)).size ≤ wide.size ∧
      SlotUse.store.Names ⟨255⟩ long ∧ (SlotUse.store.shortest ⟨255⟩).size ≤ long.size ∧
      (⟨256⟩ : Local) ≠ ⟨255⟩ ∧ SlotUse.store.act 0 ⟨255⟩ (machine.withLocal ⟨256⟩ .null) =
        ((SlotUse.store.act 0 ⟨255⟩ machine).map (·.withLocal ⟨256⟩ .null)).mapError
          fun f => { f with state := f.state.withLocal ⟨256⟩ .null } := by
  intro wide long machine
  have hlong : SlotUse.store.Names ⟨255⟩ long := ⟨rfl, by decide, rfl⟩
  have hne : (⟨256⟩ : Local) ≠ ⟨255⟩ := by decide
  obtain ⟨hconstants, hslots⟩ := shortest_forms
  obtain ⟨-, -, -, hwide⟩ := hconstants (-128)
  obtain ⟨-, -, -, -, hother, hleast⟩ := hslots .store ⟨255⟩
  exact ⟨rfl, rfl, hwide wide rfl rfl, hlong, hleast long hlong, hne, hother 0 machine ⟨256⟩ .null hne⟩

example : ([3, 4, 255, 256].map fun n => (Instruction.loadLocal ⟨n⟩).size) = [1, 2, 2, 4] := by decide

end CilGraft

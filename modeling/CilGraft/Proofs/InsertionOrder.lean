/-
Two blocks in front of two anchors: the order in which they are put there does not matter.

- `exchange`, `Body.renumber`: the slots that the instructions of the two blocks have when they come in the other
  order, and a body with its slots numbered anew.
- `insertAt_insertAt_code`: the code with both blocks, as the old code with each block in front of its anchor.
- `insertAt_exchange`: the two orders give the same body up to `exchange`.
- `positionOf?_renumber`, `positionOf?_of_issued`: a handle is where its new number is, and the old handles keep theirs.
- `Code.Alike`, `analyze_congr`: the stack analysis reads of the handles only the positions of those that operands and
  clauses name.
- `SameUpToSlots`: what two bodies have in common that differ in new slots. `insertBefore_comm`: the two orders give
  such bodies, from every body that can be built.
-/
import CilGraft.Proofs.Insertion
import CilGraft.Proofs.WalkExact

namespace CilGraft

/-! ## The analysis reads positions only -/

namespace Stack

/-- the same instructions and clauses, and the same positions of all that they name -/
structure Code.Alike (code code' : Code) : Prop where
  instructions : code'.instructions = code.instructions
  clauses : code'.clauses = code.clauses
  targets : ∀ i ∈ code.instructions, ∀ t ∈ i.targets, code'.position? t = code.position? t
  boundaries : ∀ clause ∈ code.clauses, ∀ t ∈ clause.boundaries, code'.position? t = code.position? t

namespace Code.Alike

variable {code code' : Code} {c : Context}

theorem locate {h : Handle} (hh : code'.position? h = code.position? h) : code'.locate h = code.locate h := by
  simp only [Code.locate, hh]

variable (ha : Alike code code')
include ha

theorem clauseEntries {clause : Clause} (hc : clause ∈ code.clauses) :
    code'.clauseEntries clause = code.clauseEntries clause := by
  have hhandler : code'.locate clause.handlerStart = code.locate clause.handlerStart :=
    locate (ha.boundaries clause hc _ (by simp [Clause.boundaries]))
  simp only [Code.clauseEntries, hhandler]
  cases hf : clause.filterStart with
  | none => rfl
  | some f =>
    have hfilter : code'.locate f = code.locate f :=
      locate (ha.boundaries clause hc _ (by simp [Clause.boundaries, hf]))
    simp only [hfilter]

theorem entries : code'.entries = code.entries := by
  have hclauses : code.clauses.mapM code'.clauseEntries = code.clauses.mapM code.clauseEntries :=
    mapM_congr fun _ hc => ha.clauseEntries hc
  simp only [Code.entries, ha.instructions, ha.clauses, hclauses]

theorem visit {i : Instruction} (hi : i ∈ code.instructions) (a : Arrival) :
    code'.visit c i a = code.visit c i a := by
  have htargets : i.targets.mapM code'.locate = i.targets.mapM code.locate :=
    mapM_congr fun t ht => locate (ha.targets i hi t ht)
  have hnext : ∀ after, code'.fallThrough a.position i after = code.fallThrough a.position i after := by
    intro after
    simp only [Code.fallThrough, ha.instructions]
  simp only [Code.visit, htargets, hnext]

theorem step (w : Walk) : w.step code' c = w.step code c := by
  obtain ⟨depths, pending, peak⟩ := w
  cases pending with
  | nil => rfl
  | cons a pending =>
    simp only [Walk.step, ha.instructions]
    cases hi : code.instructions[a.position]? with
    | none => rfl
    | some i => simp only [ha.visit (Array.mem_of_getElem? hi)]

theorem run (w : Walk) : w.run code' c = w.run code c := by
  fun_induction Walk.run code c w with
  | case1 w w' hs => exact Walk.run_of_done ((ha.step w).trans hs)
  | case2 w e hs => exact Walk.run_of_failed ((ha.step w).trans hs)
  | case3 w w' hs ih => exact Walk.run_of_more ((ha.step w).trans hs) ih

theorem analyze (c : Context) : code'.analyze c = code.analyze c := by
  simp only [Code.analyze, ha.entries, ha.instructions, ha.run]

end Code.Alike

/-- **The analysis does not see slots**: bodies with the same instructions and clauses that have all that is named in
the same places get the same report, or fail alike. -/
theorem analyze_congr {b b' : Body} (hb : b.WellFormed) (hb' : b'.WellFormed) (hcode : b'.instructions = b.instructions)
    (hclauses : b'.clauses = b.clauses)
    (htargets : ∀ i ∈ b.instructions, ∀ t ∈ i.targets, b'.positionOf? t = b.positionOf? t)
    (hboundaries : ∀ clause ∈ b.clauses, ∀ t ∈ clause.boundaries, b'.positionOf? t = b.positionOf? t) (c : Context) :
    analyze c b' = analyze c b := by
  have hmem : ∀ i, i ∈ (Code.ofBody b).instructions → i ∈ b.instructions := by
    intro i hi
    simpa [Code.ofBody, Body.instructions] using hi
  have halike : Code.Alike (Code.ofBody b) (Code.ofBody b') := by
    refine ⟨?_, ?_, fun i hi t ht => ?_, fun clause hc t ht => ?_⟩
    · exact Array.toList_inj.1 (by simpa [Code.ofBody, Body.instructions] using hcode)
    · simp only [Code.ofBody, hclauses]
    · rw [ofBody_position? hb, ofBody_position? hb', htargets i (hmem i hi) t ht]
    · rw [ofBody_position? hb, ofBody_position? hb', hboundaries clause (Array.mem_toList_iff.1 hc) t ht]
  exact halike.analyze c

end Stack

/-! ## Slots -/

/-- Two blocks, of `n` and then of `k` instructions, came behind the first `size` slots. This is the slot that the
instruction of a slot has when the blocks come in the other order. -/
def exchange (size n k slot : Nat) : Nat :=
  if slot < size then slot else if slot < size + n then slot + k else slot - n

theorem exchange_of_lt {size n k slot : Nat} (h : slot < size) : exchange size n k slot = slot := if_pos h

/-- the first block comes behind the second one -/
theorem exchange_first {size n k j : Nat} (hj : j < n) : exchange size n k (size + j) = size + k + j := by
  rw [exchange, if_neg (by omega), if_pos (by omega)]
  omega

/-- the second block comes behind the old slots -/
theorem exchange_second (size n k j : Nat) : exchange size n k (size + n + j) = size + j := by
  rw [exchange, if_neg (by omega), if_neg (by omega)]
  omega

def Placed.renumber (σ : Nat → Nat) (c : Placed) : Placed := ⟨σ c.slot, c.instruction⟩

def Handle.renumber (σ : Nat → Nat) (h : Handle) : Handle := ⟨h.body, σ h.slot⟩

namespace Body

/-- the same body, with other numbers for its slots -/
def renumber (σ : Nat → Nat) (b : Body) : Body := { b with code := b.code.map (·.renumber σ) }

variable {b b' : Body} {σ : Nat → Nat} {block block₁ block₂ : List Instruction} {a₁ a₂ : Handle} {p p₁ p₂ : Nat}

@[simp] theorem renumber_instructions (σ : Nat → Nat) (b : Body) :
    (b.renumber σ).instructions = b.instructions := by
  simp [instructions, renumber, Placed.renumber, Function.comp_def]

theorem renumber_handleAt? (σ : Nat → Nat) (b : Body) (p : Nat) :
    (b.renumber σ).handleAt? p = (b.handleAt? p).map (·.renumber σ) := by
  simp only [handleAt?, renumber, Array.getElem?_map, Option.map_map]
  rfl

/-- a handle is where its new number is -/
theorem positionOf?_renumber (hb : b.Coherent) (hb' : (b.renumber σ).Coherent) {h : Handle}
    (hc : b.contains h = true) : (b.renumber σ).positionOf? (h.renumber σ) = b.positionOf? h := by
  obtain ⟨q, hq⟩ := Option.isSome_iff_exists.1 (hb.positionOf?_isSome.2 hc)
  rw [hq, hb'.positionOf?_eq_some, renumber_handleAt?, hb.positionOf?_eq_some.1 hq]
  rfl

/-- a block with the next slots of one body is, with other numbers, the block with the next slots of another -/
theorem issue_renumber (h : ∀ k < block.length, σ (b.size + k) = b'.size + k) :
    (b.issue block).map (·.renumber σ) = b'.issue block := by
  refine List.ext_getElem (by simp) fun k hk _ => ?_
  have hlt : k < block.length := by simpa using hk
  simp only [issue, List.getElem_map, List.getElem_mapIdx]
  exact congrArg (Placed.mk · _) (h k hlt)

theorem fresh_renumber {n : Nat} (hn : b'.number = b.number) (h : ∀ k < n, σ (b.size + k) = b'.size + k) :
    (b.fresh n).map (·.renumber σ) = b'.fresh n := by
  simp only [fresh, List.map_map]
  refine List.map_congr_left fun k hk => ?_
  simp only [Function.comp, Handle.renumber, hn, Handle.mk.injEq, true_and]
  exact h k (List.mem_range.1 hk)

/-! ## Both blocks -/

theorem le_slot_of_mem_issue {c : Placed} (hc : c ∈ b.issue block) : b.size ≤ c.slot := by
  have hslot : c.slot ∈ (b.issue block).map (·.slot) := List.mem_map_of_mem hc
  rw [issue_slots] at hslot
  obtain ⟨k, -, hk⟩ := List.mem_map.1 hslot
  omega

/-- **The code with two blocks**: the second one is in front of an instruction of the old code, and so not in the first
one. -/
theorem insertAt_insertAt_code (hb : b.Coherent) (h₁ : b.positionOf? a₁ = some p₁)
    (h₂ : (b.insertAt p₁ block₁).positionOf? a₂ = some p₂) (ha₂ : a₂.slot < b.size) :
    ((b.insertAt p₁ block₁).insertAt p₂ block₂).code.toList = b.code.toList.flatMap fun c =>
      (if c.slot = a₁.slot then b.issue block₁ else []) ++
        ((if c.slot = a₂.slot then (b.insertAt p₁ block₁).issue block₂ else []) ++ [c]) := by
  have hfirst : ∀ c ∈ b.issue block₁, c.slot ≠ a₂.slot := fun c hc => by
    have hle := le_slot_of_mem_issue hc
    omega
  rw [insertAt_code_flatMap (hb.insertAt p₁ block₁) h₂, insertAt_code_flatMap hb h₁, List.flatMap_assoc]
  refine List.flatMap_congr fun c _ => ?_
  rw [List.flatMap_append, List.flatMap_singleton]
  by_cases heq : c.slot = a₁.slot
  · rw [if_pos heq, flatMap_of_ne hfirst]
  · rw [if_neg heq, List.flatMap_nil]

/-- **The order of two insertions** shows in the slots of the blocks, and in nothing else. -/
theorem insertAt_exchange (hb : b.Coherent) (hslots : a₁.slot ≠ a₂.slot) {q₁ q₂ : Nat}
    (h₁ : b.positionOf? a₁ = some p₁) (h₁₂ : (b.insertAt p₁ block₁).positionOf? a₂ = some q₂)
    (h₂ : b.positionOf? a₂ = some p₂) (h₂₁ : (b.insertAt p₂ block₂).positionOf? a₁ = some q₁) :
    (b.insertAt p₂ block₂).insertAt q₁ block₁ =
      ((b.insertAt p₁ block₁).insertAt q₂ block₂).renumber (exchange b.size block₁.length block₂.length) := by
  set σ := exchange b.size block₁.length block₂.length
  have hlt₁ : a₁.slot < b.size := ((b.contains_iff a₁).1 (hb.contains_of_handleAt? (handleAt?_of_positionOf? h₁))).2
  have hlt₂ : a₂.slot < b.size := ((b.contains_iff a₂).1 (hb.contains_of_handleAt? (handleAt?_of_positionOf? h₂))).2
  have hissue₁ : (b.issue block₁).map (·.renumber σ) = (b.insertAt p₂ block₂).issue block₁ :=
    issue_renumber fun k hk => by rw [insertAt_size]; exact exchange_first hk
  have hissue₂ : ((b.insertAt p₁ block₁).issue block₂).map (·.renumber σ) = b.issue block₂ :=
    issue_renumber fun k _ => by rw [insertAt_size]; exact exchange_second _ _ _ k
  have hcode : ((b.insertAt p₂ block₂).insertAt q₁ block₁).code.toList =
      ((b.insertAt p₁ block₁).insertAt q₂ block₂).code.toList.map (·.renumber σ) := by
    rw [insertAt_insertAt_code hb h₂ h₂₁ hlt₁, insertAt_insertAt_code hb h₁ h₁₂ hlt₂, List.map_flatMap]
    refine List.flatMap_congr fun c hc => ?_
    have hold : c.renumber σ = c := congrArg (Placed.mk · _) (exchange_of_lt (hb.slot_lt hc))
    by_cases heq₁ : c.slot = a₁.slot
    · simp [heq₁, hslots, hissue₁, hold]
    · by_cases heq₂ : c.slot = a₂.slot
      · simp [heq₂, hslots.symm, hissue₂, hold]
      · simp [heq₁, heq₂, hold]
  rw [← Array.toList_map] at hcode
  rw [renumber, ← Array.toList_inj.1 hcode]
  rfl

/-! ## What does not depend on slots -/

/-- the body `b''` has the slot `σ slot` where `b'` has `slot`, with the slots of `b` as they were; and this is all that
tells the two apart -/
structure SameUpToSlots (b : Body) (σ : Nat → Nat) (b' b'' : Body) : Prop where
  renumbered : b'' = b'.renumber σ
  old : ∀ slot < b.size, σ slot = slot
  instructions : b''.instructions = b'.instructions
  positions : ∀ h, b.Issued h → b''.positionOf? h = b'.positionOf? h
  newPositions : ∀ h, b'.contains h = true → b''.positionOf? (h.renumber σ) = b'.positionOf? h
  clauses : b''.clauses = b'.clauses
  locals : b''.locals = b'.locals
  analyze : ∀ (resolve : Resolver) (signature : MethodSig),
    Stack.analyze (.ofSignature resolve signature) b'' = Stack.analyze (.ofSignature resolve signature) b'

/-- the old handles are where they were -/
theorem positionOf?_of_issued (hb' : b'.Coherent) (hr : (b'.renumber σ).Coherent) (hn : b'.number = b.number)
    (hsize : b.size ≤ b'.size) (hold : ∀ slot < b.size, σ slot = slot) {h : Handle} (hi : b.Issued h) :
    (b'.renumber σ).positionOf? h = b'.positionOf? h := by
  by_cases hbody : h.body = b.number
  · have hc : b'.contains h = true := (b'.contains_iff h).2 ⟨hbody.trans hn.symm, (hi hbody).trans_le hsize⟩
    have hsame : h.renumber σ = h := congrArg (Handle.mk _) (hold _ (hi hbody))
    rw [← positionOf?_renumber hb' hr hc, hsame]
  · -- neither body has instructions of another one
    have hforeign : h.body ≠ b'.number := fun heq => hbody (heq.trans hn)
    simp [positionOf?, contains, renumber, hforeign]

/-- **New numbers for slots that nothing names** show in nothing else. -/
theorem SameUpToSlots.of_renumber (hb' : b'.WellFormed) (hr : (b'.renumber σ).WellFormed) (hn : b'.number = b.number)
    (hsize : b.size ≤ b'.size) (hold : ∀ slot < b.size, σ slot = slot)
    (htargets : ∀ i ∈ b'.instructions, ∀ t ∈ i.targets, b.Issued t)
    (hboundaries : ∀ clause ∈ b'.clauses, ∀ t ∈ clause.boundaries, b.Issued t) :
    SameUpToSlots b σ b' (b'.renumber σ) := by
  have hpositions : ∀ h, b.Issued h → (b'.renumber σ).positionOf? h = b'.positionOf? h := fun h hi =>
    positionOf?_of_issued hb'.toCoherent hr.toCoherent hn hsize hold hi
  have hinstructions : (b'.renumber σ).instructions = b'.instructions := renumber_instructions σ b'
  refine ⟨rfl, hold, hinstructions, hpositions, fun h hc => ?_, rfl, rfl, fun resolve signature => ?_⟩
  · exact positionOf?_renumber hb'.toCoherent hr.toCoherent hc
  · exact Stack.analyze_congr hb' hr hinstructions rfl (fun i hi t ht => hpositions t (htargets i hi t ht))
      (fun clause hc t ht => hpositions t (hboundaries clause hc t ht)) _

/-- a block in front of an anchor, and then another block in front of another anchor -/
def insertBoth (b : Body) (anchor : Handle) (block : List Instruction) (anchor' : Handle) (block' : List Instruction) :
    Except Error (Body × List Handle × List Handle) := do
  let (b, new) ← b.insertBefore anchor block
  let (b, new') ← b.insertBefore anchor' block'
  return (b, new, new')

theorem insertBoth_eq_ok (hb : b.Coherent) (h₁ : b.contains a₁ = true) (h₂ : b.contains a₂ = true)
    (block₁ block₂ : List Instruction) : ∃ p q, b.positionOf? a₁ = some p ∧
      (b.insertAt p block₁).positionOf? a₂ = some q ∧ b.insertBoth a₁ block₁ a₂ block₂ =
        .ok ((b.insertAt p block₁).insertAt q block₂, b.fresh block₁.length,
          (b.insertAt p block₁).fresh block₂.length) := by
  obtain ⟨p, hp⟩ := Option.isSome_iff_exists.1 (hb.positionOf?_isSome.2 h₁)
  have hb₁ : (b.insertAt p block₁).Coherent := hb.insertAt p block₁
  obtain ⟨q, hq⟩ := Option.isSome_iff_exists.1 (hb₁.positionOf?_isSome.2 (contains_insertAt h₂ p block₁))
  refine ⟨p, q, hp, hq, ?_⟩
  simp only [insertBoth, insertBefore, hp, hq, bind, Except.bind, pure, Except.pure]

/-- handles of one body are told apart by their slots -/
theorem slot_ne_of_ne (h₁ : b.contains a₁ = true) (h₂ : b.contains a₂ = true) (hne : a₁ ≠ a₂) : a₁.slot ≠ a₂.slot := by
  obtain ⟨hbody₁, -⟩ := (b.contains_iff a₁).1 h₁
  obtain ⟨hbody₂, -⟩ := (b.contains_iff a₂).1 h₂
  intro heq
  refine hne ?_
  calc
    a₁ = ⟨b.number, a₁.slot⟩ := congrArg (Handle.mk · _) hbody₁
    _ = ⟨b.number, a₂.slot⟩ := by rw [heq]
    _ = a₂ := congrArg (Handle.mk · _) hbody₂.symm

theorem WellFormed.insertAt_insertAt (hb : b.WellFormed) (ht₁ : ∀ i ∈ block₁, ∀ t ∈ i.targets, b.Issued t)
    (ht₂ : ∀ i ∈ block₂, ∀ t ∈ i.targets, b.Issued t) (p q : Nat) :
    ((b.insertAt p block₁).insertAt q block₂).WellFormed := by
  have hb₁ : (b.insertAt p block₁).WellFormed := hb.insertAt p block₁ fun i hi t ht => (ht₁ i hi t ht).insertAt _ _
  refine hb₁.insertAt q block₂ ?_
  intro i hi t ht
  exact ((ht₂ i hi t ht).insertAt p block₁).insertAt q block₂

/-- the code with both blocks names nothing new -/
theorem issued_of_mem_insertAt_insertAt (hb : b.WellFormed) (ht₁ : ∀ i ∈ block₁, ∀ t ∈ i.targets, b.Issued t)
    (ht₂ : ∀ i ∈ block₂, ∀ t ∈ i.targets, b.Issued t) {p q : Nat} {i : Instruction}
    (hi : i ∈ ((b.insertAt p block₁).insertAt q block₂).instructions) : ∀ t ∈ i.targets, b.Issued t := by
  rcases mem_insertAt_instructions hi with hi | hi
  · rcases mem_insertAt_instructions hi with hi | hi
    · exact hb.targets i hi
    · exact ht₁ i hi
  · exact ht₂ i hi

/-- **Independent insertions commute.** For every body that can be built, two anchors of it, and two blocks whose
operands name nothing that the body has still to issue: in either order both blocks are inserted, and the two results
differ in the slots of the new instructions only. The code, the positions of the old handles and of the corresponding
new ones, clauses and locals are the same, and for every resolver and signature the stack analysis has the same
outcome. -/
theorem insertBefore_comm (hb : b.Reachable) (h₁ : b.contains a₁ = true) (h₂ : b.contains a₂ = true) (hne : a₁ ≠ a₂)
    (ht₁ : ∀ i ∈ block₁, ∀ t ∈ i.targets, b.Issued t) (ht₂ : ∀ i ∈ block₂, ∀ t ∈ i.targets, b.Issued t) :
    let σ := exchange b.size block₁.length block₂.length
    ∃ b₁₂ b₂₁ new₁ new₂, b.insertBoth a₁ block₁ a₂ block₂ = .ok (b₁₂, new₁, new₂) ∧
      b.insertBoth a₂ block₂ a₁ block₁ = .ok (b₂₁, new₂.map (·.renumber σ), new₁.map (·.renumber σ)) ∧
      SameUpToSlots b σ b₁₂ b₂₁ := by
  intro σ
  have hw : b.WellFormed := hb.wellFormed
  obtain ⟨p₁, q₂, hp₁, hq₂, h₁₂⟩ := insertBoth_eq_ok hw.toCoherent h₁ h₂ block₁ block₂
  obtain ⟨p₂, q₁, hp₂, hq₁, h₂₁⟩ := insertBoth_eq_ok hw.toCoherent h₂ h₁ block₂ block₁
  have hexchange := insertAt_exchange hw.toCoherent (slot_ne_of_ne h₁ h₂ hne) hp₁ hq₂ hp₂ hq₁
  have hnew₁ : (b.fresh block₁.length).map (·.renumber σ) = (b.insertAt p₂ block₂).fresh block₁.length :=
    fresh_renumber rfl fun k hk => by rw [insertAt_size]; exact exchange_first hk
  have hnew₂ : ((b.insertAt p₁ block₁).fresh block₂.length).map (·.renumber σ) = b.fresh block₂.length :=
    fresh_renumber rfl fun k _ => by rw [insertAt_size]; exact exchange_second _ _ _ k
  refine ⟨_, _, _, _, h₁₂, by rw [hnew₁, hnew₂]; exact h₂₁, ?_⟩
  have hwell₂₁ := hw.insertAt_insertAt ht₂ ht₁ p₂ q₁
  rw [hexchange] at hwell₂₁ ⊢
  refine .of_renumber (hw.insertAt_insertAt ht₁ ht₂ p₁ q₂) hwell₂₁ rfl ?_ (fun _ => exchange_of_lt) ?_ ?_
  · rw [insertAt_size, insertAt_size]
    omega
  · intro i hi
    exact issued_of_mem_insertAt_insertAt hw ht₁ ht₂ hi
  · intro clause hc t ht
    exact Issued.of_contains (hw.clauses clause hc t ht)

open Stack in
/-- a jump in front of the first instruction of the loop and two more in front of the second one -/
theorem insertBefore_comm_adjacent :
    let jump : Instruction := ⟨.br, .target ⟨1, 1⟩⟩
    let nop : Instruction := { opcode := .nop }
    ∃ b₁₂ b₂₁ new₁ new₂, guardedLoop.insertBoth ⟨1, 1⟩ [jump] ⟨1, 2⟩ [nop, nop] = .ok (b₁₂, new₁, new₂) ∧
      guardedLoop.insertBoth ⟨1, 2⟩ [nop, nop] ⟨1, 1⟩ [jump] =
        .ok (b₂₁, new₂.map (·.renumber (exchange 5 1 2)), new₁.map (·.renumber (exchange 5 1 2))) ∧
      SameUpToSlots guardedLoop (exchange 5 1 2) b₁₂ b₂₁ ∧
      b₁₂.handles.map (·.slot) = [5, 1, 6, 7, 2, 3, 4, 0] ∧ b₂₁.handles.map (·.slot) = [7, 1, 5, 6, 2, 3, 4, 0] := by
  intro jump nop
  have h₁ : guardedLoop.contains ⟨1, 1⟩ = true := by decide
  have h₂ : guardedLoop.contains ⟨1, 2⟩ = true := by decide
  have ht₁ : ∀ i ∈ [jump], ∀ t ∈ i.targets, guardedLoop.Issued t := by
    intro i hi t ht
    rw [List.mem_singleton.1 hi] at ht
    rw [List.mem_singleton.1 ht]
    exact .of_contains h₁
  have ht₂ : ∀ i ∈ [nop, nop], ∀ t ∈ i.targets, guardedLoop.Issued t := by
    simp [nop, Instruction.targets]
  obtain ⟨b₁₂, b₂₁, new₁, new₂, h₁₂, h₂₁, hsame⟩ :=
    insertBefore_comm guardedLoop_reachable h₁ h₂ (by decide) ht₁ ht₂
  have hslots₁₂ : (guardedLoop.insertBoth ⟨1, 1⟩ [jump] ⟨1, 2⟩ [nop, nop]).map (·.1.handles.map (·.slot)) =
      .ok [5, 1, 6, 7, 2, 3, 4, 0] := by cbv
  have hslots₂₁ : (guardedLoop.insertBoth ⟨1, 2⟩ [nop, nop] ⟨1, 1⟩ [jump]).map (·.1.handles.map (·.slot)) =
      .ok [7, 1, 5, 6, 2, 3, 4, 0] := by cbv
  rw [h₁₂] at hslots₁₂
  rw [h₂₁] at hslots₂₁
  exact ⟨b₁₂, b₂₁, new₁, new₂, h₁₂, h₂₁, hsame, Except.ok.inj hslots₁₂, Except.ok.inj hslots₂₁⟩

end Body

end CilGraft

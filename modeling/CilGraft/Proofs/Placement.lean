/-
Placing a draft in an arena, step by step: labels are resolved to spots, its code is put in with jumps that have no
operand yet, then the operands are filled in, then the clauses are added one after the other. Any of these steps might
stop in the middle, and spots without a handle are passed over.

- `mapM_landing_target`, `extent_clause`: every spot that is resolved has a handle, so that none is passed over.
- `run_fixups`: to fill in operands is to have put in the finished instructions.
- `run_extents`: every region gets its clause; the boundaries are new instructions or the anchor, so it can be added.
- `run_placeIn`: nothing fails once all labels are resolved, and a failure leaves the arena as it was.
- `appendTo_eq`, `insertBefore_eq`: what placing at once makes of a body, which is all decided when labels are resolved.
- `seen_append`, `seen_insert`: placing step by step comes to the same as placing at once.
-/
import CilGraft.Arena.Placing
import CilGraft.Proofs.ArenaView

namespace CilGraft

/-! ## Operands in a block -/

namespace Arena

/-- the operand goes to the one new instruction that the handle names -/
theorem run_setOperand_insertAt (a : Arena) (p : Nat) (operand : Opcode → Operand) {block : List Instruction} {k : Nat}
    (hk : k < block.length) :
    (setOperand ⟨a.number, a.cells.size + k⟩ operand).run (a.insertAt p block) =
      .ok () (a.insertAt p (block.modify k fun i => { i with operand := operand i.opcode })) := by
  have hin := contains_insertAt_fresh a p hk
  have hcells : (a.insertAt p block).cells.modify (a.cells.size + k)
      (fun i => { i with operand := operand i.opcode }) =
        (a.insertAt p (block.modify k fun i => { i with operand := operand i.opcode })).cells := by
    refine Array.ext (by simp [insertAt]) fun j hj hj' => ?_
    have hslot : a.cells.size + k = j ↔ ¬ j < a.cells.size ∧ k = j - a.cells.size := by omega
    simp only [insertAt, Array.getElem_modify, Array.getElem_append, List.getElem_toArray, List.getElem_modify, hslot]
    split_ifs <;> first | rfl | omega
  have hset : (setOperand ⟨a.number, a.cells.size + k⟩ operand).run (a.insertAt p block) =
      .ok () { a.insertAt p block with
        cells := (a.insertAt p block).cells.modify (a.cells.size + k)
          fun i => { i with operand := operand i.opcode } } := by
    rw [setOperand, EStateM.run_modify, if_pos hin]
  rw [hset, hcells]
  simp only [insertAt, List.length_modify]

end Arena

theorem ok_bind {ε α β : Type} (a : α) (f : α → Except ε β) : Except.ok a >>= f = f a := rfl

namespace Draft

variable {d : Draft} {s : Site}

/-- the handles that the code of a draft gets -/
def Site.fresh (s : Site) (d : Draft) : List Handle := (List.range d.size).map fun i => ⟨s.body, s.first + i⟩

/-- a spot of a draft has the handle that is known beforehand -/
theorem handle?_fresh {label : String} {spot : Spot} (h : d.spot label = .ok spot) :
    handle? (s.fresh d) s.anchor spot = s.handle? spot := by
  unfold Draft.spot at h
  split at h
  · cases h
    split_ifs with hlt
    · simp [handle?, Site.fresh, Site.handle?, hlt]
    · rfl
  · cases h

/-- at the end of a body a spot is refused exactly where it has no handle -/
theorem present_bind_handle (label : String) (spot : Spot) :
    (present s.anchor label spot = .ok () ∧ ∃ t, s.handle? spot = some t ∧ s.handle label spot = .ok t) ∨
      ∃ e, present s.anchor label spot = .error e ∧ s.handle label spot = .error e := by
  obtain ⟨body, first, anchor⟩ := s
  cases spot with
  | emitted index => exact Or.inl ⟨rfl, _, rfl, rfl⟩
  | behind =>
    cases anchor with
    | none => exact Or.inr ⟨_, rfl, rfl⟩
    | some a => exact Or.inl ⟨rfl, a, rfl, rfl⟩

/-- a label lands on a spot that has a handle, or on none -/
theorem landing_target (label : String) :
    (∃ spot t, d.landing s.anchor label = .ok spot ∧ handle? (s.fresh d) s.anchor spot = some t ∧
      d.target s label = .ok t) ∨
    ∃ e, d.landing s.anchor label = .error e ∧ d.target s label = .error e := by
  unfold landing target
  cases hspot : d.spot label with
  | error e => exact Or.inr ⟨e, rfl, rfl⟩
  | ok spot =>
    rcases present_bind_handle (s := s) label spot with ⟨hpresent, t, ht, hhandle⟩ | ⟨e, hpresent, hhandle⟩
    · exact Or.inl ⟨spot, t, bind_eq_ok.2 ⟨spot, rfl, bind_eq_ok.2 ⟨(), hpresent, rfl⟩⟩,
        (handle?_fresh hspot).trans ht, hhandle⟩
    · refine Or.inr ⟨e, bind_eq_error.2 (Or.inr ⟨spot, rfl, bind_eq_error.2 (Or.inl hpresent)⟩), hhandle⟩

/-- a table of labels lands on spots that all have handles -/
theorem mapM_landing_target (labels : List String) : labels.mapM (d.target s) =
    List.filterMap (handle? (s.fresh d) s.anchor) <$> labels.mapM (d.landing s.anchor) := by
  induction labels with
  | nil => rfl
  | cons label labels ih =>
    rw [List.mapM_cons, List.mapM_cons, ih]
    rcases landing_target (d := d) (s := s) label with ⟨spot, t, hspot, ht, htarget⟩ | ⟨e, hspot, htarget⟩
    · rw [hspot, htarget]
      cases labels.mapM (d.landing s.anchor) with
      | error e => rfl
      | ok spots =>
        simp [bind, Except.bind, pure, Except.pure, Functor.map, Except.map, ht]
    · rw [hspot, htarget]
      rfl

theorem Jump.operandTo_opcode (j : Jump) (t : Handle) : operandTo [t] j.opcode = .target t := by
  cases j <;> rfl

/-- an instruction as it is with a fixup done -/
def patched (new : List Handle) (anchor : Option Handle) (i : Instruction) (f : Fixup) : Instruction :=
  { i with operand := operandTo (f.spots.filterMap (handle? new anchor)) i.opcode }

/-- the finished instruction is the placeholder with its fixup done -/
theorem instruction_eq (index : Nat) (item : Item) : d.instruction s item =
    (fun f : Option Fixup => f.elim (placeholder item) (patched (s.fresh d) s.anchor (placeholder item))) <$>
      d.fixup? s.anchor index item := by
  cases item with
  | ready i => rfl
  | jump j label =>
    simp only [instruction, fixup?]
    rcases landing_target (d := d) (s := s) label with ⟨spot, t, hspot, ht, htarget⟩ | ⟨e, hspot, htarget⟩
    · rw [hspot, htarget]
      simp [bind, Except.bind, pure, Except.pure, Functor.map, Except.map, patched, placeholder, ht,
        Jump.operandTo_opcode]
    · rw [hspot, htarget]
      rfl
  | switch labels =>
    simp only [instruction, fixup?, mapM_landing_target]
    cases labels.mapM (d.landing s.anchor) <;> rfl

theorem fixup?_index {anchor : Option Handle} {index : Nat} {item : Item} {f : Fixup}
    (h : d.fixup? anchor index item = .ok (some f)) : f.index = index := by
  cases item with
  | ready i => cases h
  | jump j label =>
    obtain ⟨spot, -, h⟩ := bind_eq_ok.1 h
    cases h
    rfl
  | switch labels =>
    obtain ⟨spots, -, h⟩ := bind_eq_ok.1 h
    cases h
    rfl

section

variable {a : Arena} {p : Nat} {anchor : Option Handle}

/-- a fixup finishes the one instruction that it is for -/
theorem run_fix {done rest : List Instruction} {i : Instruction} {f : Fixup} (hf : f.index = done.length)
    (hsize : done.length + rest.length + 1 = d.size) :
    (fix (a.fresh d.size) anchor f).run (a.insertAt p (done ++ i :: rest)) =
      .ok () (a.insertAt p (done ++ patched (a.fresh d.size) anchor i f :: rest)) := by
  have hget : (a.fresh d.size)[f.index]? = some ⟨a.number, a.cells.size + done.length⟩ := by
    rw [hf, Arena.fresh, List.getElem?_map, List.getElem?_range (by omega)]
    rfl
  rw [fix, hget]
  refine (Arena.run_setOperand_insertAt a p _ (by simp)).trans ?_
  rw [List.modify_eq_set_getElem?]
  simp [patched]

/-- **The fixups finish the code**, from some item of the draft on. -/
theorem run_fixups (items : List Item) (done : List Instruction) (hsize : done.length + items.length = d.size) :
    (∃ fs block, d.fixups anchor done.length items = .ok fs ∧
      items.mapM (d.instruction ⟨a.number, a.cells.size, anchor⟩) = .ok block ∧
        (forM fs (fix (a.fresh d.size) anchor)).run (a.insertAt p (done ++ items.map placeholder)) =
          .ok () (a.insertAt p (done ++ block))) ∨
    ∃ e, d.fixups anchor done.length items = .error e ∧
      items.mapM (d.instruction ⟨a.number, a.cells.size, anchor⟩) = .error e := by
  induction items generalizing done with
  | nil => exact Or.inl ⟨[], [], rfl, rfl, rfl⟩
  | cons item items ih =>
    have hinstruction := @instruction_eq d ⟨a.number, a.cells.size, anchor⟩ done.length item
    rw [List.mapM_cons, fixups, hinstruction]
    cases hfixup : d.fixup? anchor done.length item with
    | error e => exact Or.inr ⟨e, rfl, rfl⟩
    | ok f =>
      let made := f.elim (placeholder item) (patched (a.fresh d.size) anchor (placeholder item))
      rw [List.length_cons] at hsize
      rcases ih (done ++ [made]) (by simp; omega) with ⟨fs, block, hfs, hblock, hrun⟩ | ⟨e, hfs, hblock⟩
      · rw [List.length_append, List.length_singleton] at hfs
        rw [List.append_assoc, List.append_assoc] at hrun
        refine Or.inl ⟨f.toList ++ fs, made :: block, ?_, ?_, ?_⟩
        · rw [hfs]
          rfl
        · rw [hblock]
          rfl
        · cases f with
          | none => exact hrun
          | some f =>
            refine (Arena.run_bind_ok (run_fix (fixup?_index hfixup) ?_)).trans hrun
            rw [List.length_map, ← hsize]
            omega
      · rw [List.length_append, List.length_singleton] at hfs
        refine Or.inr ⟨e, ?_, ?_⟩
        · rw [hfs]
          rfl
        · rw [hblock]
          rfl

/-- so has the spot of a label that may be missing -/
theorem bind_handle?_fresh {label : Option String} {spot : Option Spot} (h : label.mapM d.spot = .ok spot) :
    spot.bind (handle? (s.fresh d) s.anchor) = spot.bind s.handle? := by
  cases label with
  | none =>
    cases h
    rfl
  | some label =>
    obtain ⟨spot', hspot, h⟩ := bind_eq_ok.1 h
    cases h
    exact handle?_fresh hspot

theorem clause?_fresh {x : Extent} {first handler : Handle} (htryStart : d.spot x.region.tryStart = .ok x.tryStart)
    (hhandlerStart : d.spot x.region.handlerStart = .ok x.handlerStart)
    (htryEnd : d.spot x.region.tryEnd = .ok x.tryEnd)
    (hhandlerEnd : x.region.handlerEnd.mapM d.spot = .ok x.handlerEnd) (hfirst : s.handle? x.tryStart = some first)
    (hhandler : s.handle? x.handlerStart = some handler) : clause? (s.fresh d) s.anchor x = some {
      flags := x.region.flags, tryStart := first, tryEnd := s.handle? x.tryEnd, handlerStart := handler
      handlerEnd := x.handlerEnd.bind s.handle?, catchType := x.region.catchType } := by
  simp only [clause?, handle?_fresh htryStart, handle?_fresh hhandlerStart, handle?_fresh htryEnd,
    bind_handle?_fresh hhandlerEnd, hfirst, hhandler]
  rfl

/-- a region that is resolved has a clause, the same as if its handles were known beforehand -/
theorem extent_clause (r : Region) :
    (∃ x c, d.extent s.anchor r = .ok x ∧ clause? (s.fresh d) s.anchor x = some c ∧ d.clause s r = .ok c) ∨
      ∃ e, d.extent s.anchor r = .error e ∧ d.clause s r = .error e := by
  unfold extent clause
  cases htryStart : d.spot r.tryStart with
  | error e => exact Or.inr ⟨e, rfl, rfl⟩
  | ok tryStart =>
    cases hhandlerStart : d.spot r.handlerStart with
    | error e => exact Or.inr ⟨e, rfl, rfl⟩
    | ok handlerStart =>
      simp only [ok_bind]
      rcases present_bind_handle (s := s) r.tryStart tryStart with
        ⟨hpresent, first, hfirst, hhandle⟩ | ⟨e, hpresent, hhandle⟩ <;> rw [hpresent, hhandle]
      · simp only [ok_bind]
        rcases present_bind_handle (s := s) r.handlerStart handlerStart with
          ⟨hpresent', handler, hhandler, hhandle'⟩ | ⟨e, hpresent', hhandle'⟩ <;> rw [hpresent', hhandle']
        · cases htryEnd : d.spot r.tryEnd with
          | error e => exact Or.inr ⟨e, rfl, rfl⟩
          | ok tryEnd =>
            cases hhandlerEnd : r.handlerEnd.mapM d.spot with
            | error e => exact Or.inr ⟨e, rfl, rfl⟩
            | ok handlerEnd => exact Or.inl ⟨⟨r, tryStart, tryEnd, handlerStart, handlerEnd⟩, _, rfl,
                clause?_fresh htryStart hhandlerStart htryEnd hhandlerEnd hfirst hhandler, rfl⟩
        · exact Or.inr ⟨e, rfl, rfl⟩
      · exact Or.inr ⟨e, rfl, rfl⟩

/-- **Regions become clauses**, each of them: what they name is in the arena. -/
theorem run_extents (rs : List Region) :
    (∃ xs cs, rs.mapM (d.extent s.anchor) = .ok xs ∧ rs.mapM (d.clause s) = .ok cs ∧
      ∀ a : Arena, (∀ c ∈ cs, ∀ t ∈ c.boundaries, a.contains t = true) →
        (forM xs (protect (s.fresh d) s.anchor)).run a = .ok () { a with clauses := a.clauses ++ cs.toArray }) ∨
    ∃ e, rs.mapM (d.extent s.anchor) = .error e ∧ rs.mapM (d.clause s) = .error e := by
  induction rs with
  | nil => exact Or.inl ⟨[], [], rfl, rfl, fun a _ => by simp⟩
  | cons r rs ih =>
    rw [List.mapM_cons, List.mapM_cons]
    rcases extent_clause (d := d) (s := s) r with ⟨x, c, hextent, hclause?, hclause⟩ | ⟨e, hextent, hclause⟩
    · rcases ih with ⟨xs, cs, hextents, hclauses, hrun⟩ | ⟨e, hextents, hclauses⟩
      · refine Or.inl ⟨x :: xs, c :: cs, by rw [hextent, hextents]; rfl, by rw [hclause, hclauses]; rfl, fun a ha => ?_⟩
        have hfirst : (protect (s.fresh d) s.anchor x).run a = .ok () { a with clauses := a.clauses.push c } := by
          have hnone : c.boundaries.find? (!a.contains ·) = none :=
            List.find?_eq_none.2 fun t ht => by simp [ha c List.mem_cons_self t ht]
          simp only [protect, hclause?, Arena.run_addClause, hnone]
        have hrest := hrun { a with clauses := a.clauses.push c } fun c' hc' => ha c' (List.mem_cons_of_mem c hc')
        refine (Arena.run_bind_ok hfirst).trans (hrest.trans ?_)
        simp
      · exact Or.inr ⟨e, by rw [hextent, hextents]; rfl, by rw [hclause, hclauses]; rfl⟩
    · exact Or.inr ⟨e, by rw [hextent]; rfl, by rw [hclause]; rfl⟩

end

end Draft

/-- an arena with a block put in and clauses added -/
def Arena.placed (a : Arena) (p : Nat) (block : List Instruction) (clauses : List Clause) : Arena :=
  { a.insertAt p block with clauses := a.clauses ++ clauses.toArray }

namespace Draft

variable {d : Draft} {a : Arena} {p : Nat} {anchor : Option Handle}

/-- a resolved clause names instructions of the draft or the anchor -/
theorem clause_boundaries {s : Site} {r : Region} {c : Clause} (h : d.clause s r = .ok c) {t : Handle}
    (ht : t ∈ c.boundaries) : (∃ k < d.size, t = ⟨s.body, s.first + k⟩) ∨ s.anchor = some t := by
  obtain ⟨tryStart, htryStart, h⟩ := bind_eq_ok.1 h
  obtain ⟨handlerStart, hhandlerStart, h⟩ := bind_eq_ok.1 h
  obtain ⟨first, hfirst, h⟩ := bind_eq_ok.1 h
  obtain ⟨handler, hhandler, h⟩ := bind_eq_ok.1 h
  obtain ⟨tryEnd, htryEnd, h⟩ := bind_eq_ok.1 h
  obtain ⟨handlerEnd, hhandlerEnd, h⟩ := bind_eq_ok.1 h
  cases h
  obtain ⟨boundary, hmem, hboundary⟩ := List.mem_filterMap.1 ht
  obtain rfl : boundary = some t := hboundary
  simp only [List.mem_cons, List.not_mem_nil, or_false, Option.some.injEq, reduceCtorEq] at hmem
  rcases hmem with rfl | htryEnd' | rfl | hhandlerEnd'
  · exact Body.handle?_ok htryStart (Body.handle_ok hfirst)
  · exact Body.handle?_ok htryEnd htryEnd'.symm
  · exact Body.handle?_ok hhandlerStart (Body.handle_ok hhandler)
  · obtain ⟨spot, hspot, hend⟩ := Option.bind_eq_some_iff.1 hhandlerEnd'.symm
    cases hlabel : r.handlerEnd with
    | none =>
      rw [hlabel] at hhandlerEnd
      cases hhandlerEnd
      cases hspot
    | some label =>
      rw [hlabel] at hhandlerEnd
      obtain ⟨spot', hspot', h⟩ := bind_eq_ok.1 hhandlerEnd
      cases h
      cases hspot
      exact Body.handle?_ok hspot' hend

theorem resolve_boundaries {s : Site} {block : List Instruction} {clauses : List Clause}
    (h : d.resolve s = .ok (block, clauses)) {c : Clause} (hc : c ∈ clauses) {t : Handle} (ht : t ∈ c.boundaries) :
    (∃ k < block.length, t = ⟨s.body, s.first + k⟩) ∨ s.anchor = some t := by
  rw [Body.resolve_length h]
  obtain ⟨block', -, h⟩ := bind_eq_ok.1 h
  obtain ⟨clauses', hclauses, h⟩ := bind_eq_ok.1 h
  cases h
  obtain ⟨r, -, hr⟩ := mem_of_mapM hclauses hc
  exact clause_boundaries hr ht

/-- the clauses of a draft name instructions of the arena that its code is in -/
theorem resolve_contained {block : List Instruction} {clauses : List Clause}
    (hanchor : ∀ t ∈ anchor, a.contains t = true)
    (h : d.resolve ⟨a.number, a.cells.size, anchor⟩ = .ok (block, clauses)) :
    ∀ c ∈ clauses, ∀ t ∈ c.boundaries, (a.insertAt p block).contains t = true := by
  intro c hc t ht
  rcases resolve_boundaries h hc ht with ⟨k, hk, rfl⟩ | ha
  · exact Arena.contains_insertAt_fresh a p hk
  · exact Arena.contains_insertAt (hanchor t ha) p block

/-- **Placing in an arena, step by step.** Once all labels are resolved, the steps that are left do not fail. -/
theorem run_placeIn (hanchor : ∀ t ∈ anchor, a.contains t = true)
    (hput : ∀ block, (Arena.put anchor block).run a = .ok (a.fresh block.length) (a.insertAt p block)) :
    (d.placeIn anchor).run a = match d.resolve ⟨a.number, a.cells.size, anchor⟩ with
      | .ok (block, clauses) => .ok (a.fresh block.length) (a.placed p block clauses)
      | .error e => .error e a := by
  have hcode := @run_fixups d a p anchor d.items.toList [] (by simp [size])
  have hregions := @run_extents d ⟨a.number, a.cells.size, anchor⟩ d.regions.toList
  unfold placeIn resolve
  rcases hcode with ⟨fs, block, hfs, hblock, hfix⟩ | ⟨e, hfs, hblock⟩ <;> rw [List.length_nil] at hfs <;>
    rw [hfs, hblock]
  · rcases hregions with ⟨xs, cs, hxs, hcs, hprotect⟩ | ⟨e, hxs, hcs⟩ <;> rw [hxs, hcs]
    · have hlength : block.length = d.size := by simpa [size] using (mapM_eq_ok.1 hblock).length_eq.symm
      have hsize : (d.items.toList.map placeholder).length = d.size := by simp [size]
      have hresolve : d.resolve ⟨a.number, a.cells.size, anchor⟩ = .ok (block, cs) := by
        rw [resolve, hblock, hcs]
        rfl
      have hnamed := @resolve_contained d a p anchor block cs hanchor hresolve
      have hput' := hput (d.items.toList.map placeholder)
      rw [hsize] at hput'
      rw [Arena.run_bind_ok (Arena.run_ofExcept_ok a fs), Arena.run_bind_ok (Arena.run_ofExcept_ok a xs),
        Arena.run_bind_ok hput']
      refine (Arena.run_bind_ok hfix).trans ((Arena.run_bind_ok (hprotect _ hnamed)).trans ?_)
      rw [← hlength]
      rfl
    · rw [Arena.run_bind_ok (Arena.run_ofExcept_ok a fs)]
      rfl
  · rfl

end Draft

/-! ## Placing at once -/

namespace Body

variable {b : Body} {clauses : List Clause}

theorem addClause_eq_ok {c : Clause} (h : ∀ t ∈ c.boundaries, b.contains t = true) :
    b.addClause c = .ok { b with clauses := b.clauses.push c } := by
  have hnone : c.boundaries.find? (!b.contains ·) = none := List.find?_eq_none.2 fun t ht => by simp [h t ht]
  simp only [addClause, hnone]

/-- clauses that name instructions of the body can be added, all of them -/
theorem foldlM_addClause (h : ∀ c ∈ clauses, ∀ t ∈ c.boundaries, b.contains t = true) :
    clauses.foldlM addClause b = .ok { b with clauses := b.clauses ++ clauses.toArray } := by
  induction clauses generalizing b with
  | nil => simp [pure, Except.pure]
  | cons c clauses ih =>
    have hfirst := addClause_eq_ok (h c List.mem_cons_self)
    have hrest := @ih { b with clauses := b.clauses.push c } fun c' hc' => h c' (List.mem_cons_of_mem c hc')
    rw [List.foldlM_cons, hfirst]
    refine hrest.trans ?_
    simp

/-- puts a block in front of an anchor, or at the end -/
def put (b : Body) (anchor : Option Handle) (block : List Instruction) : Except Error (Body × List Handle) :=
  match anchor with
  | some anchor => b.insertBefore anchor block
  | none => .ok (b.append block)

/-- a body with a block put in and clauses added, and the handles of the block -/
def placed (b : Body) (p : Nat) (block : List Instruction) (clauses : List Clause) : Body × List Handle :=
  ({ b.insertAt p block with clauses := b.clauses ++ clauses.toArray }, b.fresh block.length)

end Body

namespace Draft

variable {d : Draft} {b : Body} {p : Nat} {anchor : Option Handle} {block : List Instruction} {clauses : List Clause}

/-- the clauses of a draft name instructions of the body that its code is in -/
theorem clauses_contained (hanchor : ∀ a ∈ anchor, b.contains a = true)
    (h : d.resolve ⟨b.number, b.size, anchor⟩ = .ok (block, clauses)) :
    ∀ c ∈ clauses, ∀ t ∈ c.boundaries, (b.insertAt p block).contains t = true := by
  intro c hc t ht
  rw [Body.contains_insertAt_iff]
  rcases resolve_boundaries h hc ht with ⟨k, hk, rfl⟩ | ha
  · exact Or.inr (Body.mem_fresh.2 ⟨k, hk, rfl⟩)
  · exact Or.inl (hanchor t ha)

theorem resolve_put_eq (hanchor : ∀ a ∈ anchor, b.contains a = true)
    (hput : ∀ block, b.put anchor block = .ok (b.insertAt p block, b.fresh block.length)) : (do
      let (block, clauses) ← d.resolve ⟨b.number, b.size, anchor⟩
      let (b, handles) ← b.put anchor block
      return (← clauses.foldlM Body.addClause b, handles)) =
    (fun code => b.placed p code.1 code.2) <$> d.resolve ⟨b.number, b.size, anchor⟩ := by
  cases hresolve : d.resolve ⟨b.number, b.size, anchor⟩ with
  | error e => rfl
  | ok code =>
    have hclauses := Body.foldlM_addClause (clauses_contained (p := p) hanchor hresolve)
    exact bind_eq_ok.2 ⟨code, rfl, bind_eq_ok.2 ⟨_, hput _, bind_eq_ok.2 ⟨_, hclauses, rfl⟩⟩⟩

/-- **A draft at the end of a body.** -/
theorem appendTo_eq : d.appendTo b =
    (fun code => b.placed b.size code.1 code.2) <$> d.resolve ⟨b.number, b.size, none⟩ := by
  refine resolve_put_eq (by simp) fun block => ?_
  rw [← Body.append_eq_insertAt]
  rfl

/-- **A draft in front of an anchor.** -/
theorem insertBefore_eq {a : Handle} (hc : b.contains a = true) (ha : b.positionOf? a = some p) :
    d.insertBefore b a = (fun code => b.placed p code.1 code.2) <$> d.resolve ⟨b.number, b.size, some a⟩ := by
  have hput : ∀ block, b.put (some a) block = .ok (b.insertAt p block, b.fresh block.length) := by
    intro block
    simp only [Body.put, Body.insertBefore, ha]
  rw [← resolve_put_eq (by simpa using hc) hput, insertBefore, hc]
  rfl

end Draft

/-! ## Step by step and at once -/

namespace Draft

open Arena (seen)

variable {d : Draft} {a : Arena} {p : Nat} {anchor : Option Handle}

theorem seen_placeIn (ha : a.Sound) (hanchor : ∀ t ∈ anchor, a.contains t = true)
    (hput : ∀ block, (Arena.put anchor block).run a = .ok (a.fresh block.length) (a.insertAt p block)) :
    seen ((d.placeIn anchor).run a) = leaving a.body
      ((fun code => a.body.placed p code.1 code.2) <$> d.resolve ⟨a.body.number, a.body.size, anchor⟩) := by
  have hsize : a.body.size = a.cells.size := a.body_size.trans ha.size
  have hnumber : a.body.number = a.number := rfl
  rw [run_placeIn hanchor hput, hsize, hnumber]
  cases d.resolve ⟨a.number, a.cells.size, anchor⟩ with
  | error e => rfl
  | ok code =>
    have hbody : (a.placed p code.1 code.2).body = (a.body.placed p code.1 code.2).1 :=
      congrArg (fun b : Body => { b with clauses := a.clauses ++ code.2.toArray }) (ha.insertAt_body p code.1)
    exact congrArg Except.ok (Prod.ext hbody (ha.body_fresh _).symm)

/-- **Step by step or at once, placing is the same**, and a failure leaves the body alone. -/
theorem seen_append (ha : a.Sound) : seen ((d.placeIn none).run a) = leaving a.body (d.appendTo a.body) := by
  rw [seen_placeIn ha (by simp) a.run_put_none, appendTo_eq, a.body_size]

theorem seen_insert (ha : a.Sound) {t : Handle} (hc : a.contains t = true) :
    seen ((d.placeIn (some t)).run a) = leaving a.body (d.insertBefore a.body t) := by
  obtain ⟨p, hp⟩ := Option.isSome_iff_exists.1 (ha.positionOf?_isSome.2 hc)
  have hc' := (ha.body_contains t).trans hc
  have hp' := (ha.body_positionOf? t).trans hp
  rw [seen_placeIn ha (by simpa using hc) (Arena.run_put_some hp), insertBefore_eq hc' hp']

theorem run_insertIn (d : Draft) (t : Handle) (a : Arena) : (d.insertIn t).run a =
    if a.contains t then (d.placeIn (some t)).run a else .error (.invalidAnchor t) a := by
  unfold insertIn
  rw [Arena.run_bind_ok (EStateM.run_get a)]
  by_cases hc : a.contains t = true
  · simp only [hc, Bool.not_true, Bool.false_eq_true, if_false, if_true]
  · simp only [hc, Bool.not_false, if_true]
    rfl

/-- in front of an anchor that is not there neither is done -/
theorem seen_insertIn (ha : a.Sound) (t : Handle) :
    seen ((d.insertIn t).run a) = leaving a.body (d.insertBefore a.body t) := by
  rw [run_insertIn]
  by_cases hc : a.contains t = true
  · rw [if_pos hc]
    exact seen_insert ha hc
  · have hrefused : d.insertBefore a.body t = .error (.invalidAnchor t) := by
      simp only [insertBefore, ha.body_contains, hc, Bool.not_false, if_true]
      rfl
    rw [if_neg hc, hrefused]
    rfl

variable {b : Body}

theorem place_append (hb : b.Coherent) : d.place b none = leaving b (d.appendTo b) := by
  have h := @seen_append d b.arena hb.arena_sound
  rwa [hb.body_arena] at h

theorem place_insert (hb : b.Coherent) {t : Handle} (hc : b.contains t = true) :
    d.place b (some t) = leaving b (d.insertBefore b t) := by
  have hc' : b.arena.contains t = true := by
    rw [← hb.arena_sound.body_contains, hb.body_arena]
    exact hc
  have h := @seen_insert d b.arena hb.arena_sound t hc'
  rwa [hb.body_arena] at h

end Draft

end CilGraft

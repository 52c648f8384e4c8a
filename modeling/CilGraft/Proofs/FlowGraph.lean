/-
The flow graph of a body on its handles, and what becomes of it when a block is put in front of an anchor.

- `Detour`: the anchor gets a detour in front of it. Where control fell into the anchor it now comes to the first new
  instruction, from each of them to the next one and from the last one to the anchor; all jumps stay as they are.
- `Detour.isWay_strip`, `Detour.exists_way`: without the new handles the ways of the new graph are those of the old one.
- `has_shift_iff`, `has_fresh_iff`: a region keeps the instructions that it had, and it gets the new ones if it has what
  is in front of the anchor.
- `insertBefore_detour`: all of this for a block of straight-line code.
-/
import CilGraft.Proofs.Insertion
import CilGraft.Proofs.StraightLine
import CilGraft.Proofs.WalkExact

namespace CilGraft

/-! ## The graph -/

namespace Body

/-- where control starts -/
def entry? (b : Body) : Option Handle := b.handleAt? 0

/-- where an instruction jumps -/
def jumps (b : Body) (h : Handle) : List Handle := (b.get? h).elim [] (·.targets)

/-- where control falls from an instruction, if it goes on behind it -/
def fallsTo? (b : Body) (h : Handle) : Option Handle :=
  (b.get? h).bind fun i => if i.flow.isTerminal then none else b.next? h

def successors (b : Body) (h : Handle) : List Handle := b.jumps h ++ (b.fallsTo? h).toList

/-- instructions of a body, each of them a successor of the one before -/
structure IsWay (b : Body) (way : List Handle) : Prop where
  inside : ∀ h ∈ way, b.contains h = true
  edges : way.IsChain fun h h' => h' ∈ b.successors h

/-- the way is empty, or it starts where control does -/
def Starts (b : Body) (way : List Handle) : Prop := ∀ h ∈ way.head?, b.entry? = some h

theorem mem_successors {b : Body} {h t : Handle} : t ∈ b.successors h ↔ t ∈ b.jumps h ∨ b.fallsTo? h = some t := by
  rw [successors, List.mem_append, Option.mem_toList]

theorem WellFormed.contains_fallsTo {b : Body} (hb : b.WellFormed) {h t : Handle} (ht : b.fallsTo? h = some t) :
    b.contains t = true := by
  obtain ⟨i, -, ht⟩ := Option.bind_eq_some_iff.1 ht
  split_ifs at ht
  obtain ⟨p, -, ht⟩ := Option.bind_eq_some_iff.1 ht
  exact hb.contains_of_handleAt? ht

theorem IsWay.tail {b : Body} {h : Handle} {way : List Handle} (hw : b.IsWay (h :: way)) : b.IsWay way :=
  ⟨fun t ht => hw.inside t (List.mem_cons_of_mem h ht), hw.edges.tail⟩

/-- a way is made longer at its front -/
theorem IsWay.cons {b : Body} {h : Handle} {way : List Handle} (hw : b.IsWay way) (hin : b.contains h = true)
    (hedge : ∀ t ∈ way.head?, t ∈ b.successors h) : b.IsWay (h :: way) := by
  refine ⟨fun t ht => ?_, List.isChain_cons.2 ⟨hedge, hw.edges⟩⟩
  rcases List.mem_cons.1 ht with rfl | ht
  · exact hin
  · exact hw.inside t ht

end Body

/-! ## Regions -/

/-- a part of the code, from its start up to its end or to the end of the body -/
structure Region where
  start : Handle
  stop : Option Handle

/-- the code that a clause protects, and its handler -/
def Clause.regions (c : Clause) : List Region := [⟨c.tryStart, c.tryEnd⟩, ⟨c.handlerStart, c.handlerEnd⟩]

namespace Region

/-- the instruction is in the region -/
def Has (r : Region) (b : Body) (h : Handle) : Prop :=
  ∃ s p, b.positionOf? r.start = some s ∧ b.positionOf? h = some p ∧ s ≤ p ∧
    ∀ stop ∈ r.stop, ∃ q, b.positionOf? stop = some q ∧ p < q

/-- what is in front of the instruction is in the region: it starts before it and does not end before it -/
def HasFront (r : Region) (b : Body) (h : Handle) : Prop :=
  ∃ s p, b.positionOf? r.start = some s ∧ b.positionOf? h = some p ∧ s < p ∧
    ∀ stop ∈ r.stop, ∃ q, b.positionOf? stop = some q ∧ p ≤ q

end Region

namespace Body

/-! ## Detours -/

/-- The graph of `b'` is that of `b` with new instructions on a detour in front of an anchor. -/
structure Detour (b b' : Body) (anchor : Handle) (new : List Handle) : Prop where
  contains : ∀ h, b'.contains h = true ↔ b.contains h = true ∨ h ∈ new
  fresh : ∀ h ∈ new, ¬ b.contains h = true
  entry : b'.entry? = if b.entry? = some anchor then new.head? else b.entry?
  jumps : ∀ h, b.contains h = true → b'.jumps h = b.jumps h
  falls : ∀ h, b.contains h = true →
    b'.fallsTo? h = if b.fallsTo? h = some anchor then new.head? else b.fallsTo? h
  jumps_new : ∀ h ∈ new, b'.jumps h = []
  falls_new : ∀ k h, new[k]? = some h → b'.fallsTo? h = (new ++ [anchor])[k + 1]?
  not_jumped : ∀ h, b'.contains h = true → ∀ t ∈ b'.jumps h, t ∉ new

/-- a way without the new instructions on it -/
def strip (new way : List Handle) : List Handle := way.filter fun h => h ∉ new

theorem strip_cons_of_mem {new way : List Handle} {h : Handle} (hh : h ∈ new) :
    strip new (h :: way) = strip new way := by
  simp [strip, hh]

theorem strip_cons_of_not_mem {new way : List Handle} {h : Handle} (hh : h ∉ new) :
    strip new (h :: way) = h :: strip new way := by
  simp [strip, hh]

theorem strip_append {new way way' : List Handle} : strip new (way ++ way') = strip new way ++ strip new way' :=
  List.filter_append ..

theorem strip_self (new : List Handle) : strip new new = [] := by
  simp [strip]

namespace Detour

section

variable {b b' : Body} {anchor : Handle} {new : List Handle} (h : Detour b b' anchor new) (hb : b.WellFormed)
include h hb

/-- an edge into a new instruction was one to the anchor -/
theorem edge_into {x y : Handle} (hx : b.contains x = true) (hy : y ∈ new) (hedge : y ∈ b'.successors x) :
    anchor ∈ b.successors x := by
  rcases mem_successors.1 hedge with hjump | hfall
  · exact absurd hy (h.not_jumped x ((h.contains x).2 (Or.inl hx)) y hjump)
  · rw [h.falls x hx] at hfall
    by_cases hanchor : b.fallsTo? x = some anchor
    · exact mem_successors.2 (Or.inr hanchor)
    · rw [if_neg hanchor] at hfall
      exact absurd (hb.contains_fallsTo hfall) (h.fresh y hy)

omit hb in
/-- an edge between old instructions was there -/
theorem edge_old {x y : Handle} (hx : b.contains x = true) (hy : y ∉ new) (hedge : y ∈ b'.successors x) :
    y ∈ b.successors x := by
  rcases mem_successors.1 hedge with hjump | hfall
  · rw [h.jumps x hx] at hjump
    exact mem_successors.2 (Or.inl hjump)
  · rw [h.falls x hx] at hfall
    split_ifs at hfall with hanchor
    · exact absurd (List.mem_of_mem_head? hfall) hy
    · exact mem_successors.2 (Or.inr hfall)

omit hb in
/-- an edge out of a new instruction goes to a new one or to the anchor -/
theorem edge_new {x y : Handle} (hx : x ∈ new) (hy : y ∈ b'.successors x) : y ∈ new ∨ y = anchor := by
  obtain ⟨k, hk⟩ := List.getElem?_of_mem hx
  rcases mem_successors.1 hy with hjump | hfall
  · rw [h.jumps_new x hx] at hjump
    cases hjump
  · rw [h.falls_new k x hk] at hfall
    rcases List.mem_append.1 (List.mem_of_getElem? hfall) with hnew | hlast
    · exact Or.inl hnew
    · exact Or.inr (List.mem_singleton.1 hlast)

/-- A way without the new instructions on it is one of the old graph. If it started with a new one, it goes on at the
anchor. -/
theorem strip_way {way : List Handle} (hw : b'.IsWay way) : b.IsWay (strip new way) ∧
    ∀ x ∈ way.head?, x ∈ new → ∀ y ∈ (strip new way).head?, y = anchor := by
  induction way with
  | nil => exact ⟨⟨nofun, .nil⟩, nofun⟩
  | cons x way ih =>
    obtain ⟨hrest, hfirst⟩ := ih hw.tail
    have hedge : ∀ y ∈ way.head?, y ∈ b'.successors x := (List.isChain_cons.1 hw.edges).1
    by_cases hx : x ∈ new
    · rw [strip_cons_of_mem hx]
      refine ⟨hrest, fun _ _ _ y hy => ?_⟩
      cases way with
      | nil => cases hy
      | cons z way =>
        by_cases hz : z ∈ new
        · exact hfirst z rfl hz y hy
        · rw [strip_cons_of_not_mem hz] at hy
          cases hy
          exact (h.edge_new hx (hedge _ rfl)).resolve_left hz
    · have hold : b.contains x = true := ((h.contains x).1 (hw.inside x List.mem_cons_self)).resolve_right hx
      rw [strip_cons_of_not_mem hx]
      refine ⟨hrest.cons hold fun y hy => ?_, fun x' hx' hnew => ?_⟩
      · cases way with
        | nil => cases hy
        | cons z way =>
          by_cases hz : z ∈ new
          · rw [hfirst z rfl hz y hy]
            exact h.edge_into hb hold hz (hedge z rfl)
          · rw [strip_cons_of_not_mem hz] at hy
            cases hy
            exact h.edge_old hold hz (hedge _ rfl)
      · cases hx'
        exact absurd hnew hx

omit hb

/-- the detour leads to the anchor -/
theorem detour_way {way : List Handle} (hw : b'.IsWay way) (hhead : ∀ y ∈ way.head?, y = anchor) :
    b'.IsWay (new ++ way) := by
  refine ⟨fun x hx => ?_, List.isChain_append.2 ⟨List.isChain_iff_getElem.2 fun k hk => ?_, hw.edges,
    fun x hx y hy => ?_⟩⟩
  · rcases List.mem_append.1 hx with hx | hx
    · exact (h.contains x).2 (Or.inr hx)
    · exact hw.inside x hx
  · have hfall := h.falls_new k _ (List.getElem?_eq_getElem (Nat.lt_of_succ_lt hk))
    rw [List.getElem?_append_left hk, List.getElem?_eq_getElem hk] at hfall
    exact mem_successors.2 (Or.inr hfall)
  · rw [Option.mem_def, List.getLast?_eq_getElem?] at hx
    obtain ⟨hlt, -⟩ := List.getElem?_eq_some_iff.1 hx
    have hfall := h.falls_new _ x hx
    have hlast : new.length - 1 + 1 = new.length := by omega
    rw [hlast, List.getElem?_concat_length, ← hhead y hy] at hfall
    exact mem_successors.2 (Or.inr hfall)

/-- an edge of the old graph is there, or it leads to the detour -/
theorem edge_cases {x y : Handle} (hx : b.contains x = true) (hedge : y ∈ b.successors x) :
    y ∈ b'.successors x ∨ (y = anchor ∧ ∀ n ∈ new.head?, n ∈ b'.successors x) := by
  rcases mem_successors.1 hedge with hjump | hfall
  · rw [← h.jumps x hx] at hjump
    exact Or.inl (mem_successors.2 (Or.inl hjump))
  · have hfall' := h.falls x hx
    by_cases hanchor : b.fallsTo? x = some anchor
    · rw [if_pos hanchor] at hfall'
      refine Or.inr ⟨Option.some.inj (hfall.symm.trans hanchor), fun n hn => ?_⟩
      exact mem_successors.2 (Or.inr (hfall'.trans hn))
    · rw [if_neg hanchor] at hfall'
      exact Or.inl (mem_successors.2 (Or.inr (hfall'.trans hfall)))

/-- a way of the old graph is one of the new graph, with the detour where control takes it -/
theorem exists_way {way : List Handle} (hne : new ≠ []) (hw : b.IsWay way) :
    ∃ way', b'.IsWay way' ∧ strip new way' = way ∧ way'.head? = way.head? := by
  induction way with
  | nil => exact ⟨[], ⟨nofun, .nil⟩, rfl, rfl⟩
  | cons x way ih =>
    obtain ⟨way', hway', hstrip, hhead⟩ := ih hw.tail
    have hx : b.contains x = true := hw.inside x List.mem_cons_self
    have hx' : b'.contains x = true := (h.contains x).2 (Or.inl hx)
    have hnew : x ∉ new := fun hmem => h.fresh x hmem hx
    have hedges : ∀ y ∈ way.head?, y ∈ b.successors x := (List.isChain_cons.1 hw.edges).1
    by_cases hdirect : ∀ y ∈ way.head?, y ∈ b'.successors x
    · refine ⟨x :: way', hway'.cons hx' (hhead ▸ hdirect), ?_, rfl⟩
      rw [strip_cons_of_not_mem hnew, hstrip]
    · -- control falls into the anchor, and takes the detour now
      obtain ⟨y, hy, hout⟩ := not_forall₂.1 hdirect
      obtain ⟨rfl, hfront⟩ := (h.edge_cases hx (hedges y hy)).resolve_left hout
      have hdetour : b'.IsWay (new ++ way') := h.detour_way hway' fun z hz => by
        rw [hhead, Option.mem_def.1 hy] at hz
        exact (Option.some.inj hz).symm
      refine ⟨x :: (new ++ way'), hdetour.cons hx' fun n hn => ?_, ?_, rfl⟩
      · rw [List.head?_append_of_ne_nil _ hne] at hn
        exact hfront n hn
      · rw [strip_cons_of_not_mem hnew, strip_append, strip_self, hstrip]
        rfl

end

/-! ## Ways through the graph -/

variable {b b' : Body} {anchor : Handle} {new : List Handle} (h : Detour b b' anchor new) (hb : b.WellFormed)
  (hne : new ≠ [])
include h hb hne

/-- **Without the new instructions the ways of the new graph are those of the old one.** -/
theorem isWay_iff {way : List Handle} : b.IsWay way ↔ ∃ way', b'.IsWay way' ∧ strip new way' = way := by
  constructor
  · intro hw
    obtain ⟨way', hw', hstrip, -⟩ := h.exists_way hne hw
    exact ⟨way', hw', hstrip⟩
  · intro ⟨way', hw', hstrip⟩
    rw [← hstrip]
    exact (h.strip_way hb hw').1

/-- **So are the ways from the start of the code.** -/
theorem isWay_starts_iff {way : List Handle} : (b.IsWay way ∧ b.Starts way) ↔
    ∃ way', (b'.IsWay way' ∧ b'.Starts way') ∧ strip new way' = way := by
  constructor
  · intro ⟨hw, hstart⟩
    obtain ⟨way', hw', hstrip, hhead⟩ := h.exists_way hne hw
    by_cases hanchor : b.entry? = some anchor
    · -- the code starts with the detour now
      refine ⟨new ++ way', ⟨h.detour_way hw' fun y hy => ?_, fun n hn => ?_⟩, ?_⟩
      · rw [hhead] at hy
        exact Option.some.inj ((hstart y hy).symm.trans hanchor)
      · rw [List.head?_append_of_ne_nil _ hne] at hn
        rw [h.entry, if_pos hanchor]
        exact hn
      · rw [strip_append, strip_self, hstrip]
        rfl
    · refine ⟨way', ⟨hw', fun x hx => ?_⟩, hstrip⟩
      rw [hhead] at hx
      rw [h.entry, if_neg hanchor]
      exact hstart x hx
  · intro ⟨way', ⟨hw', hstart'⟩, hstrip⟩
    obtain ⟨hw, hfirst⟩ := h.strip_way hb hw'
    rw [← hstrip]
    refine ⟨hw, fun y hy => ?_⟩
    cases way' with
    | nil => cases hy
    | cons x way' =>
      have hentry := hstart' x rfl
      rw [h.entry] at hentry
      by_cases hx : x ∈ new
      · rw [hfirst x rfl hx y hy]
        by_contra hanchor
        rw [if_neg hanchor] at hentry
        exact h.fresh x hx (hb.contains_of_handleAt? hentry)
      · rw [strip_cons_of_not_mem hx] at hy
        cases hy
        split_ifs at hentry with hanchor
        · exact absurd (List.mem_of_mem_head? hentry) hx
        · exact hentry

end Detour

/-! ## A block in front of an anchor -/

section

variable {b : Body} {p : Nat} {block : List Instruction} {anchor : Handle}

section

variable (hb : b.Coherent) (hanchor : b.positionOf? anchor = some p)
include hb hanchor

/-- where the anchor was to come is the first new instruction -/
theorem insertAt_handleAt?_front (hpos : 0 < block.length) {q r : Nat}
    (hr : r = if q = p then p else shift p block.length q) : (b.insertAt p block).handleAt? r =
      if b.handleAt? q = some anchor then (b.fresh block.length).head? else b.handleAt? q := by
  have hp : p ≤ b.size := (hb.lt_size_of_positionOf? hanchor).le
  by_cases hq : q = p
  · have hat : b.handleAt? q = some anchor := by rw [hq, ← hb.positionOf?_eq_some, hanchor]
    rw [if_pos hq] at hr
    rw [if_pos hat, hr, fresh_head? b hpos]
    exact insertAt_handleAt?_block hp hpos
  · have hat : b.handleAt? q ≠ some anchor := by
      intro hat
      rw [← hb.positionOf?_eq_some, hanchor] at hat
      exact hq (Option.some.inj hat).symm
    rw [if_neg hq] at hr
    rw [if_neg hat, hr, insertAt_handleAt?_shift hp]

theorem insertAt_next? (hpos : 0 < block.length) {h : Handle} (hh : b.contains h = true) :
    (b.insertAt p block).next? h =
      if b.next? h = some anchor then (b.fresh block.length).head? else b.next? h := by
  have hp : p ≤ b.size := (hb.lt_size_of_positionOf? hanchor).le
  obtain ⟨q, hq⟩ := Option.isSome_iff_exists.1 (hb.positionOf?_isSome.2 hh)
  have hnext : b.next? h = b.handleAt? (q + 1) := by simp [next?, hq]
  have hnext' : (b.insertAt p block).next? h = (b.insertAt p block).handleAt? (shift p block.length q + 1) := by
    simp [next?, insertAt_positionOf? hb hp (.of_contains hh), hq]
  rw [hnext, hnext']
  refine insertAt_handleAt?_front hb hanchor hpos ?_
  split_ifs with hsucc
  · exact shift_pred hsucc
  · exact shift_succ hsucc

/-- behind a new instruction is the next one, behind the last one the anchor -/
theorem insertAt_next?_fresh {k : Nat} (hk : k < block.length) : (b.insertAt p block).next? ⟨b.number, b.size + k⟩ =
    (b.fresh block.length ++ [anchor])[k + 1]? := by
  have hp : p ≤ b.size := (hb.lt_size_of_positionOf? hanchor).le
  have hnext : (b.insertAt p block).next? ⟨b.number, b.size + k⟩ = (b.insertAt p block).handleAt? (p + (k + 1)) := by
    simp [next?, insertAt_positionOf?_fresh hb hp hk, Nat.add_assoc]
  rw [hnext]
  by_cases hlast : k + 1 < block.length
  · rw [insertAt_handleAt?_block hp hlast, List.getElem?_append_left (by rwa [fresh_length]),
      fresh_getElem?_eq_some.2 ⟨hlast, rfl⟩]
  · have hend : k + 1 = (b.fresh block.length).length := by rw [fresh_length]; omega
    rw [hend, List.getElem?_concat_length, fresh_length, ← shift_of_le (le_refl p), insertAt_handleAt?_shift hp,
      ← hb.positionOf?_eq_some, hanchor]

end

/-- **A block in front of an anchor is a detour.** -/
theorem detour_insertAt (hb : b.WellFormed) (hanchor : b.positionOf? anchor = some p)
    (hstraight : ∀ i ∈ block, Stack.Straight i) (hpos : 0 < block.length) :
    Detour b (b.insertAt p block) anchor (b.fresh block.length) := by
  have hp : p ≤ b.size := (hb.lt_size_of_positionOf? hanchor).le
  have hjumps_new : ∀ h ∈ b.fresh block.length, (b.insertAt p block).jumps h = [] := by
    intro h hh
    obtain ⟨k, hk, rfl⟩ := mem_fresh.1 hh
    rw [Body.jumps, insertAt_get?_fresh hb.toCoherent hp hk]
    exact (hstraight _ (List.getElem_mem hk)).targets
  have hjumps : ∀ h, b.contains h = true → (b.insertAt p block).jumps h = b.jumps h := by
    intro h hh
    rw [Body.jumps, Body.jumps, insertAt_get? hb.toCoherent hp hh]
  refine ⟨fun h => contains_insertAt_iff, fun h => not_contains_fresh, ?_, hjumps, fun h hh => ?_, hjumps_new,
    fun k h hk => ?_, fun h hh t ht hnew => ?_⟩
  · refine insertAt_handleAt?_front hb.toCoherent hanchor hpos ?_
    split_ifs with hzero
    · exact hzero
    · exact (shift_of_lt (Nat.pos_of_ne_zero (Ne.symm hzero))).symm
  · rw [fallsTo?, fallsTo?, insertAt_get? hb.toCoherent hp hh, insertAt_next? hb.toCoherent hanchor hpos hh]
    cases b.get? h with
    | none => rfl
    | some i => cases hterm : i.flow.isTerminal <;> simp [hterm]
  · obtain ⟨hlt, rfl⟩ := fresh_getElem?_eq_some.1 hk
    rw [fallsTo?, insertAt_get?_fresh hb.toCoherent hp hlt, Option.bind_some,
      (hstraight _ (List.getElem_mem hlt)).not_terminal]
    exact insertAt_next?_fresh hb.toCoherent hanchor hlt
  · rcases contains_insertAt_iff.1 hh with hold | hfresh
    · -- old instructions name only what was issued before
      rw [hjumps h hold, Body.jumps] at ht
      cases hi : b.get? h with
      | none =>
        rw [hi] at ht
        cases ht
      | some i =>
        rw [hi] at ht
        have hissued := hb.targets i (mem_instructions_of_get? hi) t ht
        obtain ⟨k, -, rfl⟩ := mem_fresh.1 hnew
        exact absurd (hissued rfl) (Nat.not_lt.2 (Nat.le_add_right _ _))
    · rw [hjumps_new h hfresh] at ht
      cases ht

/-! ## Regions with a block in them -/

section

variable (hb : b.Coherent)
include hb

/-- the boundaries of a region are in the body -/
theorem region_contains {cl : Clause} (hc : cl ∈ b.clauses) {r : Region} (hr : r ∈ cl.regions) :
    b.contains r.start = true ∧ ∀ stop ∈ r.stop, b.contains stop = true := by
  have hin := hb.clauses cl hc
  simp only [Clause.regions, List.mem_cons, List.not_mem_nil, or_false] at hr
  rcases hr with rfl | rfl
  · refine ⟨hin _ (by simp [Clause.boundaries]), fun t (ht : cl.tryEnd = some t) => hin t ?_⟩
    simp [Clause.boundaries, ht]
  · refine ⟨hin _ (by simp [Clause.boundaries]), fun t (ht : cl.handlerEnd = some t) => hin t ?_⟩
    simp [Clause.boundaries, ht]

variable (hanchor : b.positionOf? anchor = some p) {r : Region} (hstart : b.contains r.start = true)
  (hstop : ∀ stop ∈ r.stop, b.contains stop = true)
include hanchor hstart hstop

/-- where the boundaries of a region are afterwards -/
theorem region_insertAt (block : List Instruction) : ∃ s, b.positionOf? r.start = some s ∧
    (b.insertAt p block).positionOf? r.start = some (shift p block.length s) ∧
    ∀ stop ∈ r.stop, ∃ e, b.positionOf? stop = some e ∧
      (b.insertAt p block).positionOf? stop = some (shift p block.length e) := by
  have hp : p ≤ b.size := (hb.lt_size_of_positionOf? hanchor).le
  have hmoves : ∀ t, b.contains t = true → ∃ s, b.positionOf? t = some s ∧
      (b.insertAt p block).positionOf? t = some (shift p block.length s) := by
    intro t ht
    obtain ⟨s, hs⟩ := Option.isSome_iff_exists.1 (hb.positionOf?_isSome.2 ht)
    exact ⟨s, hs, by rw [insertAt_positionOf? hb hp (.of_contains ht), hs, Option.map_some]⟩
  obtain ⟨s, hs, hs'⟩ := hmoves r.start hstart
  exact ⟨s, hs, hs', fun stop h => hmoves stop (hstop stop h)⟩

/-- **A region keeps the instructions that it had.** -/
theorem has_insertAt_iff {h : Handle} (hh : b.contains h = true) : r.Has (b.insertAt p block) h ↔ r.Has b h := by
  obtain ⟨s, hs, hs', hends⟩ := region_insertAt hb hanchor hstart hstop block
  obtain ⟨q, hq⟩ := Option.isSome_iff_exists.1 (hb.positionOf?_isSome.2 hh)
  have hq' : (b.insertAt p block).positionOf? h = some (shift p block.length q) := by
    rw [insertAt_positionOf? hb (hb.lt_size_of_positionOf? hanchor).le (.of_contains hh), hq, Option.map_some]
  simp only [Region.Has, hs, hs', hq, hq', Option.some.injEq, exists_and_left, exists_eq_left', shift_le_shift]
  refine and_congr_right' (forall₂_congr fun stop hstop => ?_)
  obtain ⟨e, he, he'⟩ := hends stop hstop
  simp only [he, he', Option.some.injEq, exists_eq_left', shift_lt_shift]

/-- **A region gets the new instructions if it has what is in front of the anchor.** -/
theorem has_fresh_iff {h : Handle} (hh : h ∈ b.fresh block.length) :
    r.Has (b.insertAt p block) h ↔ r.HasFront b anchor := by
  obtain ⟨s, hs, hs', hends⟩ := region_insertAt hb hanchor hstart hstop block
  obtain ⟨k, hk, rfl⟩ := mem_fresh.1 hh
  have hq' := insertAt_positionOf?_fresh hb (hb.lt_size_of_positionOf? hanchor).le hk
  simp only [Region.Has, Region.HasFront, hs, hs', hanchor, hq', Option.some.injEq, exists_and_left, exists_eq_left',
    shift_le_block hk]
  refine and_congr_right' (forall₂_congr fun stop hstop => ?_)
  obtain ⟨e, he, he'⟩ := hends stop hstop
  simp only [he, he', Option.some.injEq, exists_eq_left', block_lt_shift hk]

end

end

/-- **Putting in a block keeps control flow and regions.** For every body that can be built, every anchor in it and
every block of straight-line code that is not empty: the block is a detour in front of the anchor, and without it the
ways through the code, all of them and those from its start, are those that there were. No clause names a new
instruction, a region keeps what it had, and it gets the new instructions exactly if it starts before the anchor and does
not end before it. -/
theorem insertBefore_detour (b : Body) (hb : b.Reachable) (anchor : Handle) (ha : b.contains anchor = true)
    (block : List Instruction) (hne : block ≠ []) (hstraight : ∀ i ∈ block, Stack.Straight i) :
    ∃ b' new, b.insertBefore anchor block = .ok (b', new) ∧ new.length = block.length ∧ Detour b b' anchor new ∧
      (∀ way, b.IsWay way ↔ ∃ way', b'.IsWay way' ∧ strip new way' = way) ∧
      (∀ way, (b.IsWay way ∧ b.Starts way) ↔ ∃ way', (b'.IsWay way' ∧ b'.Starts way') ∧ strip new way' = way) ∧
      b'.clauses = b.clauses ∧
      ∀ cl ∈ b.clauses, (∀ t ∈ cl.boundaries, t ∉ new) ∧
        ∀ r ∈ cl.regions, (∀ h, b.contains h = true → (r.Has b' h ↔ r.Has b h)) ∧
          ∀ h ∈ new, r.Has b' h ↔ r.HasFront b anchor := by
  have hwf := hb.wellFormed
  have hpos : 0 < block.length := List.length_pos_iff.2 hne
  obtain ⟨p, hanchor⟩ := Option.isSome_iff_exists.1 (hwf.positionOf?_isSome.2 ha)
  have hinsert : b.insertBefore anchor block = .ok (b.insertAt p block, b.fresh block.length) := by
    simp only [Body.insertBefore, hanchor]
  have hdetour := detour_insertAt hwf hanchor hstraight hpos
  have hnew : b.fresh block.length ≠ [] := List.ne_nil_of_length_pos (by rwa [fresh_length])
  refine ⟨_, _, hinsert, fresh_length _ _, hdetour, fun way => hdetour.isWay_iff hwf hnew,
    fun way => hdetour.isWay_starts_iff hwf hnew, rfl, fun cl hc => ⟨fun t ht hmem => ?_, fun r hr => ?_⟩⟩
  · exact not_contains_fresh hmem (hwf.clauses cl hc t ht)
  · obtain ⟨hstart, hstop⟩ := region_contains hwf.toCoherent hc hr
    exact ⟨fun h hh => has_insertAt_iff hwf.toCoherent hanchor hstart hstop hh,
      fun h hh => has_fresh_iff hwf.toCoherent hanchor hstart hstop hh⟩

end Body

open Stack (guardedLoop guardedLoop_reachable)

/-- The loop that the code starts with gets a detour in front of it, outside of the region that starts with the loop:
control takes it once and jumps past it when it goes back. -/
theorem Body.insertBefore_detour_guardedLoop :
    ∃ b', guardedLoop.insertBefore ⟨1, 1⟩ [{ opcode := .nop }] = .ok (b', [⟨1, 5⟩]) ∧ b'.entry? = some ⟨1, 5⟩ ∧
      b'.successors ⟨1, 5⟩ = [⟨1, 1⟩] ∧ ¬ (Region.mk ⟨1, 1⟩ none).Has b' ⟨1, 5⟩ ∧
      ∃ way', b'.IsWay way' ∧ b'.Starts way' ∧ strip [⟨1, 5⟩] way' = [⟨1, 1⟩, ⟨1, 2⟩, ⟨1, 1⟩, ⟨1, 2⟩, ⟨1, 3⟩] := by
  have hstraight : ∀ i ∈ [Instruction.mk .nop .none], Stack.Straight i := by
    simp only [List.mem_singleton, forall_eq]
    exact ⟨Or.inl rfl, rfl⟩
  obtain ⟨b', new, hinsert, -, hdetour, -, hways, -, hclauses⟩ := insertBefore_detour guardedLoop guardedLoop_reachable
    ⟨1, 1⟩ (by decide) [{ opcode := .nop }] nofun hstraight
  have hcode : guardedLoop.insertBefore ⟨1, 1⟩ [{ opcode := .nop }] =
      .ok (guardedLoop.insertAt 0 [{ opcode := .nop }], [⟨1, 5⟩]) := by cbv
  cases hcode.symm.trans hinsert
  have hentry : guardedLoop.entry? = some ⟨1, 1⟩ := by cbv
  have hloop : guardedLoop.successors ⟨1, 1⟩ = [⟨1, 2⟩] ∧ guardedLoop.successors ⟨1, 2⟩ = [⟨1, 1⟩, ⟨1, 3⟩] := by cbv
  have hway : guardedLoop.IsWay [⟨1, 1⟩, ⟨1, 2⟩, ⟨1, 1⟩, ⟨1, 2⟩, ⟨1, 3⟩] := ⟨by decide, by simp [hloop]⟩
  obtain ⟨way', ⟨hway', hstarts'⟩, hstrip⟩ := (hways _).1 ⟨hway, fun h hh => hentry.trans hh⟩
  obtain ⟨-, hregions⟩ := hclauses { flags := 0, tryStart := ⟨1, 1⟩, handlerStart := ⟨1, 4⟩ }
    (by simp [guardedLoop])
  obtain ⟨-, hregion⟩ := hregions ⟨⟨1, 1⟩, none⟩ (by simp [Clause.regions])
  refine ⟨_, hcode, ?_, ?_, ?_, way', hway', hstarts', hstrip⟩
  · rw [hdetour.entry, if_pos hentry]
    rfl
  · rw [successors, hdetour.jumps_new _ (List.mem_singleton_self _), hdetour.falls_new 0 _ rfl]
    rfl
  · -- the region starts at the anchor, not before it
    rw [hregion _ (List.mem_singleton_self _)]
    rintro ⟨s, p, hs, hp, hlt, -⟩
    rw [hs] at hp
    cases hp
    exact lt_irrefl _ hlt

end CilGraft

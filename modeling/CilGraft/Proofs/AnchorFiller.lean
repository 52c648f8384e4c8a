/-
Anchors do not depend on filler: code that no step of a pattern looks for.

- `Step.find_move_insertAt`, `Step.next_move_insertAt`: a step in code with filler goes to where the same instruction is
  now. A `next` step does so unless the filler is just in front of the instruction that it selects.
- `trail_insertAt`: so does the whole search. Two cursors, one in the old and one in the new code, stay at the same
  instructions.
- `Padded`: a body with any amount of filler in it. `locate_padded`: its anchor is the one of the original body.
-/
import CilGraft.Proofs.AnchorSearch
import CilGraft.Proofs.Insertion

namespace CilGraft.Anchor

open Body (shift shift_le_shift shift_of_lt shift_of_le shift_succ shift_or_block)

/-- no instruction of a block is one that a step looks for -/
def Ignores (resolve : Resolver) (steps : List Step) (block : List Instruction) : Prop :=
  ∀ predicate, .find predicate ∈ steps → ∀ i ∈ block, predicate.accepts resolve i = false

/-- of what the steps select, that which `next` steps do -/
def ofNext : List Step → List Nat → List Nat
  | .next :: steps, q :: positions => q :: ofNext steps positions
  | .find _ :: steps, _ :: positions => ofNext steps positions
  | _, _ => []

theorem mem_of_mem_ofNext {steps : List Step} {positions : List Nat} {q : Nat} (h : q ∈ ofNext steps positions) :
    q ∈ positions := by
  fun_induction ofNext steps positions with
  | case1 steps q' positions ih =>
    rcases List.mem_cons.1 h with rfl | h
    · exact List.mem_cons_self
    · exact List.mem_cons_of_mem _ (ih h)
  | case2 _ steps _ positions ih => exact List.mem_cons_of_mem _ (ih h)
  | case3 => cases h

theorem ofNext_map (f : Nat → Nat) (steps : List Step) (positions : List Nat) :
    ofNext steps (positions.map f) = (ofNext steps positions).map f := by
  fun_induction ofNext steps positions with
  | case1 steps q positions ih => simp [ofNext, ih]
  | case2 _ steps _ positions ih => simp [ofNext, ih]
  | case3 steps positions hnext hfind =>
    cases steps with
    | nil => rfl
    | cons step steps =>
      cases positions with
      | nil => cases step <;> rfl
      | cons q positions =>
        cases step with
        | next => exact absurd rfl (hnext steps q positions rfl)
        | find predicate => exact absurd rfl (hfind predicate steps q positions rfl)

section

variable {b : Body} {resolve : Resolver} {p q : Nat} {block : List Instruction} {cursor : Option Nat} {steps : List Step}
  {positions : List Nat} (hp : p ≤ b.size)
include hp

theorem insertAt_instructions_shift (q : Nat) :
    (b.insertAt p block).instructions[shift p block.length q]? = b.instructions[q]? := by
  rw [Body.instructions_getElem?, Body.instructions_getElem?, Body.insertAt_instructionAt?_shift hp]

/-! ## Steps -/

namespace Step

variable {predicate : Predicate}

/-- behind filler as before it, what a `find` step may reach are the old instructions -/
theorem find_mayReach_insertAt (hblock : ∀ i ∈ block, predicate.accepts resolve i = false) {q' : Nat} :
    (find predicate).MayReach (b.insertAt p block).instructions resolve (cursor.map (shift p block.length)) q' ↔
      ∃ q, (find predicate).MayReach b.instructions resolve cursor q ∧ shift p block.length q = q' := by
  have hcursor : ∀ q, (cursor.map (shift p block.length)).getD 0 ≤ shift p block.length q ↔ cursor.getD 0 ≤ q := by
    intro q
    cases cursor with
    | none => exact ⟨fun _ => Nat.zero_le q, fun _ => Nat.zero_le _⟩
    | some c => exact shift_le_shift
  constructor
  · rintro ⟨hle, i, hi, haccepts⟩
    rcases shift_or_block p block.length q' with ⟨q, rfl⟩ | ⟨k, hk, rfl⟩
    · rw [insertAt_instructions_shift hp] at hi
      exact ⟨q, ⟨(hcursor q).1 hle, i, hi, haccepts⟩, rfl⟩
    · rw [Body.instructions_getElem?, Body.insertAt_instructionAt?_block hp hk] at hi
      cases hi
      rw [hblock _ (List.getElem_mem hk)] at haccepts
      cases haccepts
  · rintro ⟨q, ⟨hle, i, hi, haccepts⟩, rfl⟩
    exact ⟨(hcursor q).2 hle, i, by rw [insertAt_instructions_shift hp, hi], haccepts⟩

/-- **A `find` step passes over filler.** -/
theorem find_move_insertAt (hblock : ∀ i ∈ block, predicate.accepts resolve i = false) :
    (find predicate).move (b.insertAt p block).instructions resolve (cursor.map (shift p block.length)) =
      ((find predicate).move b.instructions resolve cursor).map (shift p block.length) := by
  refine Option.ext fun q' => ?_
  rw [move_eq_some, Option.map_eq_some_iff]
  simp only [move_eq_some, find_mayReach_insertAt hp hblock]
  constructor
  · rintro ⟨⟨q, hq, rfl⟩, hleast⟩
    exact ⟨q, ⟨hq, fun r hr => shift_le_shift.1 (hleast ⟨r, hr, rfl⟩)⟩, rfl⟩
  · rintro ⟨q, ⟨hq, hleast⟩, rfl⟩
    refine ⟨⟨q, hq, rfl⟩, ?_⟩
    rintro _ ⟨r, hr, rfl⟩
    exact shift_le_shift.2 (hleast hr)

/-- **A `next` step goes to the same instruction**, if the filler is not just in front of it. -/
theorem next_move_insertAt (h : next.move b.instructions resolve cursor = some q) (hq : q ≠ p) :
    next.move (b.insertAt p block).instructions resolve (cursor.map (shift p block.length)) =
      some (shift p block.length q) := by
  obtain ⟨rfl, hlt⟩ := next_move_eq_some.1 h
  refine next_move_eq_some.2 ⟨?_, ?_⟩
  · cases cursor with
    | none => exact shift_of_lt (Nat.pos_of_ne_zero (Ne.symm hq))
    | some c => exact (shift_succ hq).symm
  · obtain ⟨i, hi⟩ : ∃ i, b.instructions[cursor.elim 0 (· + 1)]? = some i := ⟨_, List.getElem?_eq_getElem hlt⟩
    exact (List.getElem?_eq_some_iff.1 ((insertAt_instructions_shift hp _).trans hi)).1

end Step

/-! ## The search -/

/-- **The search selects the same instructions** in code with filler, put in where no `next` step selects. -/
theorem trail_insertAt (hblock : Ignores resolve steps block)
    (h : trail b.instructions resolve steps cursor = some positions) (hnext : p ∉ ofNext steps positions) :
    trail (b.insertAt p block).instructions resolve steps (cursor.map (shift p block.length)) =
      some (positions.map (shift p block.length)) := by
  induction steps generalizing cursor positions with
  | nil =>
    cases h
    rfl
  | cons step steps ih =>
    obtain ⟨q, rest, hmove, hrest, rfl⟩ := trail_cons_eq_some.1 h
    have hblock' : Ignores resolve steps block := fun predicate hmem => hblock predicate (List.mem_cons_of_mem _ hmem)
    refine trail_cons_eq_some.2 ⟨shift p block.length q, rest.map (shift p block.length), ?_, ?_, rfl⟩
    · cases step with
      | find predicate =>
        rw [Step.find_move_insertAt hp (hblock predicate List.mem_cons_self), hmove, Option.map_some]
      | next =>
        refine Step.next_move_insertAt hp hmove fun heq => hnext ?_
        rw [ofNext, heq]
        exact List.mem_cons_self
    · refine ih hblock' hrest fun hmem => hnext ?_
      cases step with
      | find predicate => exact hmem
      | next => exact List.mem_cons_of_mem _ hmem

/-- without `next` steps the search also fails where it failed -/
theorem trail_insertAt_find (hblock : Ignores resolve steps block) (hfind : .next ∉ steps) :
    trail (b.insertAt p block).instructions resolve steps (cursor.map (shift p block.length)) =
      (trail b.instructions resolve steps cursor).map (List.map (shift p block.length)) := by
  induction steps generalizing cursor with
  | nil => rfl
  | cons step steps ih =>
    have hblock' : Ignores resolve steps block := fun predicate hmem => hblock predicate (List.mem_cons_of_mem _ hmem)
    have hfind' : .next ∉ steps := fun hmem => hfind (List.mem_cons_of_mem _ hmem)
    cases step with
    | next => exact absurd List.mem_cons_self hfind
    | find predicate =>
      rw [trail, trail, Step.find_move_insertAt hp (hblock predicate List.mem_cons_self)]
      cases (Step.find predicate).move b.instructions resolve cursor with
      | none => rfl
      | some q =>
        have hrest := @ih (some q) hblock' hfind'
        simp only [Option.map_some, Option.bind_some] at hrest ⊢
        rw [hrest, Option.map_map, Option.map_map]
        rfl

end

namespace Pattern

/-- the instructions that the `next` steps of a successful search select -/
def selectedByNext (pattern : Pattern) (b : Body) (resolve : Resolver) : List Handle :=
  ((trail b.instructions resolve pattern.steps none).elim [] (ofNext pattern.steps)).filterMap b.handleAt?

variable {pattern : Pattern} {b b' : Body} {resolve : Resolver} {p : Nat} {block : List Instruction} {h : Handle}
  {pinned : List Handle}

/-- filler in front of an instruction that no `next` step selects leaves the anchor alone, and what such steps select -/
theorem locate_insertAt (hp : p ≤ b.size) (hblock : Ignores resolve pattern.steps block)
    (hlocate : pattern.locate b resolve = .ok h) (hnext : ∀ a ∈ b.handleAt? p, a ∉ pattern.selectedByNext b resolve) :
    pattern.locate (b.insertAt p block) resolve = .ok h ∧
      pattern.selectedByNext (b.insertAt p block) resolve = pattern.selectedByNext b resolve := by
  obtain ⟨positions, anchor, htrail, hlast, hanchor⟩ := locate_eq_ok.1 hlocate
  have hselected : pattern.selectedByNext b resolve = (ofNext pattern.steps positions).filterMap b.handleAt? := by
    rw [selectedByNext, htrail, Option.elim_some]
  have hp_next : p ∉ ofNext pattern.steps positions := by
    intro hmem
    have hlt := (trail_fits htrail).lt_length p (mem_of_mem_ofNext hmem)
    obtain ⟨a, ha⟩ := Option.isSome_iff_exists.1 (Body.handleAt?_isSome.2 (b.instructions_length ▸ hlt))
    refine hnext a ha ?_
    rw [hselected]
    exact List.mem_filterMap.2 ⟨p, hmem, ha⟩
  have htrail' := trail_insertAt hp hblock htrail hp_next
  refine ⟨locate_eq_ok.2 ⟨_, shift p block.length anchor, htrail', ?_, ?_⟩, ?_⟩
  · rw [List.getLast?_map, hlast, Option.map_some]
  · rw [Body.insertAt_handleAt?_shift hp, hanchor]
  · rw [hselected, selectedByNext]
    rw [Option.map_none] at htrail'
    rw [htrail', Option.elim_some, ofNext_map, List.filterMap_map]
    exact congrArg (List.filterMap · _) (funext (Body.insertAt_handleAt?_shift hp))

/-- without `next` steps filler changes nothing anywhere -/
theorem locate_insertAt_find (hp : p ≤ b.size) (hblock : Ignores resolve pattern.steps block)
    (hfind : .next ∉ pattern.steps) : pattern.locate (b.insertAt p block) resolve = pattern.locate b resolve := by
  have hwalk : (walk (b.insertAt p block).instructions resolve pattern.steps none).bind (b.insertAt p block).handleAt? =
      (walk b.instructions resolve pattern.steps none).bind b.handleAt? := by
    have htrail : trail (b.insertAt p block).instructions resolve pattern.steps (Option.map (shift p block.length) none) =
      _ := trail_insertAt_find hp hblock hfind
    rw [Option.map_none] at htrail
    rw [walk_eq_trail, walk_eq_trail, htrail]
    cases trail b.instructions resolve pattern.steps none with
    | none => rfl
    | some positions =>
      simp only [Option.map_some, Option.bind_some, Option.or_none, List.getLast?_map, Option.bind_map]
      exact congrArg _ (funext (Body.insertAt_handleAt?_shift hp))
  rw [locate, locate, hwalk]

/-! ## Any amount of filler -/

/-- The body is `b` with filler in it: blocks that the pattern ignores were put in front of instructions that are not
pinned, one after the other and possibly in front of filler, or at the end. -/
inductive Padded (pattern : Pattern) (resolve : Resolver) (pinned : List Handle) (b : Body) : Body → Prop where
  | refl : Padded pattern resolve pinned b b
  | insertBefore {b' b'' : Body} {anchor : Handle} {block : List Instruction} {new : List Handle}
      (h : Padded pattern resolve pinned b b') (hblock : Ignores resolve pattern.steps block) (hanchor : anchor ∉ pinned)
      (hinsert : b'.insertBefore anchor block = .ok (b'', new)) : Padded pattern resolve pinned b b''
  | push {b' : Body} (h : Padded pattern resolve pinned b b') (i : Instruction)
      (hi : Ignores resolve pattern.steps [i]) : Padded pattern resolve pinned b (b'.push i).1

/-- what one block of filler keeps, any amount of it does -/
theorem Padded.keeps {P : Body → Prop} (h : Padded pattern resolve pinned b b') (hb : P b)
    (hstep : ∀ (b : Body) (p : Nat) (block : List Instruction), p ≤ b.size → Ignores resolve pattern.steps block →
      (∀ a ∈ b.handleAt? p, a ∉ pinned) → P b → P (b.insertAt p block)) : P b' := by
  induction h with
  | refl => exact hb
  | insertBefore _ hblock hanchor hinsert ih =>
    obtain ⟨p, hposition, rfl, -⟩ := Body.insertBefore_ok hinsert
    have hat := Body.handleAt?_of_positionOf? hposition
    refine hstep _ p _ (Body.lt_size_of_handleAt? hat).le hblock (fun a ha => ?_) ih
    rw [hat] at ha
    cases ha
    exact hanchor
  | push _ i hi ih =>
    rw [Body.push_eq_insertAt]
    refine hstep _ _ _ le_rfl hi (fun a ha => ?_) ih
    exact absurd (Body.lt_size_of_handleAt? ha) (lt_irrefl _)

/-- **Anchors do not depend on filler.** An anchor stays the same whatever filler is put in, as long as nothing comes in
front of the instructions that the `next` steps select. Without such steps a search that fails goes on failing, too. -/
theorem locate_padded (pattern : Pattern) (resolve : Resolver) (b b' : Body) :
    (∀ h, pattern.locate b resolve = .ok h → Padded pattern resolve (pattern.selectedByNext b resolve) b b' →
      pattern.locate b' resolve = .ok h ∧
        pattern.selectedByNext b' resolve = pattern.selectedByNext b resolve) ∧
    (.next ∉ pattern.steps → Padded pattern resolve [] b b' → pattern.locate b' resolve = pattern.locate b resolve) := by
  refine ⟨fun h hlocate hpadded => ?_, fun hfind hpadded => ?_⟩
  · refine hpadded.keeps (P := fun b₁ => pattern.locate b₁ resolve = .ok h ∧
      pattern.selectedByNext b₁ resolve = pattern.selectedByNext b resolve) ⟨hlocate, rfl⟩ ?_
    rintro b₁ p block hp hblock hpinned ⟨hlocate₁, hselected₁⟩
    rw [← hselected₁] at hpinned ⊢
    exact locate_insertAt hp hblock hlocate₁ hpinned
  · refine hpadded.keeps (P := fun b₁ => pattern.locate b₁ resolve = pattern.locate b resolve) rfl ?_
    intro b₁ p block hp hblock _ hsame
    exact (locate_insertAt_find hp hblock hfind).trans hsame

/-- filler in front of the instruction that a `find` step selects, and more in front of that filler; and a search that
fails before and after -/
theorem locate_padded_twice :
    let b := ((Body.empty 1).append [⟨.pop, .none⟩, ⟨.nop, .none⟩, ⟨.ret, .none⟩]).1
    let behindNop : Pattern := ⟨"behind", [.find ⟨.exactly .nop, none⟩, .next]⟩
    let thrown : Pattern := ⟨"thrown", [.find ⟨.exactly .throw, none⟩]⟩
    behindNop.selectedByNext b (fun _ => none) = [⟨1, 2⟩] ∧ ∃ b₁ b₂,
      b.insertBefore ⟨1, 1⟩ [⟨.ldnull, .none⟩, ⟨.pop, .none⟩] = .ok (b₁, [⟨1, 3⟩, ⟨1, 4⟩]) ∧
      b₁.insertBefore ⟨1, 3⟩ [⟨.dup, .none⟩] = .ok (b₂, [⟨1, 5⟩]) ∧
      behindNop.locate b₂ (fun _ => none) = .ok ⟨1, 2⟩ ∧
      thrown.locate b₂ (fun _ => none) = .error (.anchorNotFound "thrown [throw]") := by
  intro b behindNop thrown
  have hselected : behindNop.selectedByNext b (fun _ => none) = [⟨1, 2⟩] := by decide
  have hlocate : behindNop.locate b (fun _ => none) = .ok ⟨1, 2⟩ := by rfl
  have hmissing : thrown.locate b (fun _ => none) = .error (.anchorNotFound "thrown [throw]") := by cbv
  have h₁ : b.insertBefore ⟨1, 1⟩ [⟨.ldnull, .none⟩, ⟨.pop, .none⟩] =
      .ok (b.insertAt 1 [⟨.ldnull, .none⟩, ⟨.pop, .none⟩], [⟨1, 3⟩, ⟨1, 4⟩]) := by cbv
  set b₁ := b.insertAt 1 [⟨.ldnull, .none⟩, ⟨.pop, .none⟩]
  have h₂ : b₁.insertBefore ⟨1, 3⟩ [⟨.dup, .none⟩] = .ok (b₁.insertAt 1 [⟨.dup, .none⟩], [⟨1, 5⟩]) := by cbv
  set b₂ := b₁.insertAt 1 [⟨.dup, .none⟩]
  have hpadded : ∀ (pattern : Pattern) (pinned : List Handle), ⟨1, 1⟩ ∉ pinned → ⟨1, 3⟩ ∉ pinned →
      Ignores (fun _ => none) pattern.steps [⟨.ldnull, .none⟩, ⟨.pop, .none⟩] →
      Ignores (fun _ => none) pattern.steps [⟨.dup, .none⟩] → Padded pattern (fun _ => none) pinned b b₂ :=
    fun pattern pinned hfirst hsecond hi hi' =>
      .insertBefore (.insertBefore .refl hi hfirst h₁) hi' hsecond h₂
  refine ⟨hselected, b₁, b₂, h₁, h₂, ?_, ?_⟩
  · refine ((locate_padded behindNop (fun _ => none) b b₂).1 _ hlocate (hpadded _ _ ?_ ?_ ?_ ?_)).1
    · rw [hselected]
      decide
    · rw [hselected]
      decide
    · simp [Ignores, behindNop, Predicate.accepts, OpcodeClass.accepts]
    · simp [Ignores, behindNop, Predicate.accepts, OpcodeClass.accepts]
  · refine ((locate_padded thrown (fun _ => none) b b₂).2 (by decide) (hpadded _ _ ?_ ?_ ?_ ?_)).trans hmissing
    · decide
    · decide
    · simp [Ignores, thrown, Predicate.accepts, OpcodeClass.accepts]
    · simp [Ignores, thrown, Predicate.accepts, OpcodeClass.accepts]

end Pattern

end CilGraft.Anchor

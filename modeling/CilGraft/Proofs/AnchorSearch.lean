/-
The search for an anchor goes through the code once and never goes back, and yet it misses nothing.

- `Step.MayReach`, `Fits`: where a step may take the cursor, and the positions that the steps of a pattern may select one
  after the other.
- `Step.move_eq_some`: a step goes to the first position that it may reach.
- `trail`: the positions that the search selects. `walk_eq_trail`: it ends at the last of them.
- `trail_le`: no other selection is ahead of the search anywhere. An earlier cursor reaches all that a later one does,
  or something before it, so to go on from the first match is never wrong.
- `locate_least`: the anchor is the first one possible, and there is one if the pattern fits at all.
-/
import CilGraft.Anchor
import CilGraft.Proofs.BodyInvariant

namespace CilGraft.Anchor

variable {code : List Instruction} {resolve : Resolver}

/-! ## Steps -/

/-- where a step may take the cursor: `find` to any accepted instruction from the cursor on, `next` to the one
instruction behind it, which is the first one as long as there is no cursor -/
def Step.MayReach (code : List Instruction) (resolve : Resolver) (cursor : Option Nat) : Step → Nat → Prop
  | find predicate, q => cursor.getD 0 ≤ q ∧ ∃ i, code[q]? = some i ∧ predicate.accepts resolve i = true
  | next, q => q = cursor.elim 0 (· + 1) ∧ q < code.length

theorem positionFrom_eq_some {accepts : Instruction → Bool} {start q : Nat} :
    positionFrom code accepts start = some q ↔
      IsLeast {p | start ≤ p ∧ ∃ i, code[p]? = some i ∧ accepts i = true} q := by
  simp only [positionFrom, Option.map_eq_some_iff, List.findIdx?_eq_some_iff_getElem, List.length_drop,
    List.getElem_drop]
  constructor
  · rintro ⟨k, ⟨hk, haccepts, hbefore⟩, rfl⟩
    refine ⟨⟨Nat.le_add_right _ _, _, List.getElem?_eq_getElem (by omega), haccepts⟩, ?_⟩
    rintro p ⟨hp, i, hi, hi'⟩
    by_contra hlt
    obtain ⟨j, rfl⟩ := Nat.exists_eq_add_of_le hp
    obtain ⟨_, rfl⟩ := List.getElem?_eq_some_iff.1 hi
    exact hbefore j (by omega) hi'
  · rintro ⟨⟨hstart, i, hi, haccepts⟩, hleast⟩
    obtain ⟨k, rfl⟩ := Nat.exists_eq_add_of_le hstart
    obtain ⟨hlt, rfl⟩ := List.getElem?_eq_some_iff.1 hi
    refine ⟨k, ⟨by omega, haccepts, fun j hj haccepts' => ?_⟩, rfl⟩
    have hle := hleast ⟨Nat.le_add_right start j, _, List.getElem?_eq_getElem (by omega), haccepts'⟩
    omega

namespace Step

variable {step : Step} {cursor cursor' : Option Nat} {q q' : Nat}

theorem MayReach.lt_length (h : step.MayReach code resolve cursor q) : q < code.length := by
  cases step with
  | find predicate =>
    obtain ⟨-, i, hi, -⟩ := h
    exact (List.getElem?_eq_some_iff.1 hi).1
  | next => exact h.2

theorem next_move_eq_some :
    next.move code resolve cursor = some q ↔ q = cursor.elim 0 (· + 1) ∧ q < code.length := by
  have hmove : next.move code resolve cursor =
      if cursor.elim 0 (· + 1) < code.length then some (cursor.elim 0 (· + 1)) else none := by
    cases cursor <;> rfl
  rw [hmove, Option.ite_none_right_eq_some, Option.some_inj]
  constructor
  · rintro ⟨hlt, rfl⟩
    exact ⟨rfl, hlt⟩
  · rintro ⟨rfl, hlt⟩
    exact ⟨hlt, rfl⟩

/-- **A step goes to the first position that it may reach.** -/
theorem move_eq_some :
    step.move code resolve cursor = some q ↔ IsLeast {p | step.MayReach code resolve cursor p} q := by
  cases step with
  | find predicate => exact positionFrom_eq_some
  | next =>
    rw [next_move_eq_some]
    -- there is no other position
    exact ⟨fun h => ⟨h, fun p hp => (h.1.trans hp.1.symm).le⟩, fun h => h.1⟩

/-- a step that may reach something goes there or to something before it -/
theorem MayReach.move (h : step.MayReach code resolve cursor q) :
    ∃ p, step.move code resolve cursor = some p ∧ p ≤ q := by
  have hleast := isLeast_csInf (s := {p | step.MayReach code resolve cursor p}) ⟨q, h⟩
  exact ⟨_, move_eq_some.2 hleast, hleast.2 h⟩

/-- from an earlier cursor a step may reach the same position or one before it -/
theorem MayReach.earlier (hle : Option.Rel (· ≤ ·) cursor cursor') (h : step.MayReach code resolve cursor' q') :
    ∃ q ≤ q', step.MayReach code resolve cursor q := by
  cases hle with
  | none => exact ⟨q', le_rfl, h⟩
  | @some c c' hc =>
    cases step with
    | find predicate => exact ⟨q', le_rfl, hc.trans h.1, h.2⟩
    | next =>
      obtain ⟨rfl, hlt⟩ := h
      exact ⟨c + 1, Nat.succ_le_succ hc, rfl, (Nat.succ_le_succ hc).trans_lt hlt⟩

end Step

/-! ## Patterns -/

/-- positions that the steps may select one after the other, from a cursor on -/
inductive Fits (code : List Instruction) (resolve : Resolver) : Option Nat → List Step → List Nat → Prop where
  | nil (cursor : Option Nat) : Fits code resolve cursor [] []
  | cons {cursor : Option Nat} {step : Step} {steps : List Step} {q : Nat} {positions : List Nat}
      (hreach : step.MayReach code resolve cursor q) (hrest : Fits code resolve (some q) steps positions) :
      Fits code resolve cursor (step :: steps) (q :: positions)

/-- the positions that the search selects -/
def trail (code : List Instruction) (resolve : Resolver) : List Step → Option Nat → Option (List Nat)
  | [], _ => some []
  | step :: steps, cursor => (step.move code resolve cursor).bind fun position =>
    (trail code resolve steps (some position)).map (position :: ·)

variable {step : Step} {steps : List Step} {cursor cursor' : Option Nat} {positions others : List Nat}

theorem trail_cons_eq_some : trail code resolve (step :: steps) cursor = some positions ↔
    ∃ q rest, step.move code resolve cursor = some q ∧ trail code resolve steps (some q) = some rest ∧
      positions = q :: rest := by
  simp only [trail, Option.bind_eq_some_iff, Option.map_eq_some_iff]
  constructor
  · rintro ⟨q, hq, rest, hrest, rfl⟩
    exact ⟨q, rest, hq, hrest, rfl⟩
  · rintro ⟨q, rest, hq, hrest, rfl⟩
    exact ⟨q, hq, rest, hrest, rfl⟩

/-- the search ends at the last position that it selects, or where it started -/
theorem walk_eq_trail : Pattern.walk code resolve steps cursor =
    (trail code resolve steps cursor).bind fun positions => positions.getLast?.or cursor := by
  induction steps generalizing cursor with
  | nil => rfl
  | cons step steps ih =>
    cases hmove : step.move code resolve cursor with
    | none => simp only [Pattern.walk, trail, hmove, Option.bind_none]
    | some q =>
      simp only [Pattern.walk, trail, hmove, ih, Option.bind_some, Option.bind_map]
      refine congrArg _ (funext fun rest => ?_)
      simp only [Function.comp_apply, List.getLast?_cons]
      cases rest.getLast? <;> rfl

theorem trail_fits (h : trail code resolve steps cursor = some positions) :
    Fits code resolve cursor steps positions := by
  induction steps generalizing cursor positions with
  | nil =>
    cases h
    exact .nil cursor
  | cons step steps ih =>
    obtain ⟨q, rest, hmove, hrest, rfl⟩ := trail_cons_eq_some.1 h
    exact .cons (Step.move_eq_some.1 hmove).1 (ih hrest)

/-- **The search is ahead of every selection.** By induction on the selection, with a cursor that is not behind its. -/
theorem trail_le (hle : Option.Rel (· ≤ ·) cursor cursor') (h : Fits code resolve cursor' steps others) :
    ∃ positions, trail code resolve steps cursor = some positions ∧ List.Forall₂ (· ≤ ·) positions others := by
  induction h generalizing cursor with
  | nil => exact ⟨[], rfl, .nil⟩
  | cons hreach _ ih =>
    obtain ⟨q, hq, hreach'⟩ := hreach.earlier hle
    obtain ⟨p, hmove, hp⟩ := hreach'.move
    obtain ⟨positions, htrail, hall⟩ := ih (.some (hp.trans hq))
    exact ⟨p :: positions, trail_cons_eq_some.2 ⟨p, positions, hmove, htrail, rfl⟩, .cons (hp.trans hq) hall⟩

theorem Fits.lt_length (h : Fits code resolve cursor steps positions) : ∀ q ∈ positions, q < code.length := by
  induction h with
  | nil => simp
  | cons hreach _ ih => exact List.forall_mem_cons.2 ⟨hreach.lt_length, ih⟩

theorem Fits.length_eq (h : Fits code resolve cursor steps positions) : positions.length = steps.length := by
  induction h with
  | nil => rfl
  | cons _ _ ih => simp [ih]

/-- positions that are ahead one by one have a last one that is ahead -/
theorem last_le (h : List.Forall₂ (· ≤ ·) positions others) {p q : Nat} (hp : positions.getLast? = some p)
    (hq : others.getLast? = some q) : p ≤ q := by
  rw [List.getLast?_eq_getElem?] at hp hq
  rw [h.length_eq] at hp
  obtain ⟨hlt, rfl⟩ := List.getElem?_eq_some_iff.1 hp
  obtain ⟨hlt', rfl⟩ := List.getElem?_eq_some_iff.1 hq
  exact (List.forall₂_iff_get.1 h).2 _ hlt hlt'

/-! ## Anchors -/

namespace Pattern

variable {pattern : Pattern} {b : Body} {h : Handle}

theorem locate_eq_ok : pattern.locate b resolve = .ok h ↔ ∃ positions anchor,
    trail b.instructions resolve pattern.steps none = some positions ∧ positions.getLast? = some anchor ∧
      b.handleAt? anchor = some h := by
  have hwalk : (walk b.instructions resolve pattern.steps none).bind b.handleAt? = some h ↔ ∃ positions anchor,
      trail b.instructions resolve pattern.steps none = some positions ∧ positions.getLast? = some anchor ∧
        b.handleAt? anchor = some h := by
    simp only [walk_eq_trail, Option.or_none, Option.bind_eq_some_iff]
    constructor
    · rintro ⟨anchor, ⟨positions, htrail, hlast⟩, hanchor⟩
      exact ⟨positions, anchor, htrail, hlast, hanchor⟩
    · rintro ⟨positions, anchor, htrail, hlast, hanchor⟩
      exact ⟨anchor, ⟨positions, htrail, hlast⟩, hanchor⟩
  rw [← hwalk, locate]
  cases (walk b.instructions resolve pattern.steps none).bind b.handleAt? <;> simp

/-- a search that fails says which pattern it was for -/
theorem locate_eq_error (hno : ¬ ∃ h, pattern.locate b resolve = .ok h) :
    pattern.locate b resolve = .error (.anchorNotFound pattern.text) := by
  unfold locate at hno ⊢
  split
  · rename_i h hh
    exact absurd ⟨h, by rw [hh]⟩ hno
  · rfl

/-- a pattern that fits has an anchor -/
theorem locate_of_fits (hsteps : pattern.steps ≠ [])
    (hfits : Fits b.instructions resolve none pattern.steps others) : ∃ h, pattern.locate b resolve = .ok h := by
  obtain ⟨positions, htrail, -⟩ := trail_le .none hfits
  have hne : positions ≠ [] := by
    rw [← List.length_pos_iff, (trail_fits htrail).length_eq, List.length_pos_iff]
    exact hsteps
  have hlt := (trail_fits htrail).lt_length _ (List.getLast_mem hne)
  obtain ⟨h, hh⟩ := Option.isSome_iff_exists.1 (Body.handleAt?_isSome.2 (b.instructions_length ▸ hlt))
  exact ⟨h, locate_eq_ok.2 ⟨positions, _, htrail, List.getLast?_eq_some_getLast hne, hh⟩⟩

/-- a pattern with one `find` looks for the first instruction that is accepted -/
theorem locate_find {predicate : Predicate} (hsteps : pattern.steps = [.find predicate]) :
    (pattern.locate b resolve).toOption = predicate.first? b resolve := by
  have hwalk : walk b.instructions resolve pattern.steps none =
      positionFrom b.instructions (predicate.accepts resolve) 0 := by
    rw [hsteps]
    simp only [walk, Step.move, Option.getD_none]
    cases positionFrom b.instructions (predicate.accepts resolve) 0 <;> rfl
  rw [locate, hwalk, Predicate.first?]
  cases (positionFrom b.instructions (predicate.accepts resolve) 0).bind b.handleAt? <;> rfl

/-- **The anchor is the first one possible.** It is located if there are steps and they fit anywhere. The positions that
the search selects fit, and none of them is behind that of another selection; the anchor is at the last of them. -/
theorem locate_least (pattern : Pattern) (b : Body) (resolve : Resolver) :
    ((∃ h, pattern.locate b resolve = .ok h) ↔
      pattern.steps ≠ [] ∧ ∃ positions, Fits b.instructions resolve none pattern.steps positions) ∧
    (∀ h, pattern.locate b resolve = .ok h → ∃ positions anchor,
      trail b.instructions resolve pattern.steps none = some positions ∧
        Fits b.instructions resolve none pattern.steps positions ∧
        positions.getLast? = some anchor ∧ b.handleAt? anchor = some h ∧
        ∀ others, Fits b.instructions resolve none pattern.steps others →
          List.Forall₂ (· ≤ ·) positions others ∧ ∀ other ∈ others.getLast?, anchor ≤ other) ∧
    ((pattern.steps = [] ∨ ¬ ∃ positions, Fits b.instructions resolve none pattern.steps positions) →
      pattern.locate b resolve = .error (.anchorNotFound pattern.text)) ∧
    ∀ predicate, pattern.steps = [.find predicate] →
      (pattern.locate b resolve).toOption = predicate.first? b resolve := by
  have hiff : (∃ h, pattern.locate b resolve = .ok h) ↔
      pattern.steps ≠ [] ∧ ∃ positions, Fits b.instructions resolve none pattern.steps positions := by
    constructor
    · rintro ⟨h, hlocate⟩
      obtain ⟨positions, anchor, htrail, hlast, -⟩ := locate_eq_ok.1 hlocate
      have hfits := trail_fits htrail
      refine ⟨fun hsteps => ?_, positions, hfits⟩
      have hnil : positions = [] := List.length_eq_zero_iff.1 (by rw [hfits.length_eq, hsteps]; rfl)
      rw [hnil] at hlast
      cases hlast
    · rintro ⟨hsteps, positions, hfits⟩
      exact locate_of_fits hsteps hfits
  refine ⟨hiff, fun h hlocate => ?_, fun hno => ?_, fun predicate hsteps => locate_find hsteps⟩
  · obtain ⟨positions, anchor, htrail, hlast, hanchor⟩ := locate_eq_ok.1 hlocate
    refine ⟨positions, anchor, htrail, trail_fits htrail, hlast, hanchor, fun others hothers => ?_⟩
    obtain ⟨positions', htrail', hall⟩ := trail_le .none hothers
    obtain rfl := Option.some_injective _ (htrail.symm.trans htrail')
    exact ⟨hall, fun other hother => last_le hall hlast hother⟩
  · refine locate_eq_error fun hok => ?_
    obtain ⟨hsteps, hfits⟩ := hiff.1 hok
    exact hno.elim hsteps fun hnone => hnone hfits

/-- two places where a pattern fits, and another pattern that would run past the end -/
theorem locate_least_repeated :
    let b := ((Body.empty 1).append [⟨.nop, .none⟩, ⟨.pop, .none⟩, ⟨.nop, .none⟩, ⟨.ret, .none⟩]).1
    let behindNop : Pattern := ⟨"behind", [.find ⟨.exactly .nop, none⟩, .next]⟩
    let behindRet : Pattern := ⟨"end", [.find ⟨.exactly .ret, none⟩, .next]⟩
    Fits b.instructions (fun _ => none) none behindNop.steps [2, 3] ∧
      (∃ h positions anchor, behindNop.locate b (fun _ => none) = .ok h ∧ b.handleAt? anchor = some h ∧
        List.Forall₂ (· ≤ ·) positions [2, 3] ∧ anchor ≤ 3) ∧
      behindRet.locate b (fun _ => none) = .error (.anchorNotFound "end [ret -> next]") := by
  intro b behindNop behindRet
  have hfits : Fits b.instructions (fun _ => none) none behindNop.steps [2, 3] :=
    .cons ⟨Nat.zero_le 2, ⟨.nop, .none⟩, rfl, rfl⟩ (.cons ⟨rfl, by decide⟩ (.nil _))
  obtain ⟨hiff, hleast, -⟩ := locate_least behindNop b fun _ => none
  obtain ⟨-, -, herror, -⟩ := locate_least behindRet b fun _ => none
  obtain ⟨h, hlocate⟩ := hiff.2 ⟨by decide, _, hfits⟩
  obtain ⟨positions, anchor, -, -, -, hanchor, hothers⟩ := hleast h hlocate
  obtain ⟨hall, hlast⟩ := hothers _ hfits
  refine ⟨hfits, ⟨h, positions, anchor, hlocate, hanchor, hall, hlast 3 rfl⟩, herror (Or.inr ?_)⟩
  -- the only `ret` is the last instruction
  rintro ⟨_, hno⟩
  obtain ⟨positions, htrail, -⟩ := trail_le .none hno
  have hnone : trail b.instructions (fun _ => none) behindRet.steps none = none := by decide
  rw [hnone] at htrail
  cases htrail

end Pattern

end CilGraft.Anchor

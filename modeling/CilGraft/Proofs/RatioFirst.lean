/-
Whether the scale blocks find the ratio that they read.

Nothing in a graft compares its two anchors, so the answer lies in the old code alone.

- `precedes_insertAt_iff`: of two blocks that are put in, the first is always passed before the second is entered just
  if in the old code control always falls to the first anchor before it falls to the second, or with the same step.
- `run_ok_ratio_first`: that for a whole run, with the end of the ratio block and the front of the scale blocks.
- `reversedGame`: a module whose method pushes the matrix before it makes a render target active. There the scale blocks
  come first.
-/
import CilGraft.Proofs.FlowPaths
import CilGraft.Proofs.Reanalysis

namespace CilGraft

open Body (shift)

/-! ## Handles and positions -/

section

variable {b : Body} (hb : b.WellFormed) {p q : Nat} {h h' : Handle} (hp : b.handleAt? p = some h)
  (hq : b.handleAt? q = some h')
include hb

theorem Body.WellFormed.handleAt?_iff (hp : b.handleAt? p = some h) {r : Nat} : b.handleAt? r = some h ↔ r = p := by
  rw [← hb.positionOf?_eq_some, hb.positionOf?_eq_some.2 hp, Option.some.injEq, eq_comm]

include hp hq

theorem precedes_iff : Precedes b h h' ↔
    ∀ before v, FlowPath b before v ∧ v.position = q → ∃ u ∈ before, u.position = p := by
  simp only [Precedes, hb.handleAt?_iff hp, hb.handleAt?_iff hq, and_imp]

theorem fallsBefore_iff : FallsBefore b h h' ↔
    ∀ before, FlowPath b before ⟨q, true⟩ → ⟨p, true⟩ ∈ before ++ [⟨q, true⟩] := by
  have hfallen : ∀ (us : List Visit), (∃ u ∈ us, u.fallen = true ∧ u.position = p) ↔ ⟨p, true⟩ ∈ us := by
    intro us
    constructor
    · rintro ⟨⟨_, _⟩, hu, rfl, rfl⟩
      exact hu
    · exact fun hu => ⟨_, hu, rfl, rfl⟩
  simp only [FallsBefore, hb.handleAt?_iff hp, hb.handleAt?_iff hq, hfallen]
  constructor
  · exact fun hall before hpath => hall before _ hpath rfl rfl
  · rintro hall before ⟨_, _⟩ hpath rfl rfl
    exact hall before hpath

end

section

variable {b b' : Body} (hcode : b'.code = b.code) (hnumber : b'.number = b.number) {h h' : Handle}
include hcode hnumber

theorem handleAt?_congr (p : Nat) : b'.handleAt? p = b.handleAt? p := by
  rw [Body.handleAt?, hcode, hnumber]
  rfl

theorem precedes_congr : Precedes b' h h' ↔ Precedes b h h' := by
  simp only [Precedes, FlowPath.congr_iff hcode hnumber, handleAt?_congr hcode hnumber]

theorem fallsBefore_congr : FallsBefore b' h h' ↔ FallsBefore b h h' := by
  simp only [FallsBefore, FlowPath.congr_iff hcode hnumber, handleAt?_congr hcode hnumber]

end

/-! ## Two blocks -/

/-- **When one block is always passed before another is entered.** The blocks stand in front of two anchors, of which
nothing is known. -/
theorem precedes_insertAt_iff {b : Body} (hb : b.WellFormed) {a q : Nat} {anchor anchor' : Handle}
    (ha : b.handleAt? a = some anchor) (hq : b.handleAt? q = some anchor') {first second : List Instruction}
    (hfirst : ∀ i ∈ first, Stack.Straight i) (hsecond : ∀ i ∈ second, Stack.Straight i) {k : Nat}
    (hk : k < first.length) (hpos : 0 < second.length) :
    Precedes ((b.insertAt a first).insertAt (shift a first.length q) second) ⟨b.number, b.size + k⟩
      ⟨b.number, (b.insertAt a first).size⟩ ↔ FallsBefore b anchor anchor' := by
  have ha' := Body.lt_size_of_handleAt? ha
  have hhalf := Stack.insertAt_wellFormed (p := a) hb hfirst
  have hmoved : (b.insertAt a first).handleAt? (shift a first.length q) = some anchor' :=
    (Body.insertAt_handleAt?_shift ha'.le q).trans hq
  have hq' := Body.lt_size_of_handleAt? hmoved
  have hnew := Stack.insertAt_wellFormed (p := shift a first.length q) hhalf hsecond
  -- where the two instructions are in the end
  have hpassed : ((b.insertAt a first).insertAt (shift a first.length q) second).handleAt?
      (shift (shift a first.length q) second.length (a + k)) = some ⟨b.number, b.size + k⟩ :=
    (Body.insertAt_handleAt?_shift hq'.le _).trans (Body.insertAt_handleAt?_block ha'.le hk)
  have hfront : ((b.insertAt a first).insertAt (shift a first.length q) second).handleAt? (shift a first.length q) =
      some ⟨b.number, (b.insertAt a first).size⟩ :=
    Body.insertAt_handleAt?_block (k := 0) hq'.le hpos
  have hback : (⟨shift a first.length q, true⟩ : Visit) = Visit.shift a first.length ⟨q, true⟩ := rfl
  rw [precedes_iff hnew hpassed hfront, fallsBefore_iff hb ha hq]
  constructor
  · intro hall before hpath
    have hend := (flowPath_shift_iff ha' hfirst hb (Nat.zero_lt_of_lt hk)).2 ⟨before, hpath, rfl⟩
    have hpast := hall _ _ ((flowPath_front_iff hq' hsecond hhalf hpos).2 ⟨rfl, _, hend, rfl⟩)
    rw [← List.append_nil (List.flatMap _ _)] at hpast
    exact (passed_block_iff hk).1 ((passed_shift_iff (Nat.zero_le _)).1 hpast)
  · intro hall before u hpath
    obtain ⟨rfl, middle, hmiddle, rfl⟩ := (flowPath_front_iff hq' hsecond hhalf hpos).1 hpath
    rw [hback, flowPath_shift_iff ha' hfirst hb (Nat.zero_lt_of_lt hk)] at hmiddle
    obtain ⟨before, hold, rfl⟩ := hmiddle
    have hpast := (passed_block_iff hk).2 (hall before hold)
    rw [← passed_shift_iff (k := 0) (Nat.zero_le _)] at hpast
    simpa [lead] using hpast

namespace Graft

/-! ## A whole run -/

section

variable {g : Graft} {members : ImportedMembers} {resolve : Resolver} {signature : MethodSig} {b : Body} {w : Plan}

/-- the handle of the last instruction of the ratio block, which makes the vector -/
def ratioEnd (b : Body) : Handle := ⟨b.number, b.size + 11⟩

theorem Plan.Valid.ratio_last (hw : w.Valid g members resolve signature b) (method : Token) :
    (w.report members.vector method b).ratioSplice.inserted.getLast? = some (ratioEnd b) := by
  have hlength := hw.ratio_length
  simp only [Plan.report, hlength]
  rfl

theorem Plan.Valid.ratio_first_iff (hw : w.Valid g members resolve signature b) (hb : b.WellFormed) :
    Precedes (w.body members.vector b) (ratioEnd b) (pushFront b) ↔ FallsBefore b w.activation w.push := by
  have hwf := withLocal_wellFormed hb hw.room members.vector
  have hratio := hw.ratio_length
  have hpush := hw.push_length
  have hfront : pushFront b = ⟨(withLocal b members.vector).number, (w.half members.vector b).size⟩ := by
    rw [hw.half_size]
    rfl
  have hblocks := precedes_insertAt_iff (k := 11) hwf (hwf.positionOf?_eq_some.1 hw.activation_at)
    (hwf.positionOf?_eq_some.1 hw.push_at) (ratioBlock_straight hw.ratio_made) hw.push_straight (by omega) (by omega)
  -- neither the header nor the new local matters for the ways of control
  have hheader := @precedes_congr ((w.half members.vector b).insertAt _ w.pushBlock) (w.body members.vector b) rfl rfl
    (ratioEnd b) (pushFront b)
  have hlocal := @fallsBefore_congr b (withLocal b members.vector) rfl rfl w.activation w.push
  rw [hheader, hfront, ← hlocal]
  exact hblocks

end

/-- **When the ratio is always there.** Control passes the end of the ratio block before it ever enters the scale blocks
just if it never falls to the push anchor of the old body without having fallen to the activation anchor, before or with
the same step. -/
theorem run_ok_ratio_first (g : Graft) (m dependency : Module) (report : GraftReport) (hm : m.Built)
    (h : (g.run m dependency).result = .ok report) :
    ∃ old new last first, m.body? report.method = some old ∧
      (g.run m dependency).module.body? report.method = some new ∧
      report.ratioSplice.inserted.getLast? = some last ∧ report.scaleSplice.inserted.head? = some first ∧
      (Precedes new last first ↔ FallsBefore old report.ratioSplice.anchor report.scaleSplice.anchor) := by
  obtain ⟨members, resolve, signature, b, w, hw, hb, hold, hnew, hreport⟩ := run_planned hm h
  refine ⟨b, w.body members.vector b, ratioEnd b, pushFront b, hold, hnew, ?_⟩
  rw [hreport]
  exact ⟨hw.ratio_last _, hw.push_head _, hw.ratio_first_iff hb⟩

/-- where both anchors are the same, the ratio block is in front of the scale blocks -/
theorem fallsBefore_self (b : Body) (h : Handle) : FallsBefore b h h :=
  fun _ v _ hv hat => ⟨v, List.mem_append_right _ List.mem_cons_self, hv, hat⟩

/-- the ratio is always there if the push is the instruction behind the activation -/
theorem run_ok_ratio_first_game :
    let r := (Graft.mk {}).run game engine
    game.Built ∧ ∃ report new last first, r.result = .ok report ∧ r.module.body? report.method = some new ∧
      report.ratioSplice.inserted.getLast? = some last ∧ report.scaleSplice.inserted.head? = some first ∧
      Precedes new last first := by
  intro r
  obtain ⟨report, hreport, -, hactivation, hpush⟩ := run_game
  obtain ⟨old, new, last, first, -, hnew, hlast, hfirst, hiff⟩ :=
    run_ok_ratio_first (Graft.mk {}) game engine report game_built hreport
  refine ⟨game_built, report, new, last, first, hreport, hnew, hlast, hfirst, hiff.2 ?_⟩
  rw [hactivation, hpush]
  exact fallsBefore_self old _

/-- a method that pushes the matrix before it makes a render target active -/
def reversedBody : Body :=
  sketch [.call (.ofIndex .memberRef 1), { opcode := .ldnull }, .call (.ofIndex .memberRef 0), { opcode := .ret }]

def reversedGame : Module := gameWith reversedBody

theorem reversedGame_built : reversedGame.Built :=
  gameWith_built (sketch_reachable (by simp [Instruction.targets, Instruction.call]))

section

variable {resolve : Resolver} (hactive : resolve (.ofIndex .memberRef 0) = some (MemberKey.setActive.member {}))
  (hpush : resolve (.ofIndex .memberRef 1) = some pushMatrix)
include hactive hpush

/-- the push anchor is the first instruction, the activation anchor the last one -/
theorem reversedBody_anchors : (Graft.mk {}).activationAnchor.locate reversedBody resolve = .ok ⟨1, 3⟩ ∧
    (Graft.mk {}).pushAnchor.locate reversedBody resolve = .ok ⟨1, 0⟩ := by
  constructor
  · refine sketch_activation [.call (.ofIndex .memberRef 1), { opcode := .ldnull }] hactive rfl ?_
    simp [other_accepts, callTo_accepts hpush, pushMatrix]
  · refine sketch_push [] hpush rfl ?_
    simp

theorem reversedBody_analyzed :
    ∃ r, Stack.analyze (.ofSignature resolve (.instanceOf .void [.int32])) reversedBody = .ok r := by
  have hnull : Usable resolve [] { opcode := .ldnull } ⟨0, 1⟩ := usable_of_fixed rfl nofun rfl rfl rfl rfl
  have hcall : Usable resolve [] (.call (.ofIndex .memberRef 0)) ⟨1, 0⟩ := usable_call (.inl rfl) rfl hactive rfl rfl
  have hcall' : Usable resolve [] (.call (.ofIndex .memberRef 1)) ⟨0, 0⟩ := usable_call (.inl rfl) rfl hpush rfl rfl
  refine sketch_analyzed [.call (.ofIndex .memberRef 1), { opcode := .ldnull }, .call (.ofIndex .memberRef 0)]
    [0, 1, 0] ?_ ?_ rfl
  · simp only [List.mem_cons, List.not_mem_nil, or_false, forall_eq_or_imp, forall_eq]
    exact ⟨hcall'.straight, hnull.straight, hcall.straight⟩
  · exact .cons hcall'.effect (by decide) (.cons hnull.effect (by decide) (.cons hcall.effect (by decide) .nil))

end

theorem run_reversedGame : ∃ report, ((Graft.mk {}).run reversedGame engine).result = .ok report ∧
    report.method = .ofIndex .methodDef 0 ∧ report.ratioSplice.anchor = ⟨1, 3⟩ ∧
    report.scaleSplice.anchor = ⟨1, 0⟩ := by
  obtain ⟨hactive, hpush, -⟩ := linkedGame_resolve reversedBody
  obtain ⟨hactivation, hpushAnchor⟩ := reversedBody_anchors hactive hpush
  obtain ⟨report, hreport, hmethod, hfirst, hsecond, -⟩ := run_gameWith
    (by simp [Instruction.targets, Instruction.call]) hactivation hpushAnchor (reversedBody_analyzed hactive hpush)
  exact ⟨report, hreport, hmethod, hfirst, hsecond⟩

/-- **The ratio is not always there.** The graft of that method succeeds, and control enters the scale blocks first. -/
theorem run_reversedGame_scales_first :
    let r := (Graft.mk {}).run reversedGame engine
    reversedGame.Built ∧ Config.validate {} = .ok () ∧ ∃ report new last first, r.result = .ok report ∧
      r.module.body? report.method = some new ∧ report.ratioSplice.inserted.getLast? = some last ∧
      report.scaleSplice.inserted.head? = some first ∧ ¬ Precedes new last first := by
  intro r
  obtain ⟨report, hreport, hmethod, hactivation, hpush⟩ := run_reversedGame
  obtain ⟨members, resolve, signature, b, w, hw, hb, hold, hnew, hplan⟩ := run_planned reversedGame_built hreport
  rw [hmethod] at hold
  cases (gameWith_body? reversedBody).symm.trans hold
  refine ⟨reversedGame_built, by decide, report, w.body members.vector reversedBody, ratioEnd reversedBody,
    pushFront reversedBody, hreport, hnew, ?_⟩
  have hactivation' : w.activation = ⟨1, 3⟩ := by rw [← hactivation, hplan]; rfl
  have hpush' : w.push = ⟨1, 0⟩ := by rw [← hpush, hplan]; rfl
  rw [hplan, hw.ratio_first_iff hb, hactivation', hpush']
  refine ⟨hw.ratio_last _, hw.push_head _, fun hfalls => ?_⟩
  -- control enters the body at the push, and has passed nothing
  obtain ⟨u, hu, -, hat⟩ := hfalls [] ⟨0, true⟩ (.start (by decide)) rfl rfl
  obtain rfl := List.mem_singleton.1 hu
  revert hat
  decide

end Graft

end CilGraft

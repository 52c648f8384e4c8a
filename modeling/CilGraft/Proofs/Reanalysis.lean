/-
A graft takes the greatest depth of the changed body from the analysis of the old one and the peaks of its two blocks.
Here this is compared with an analysis of the changed body.

- `Plan.Valid.reanalyzed`: what the analysis tells about the changed body, from two insertions of neutral blocks.
- `Reanalyzed.maxStack_ge`, `Reanalyzed.maxStack_eq`: the header that the graft writes is never too small, and it is
  exact if control gets to both blocks.
- `run_ok_reanalyzed`: the same for a whole run, against the module that it leaves.
- `run_ok_entered`: control gets to both blocks if it falls into both anchors, so that the header is exact then.
-/
import CilGraft.Proofs.GraftedModule
import CilGraft.Proofs.Transparency

namespace CilGraft

/-- a header has room for a depth of 65535 at most -/
theorem Stack.Report.maxStack_le {r : Report} {n : Nat} (h : r.maxDepth ≤ n) : r.maxStack ≤ .ofNat (min n 65535) := by
  have hfit : ∀ k : Nat, min k 65535 % 2 ^ 16 = min k 65535 := fun k => Nat.mod_eq_of_lt (by omega)
  rw [Report.maxStack, UInt16.le_iff_toNat_le, UInt16.toNat_ofNat', UInt16.toNat_ofNat', hfit, hfit]
  omega

namespace Graft

open Body (shift)
open Stack (FallsInto Neutral Report Transparent analyze)

section

variable {g : Graft} {members : ImportedMembers} {resolve : Resolver} {signature : MethodSig} {b : Body} {w : Plan}

/-- the handles of the first instructions of the two blocks -/
def ratioFront (b : Body) : Handle := ⟨b.number, b.size⟩

def pushFront (b : Body) : Handle := ⟨b.number, b.size + 12⟩

/-- what an analysis of the changed body tells: the old instructions have the depths that they had, the greatest depth
is one that the plan allows for, and it is that of the plan if control gets to both blocks -/
structure Reanalyzed (w : Plan) (b new : Body) (after : Report) : Prop where
  depths : ∀ t, b.contains t = true → after.depthOf new t = w.stack.depthOf b t
  maxDepth_le : after.maxDepth ≤ w.peak
  maxDepth_eq : (after.depthOf new (ratioFront b)).isSome = true → (after.depthOf new (pushFront b)).isSome = true →
    after.maxDepth = w.peak

namespace Plan.Valid

variable (hw : w.Valid g members resolve signature b) (hb : b.WellFormed) (h : members.Linked g.config resolve)
include hw h

theorem ratioPeak_eq : w.ratioPeak = (w.stack.depthOf b w.activation).getD 0 + 4 := by
  have hpeak := Stack.peak_eq_ok (hw.ratio_insertable h).trace (depthAt b w.stack w.activation)
  rw [hw.ratio_peak] at hpeak
  injection hpeak

theorem pushPeak_eq : w.pushPeak = (w.stack.depthOf b w.push).getD 0 + 2 := by
  have hpeak := Stack.peak_eq_ok (hw.push_insertable h).trace (depthAt b w.stack w.push)
  rw [hw.push_peak] at hpeak
  injection hpeak

include hb

/-- the reports after the first and after the second splice -/
theorem reports : ∃ r r', analyze (.ofSignature resolve signature) (w.body members.vector b) = .ok r' ∧
    Transparent (withLocal b members.vector) w.activationAt w.ratioBlock [1, 2, 2, 3, 3, 2, 2, 3, 2, 3, 4, 0]
      w.activation w.stack r ∧
    Transparent (w.half members.vector b) (shift w.activationAt w.ratioBlock.length w.pushAt) w.pushBlock
      [1, 2, 1, 0, 1, 2, 1, 0] w.push r r' := by
  set c : Stack.Context := .ofSignature resolve signature
  have hratio : Neutral c.resolve w.ratioBlock _ := (hw.ratio_insertable h).toNeutral
  have hpush : Neutral c.resolve w.pushBlock _ := (hw.push_insertable h).toNeutral
  have hwf := withLocal_wellFormed hb hw.room members.vector
  have hhalf := hw.half_wellFormed hb
  -- neither a local nor the header matters to the analysis
  have hstart : analyze c (withLocal b members.vector) = .ok w.stack := hw.analyzed
  obtain ⟨r, hr, hfirst⟩ := Stack.insertAt_report hwf (hw.activation_lt hb) hratio hw.activation_at hstart
  obtain ⟨r', hr', hsecond⟩ := Stack.insertAt_report hhalf (hw.moved_lt hb) hpush (hw.push_at_half hb) hr
  exact ⟨r, r', hr', hfirst, hsecond⟩

/-- **The shortcut agrees with the analysis.** -/
theorem reanalyzed : ∃ after, analyze (.ofSignature resolve signature) (w.body members.vector b) = .ok after ∧
    Reanalyzed w b (w.body members.vector b) after := by
  obtain ⟨r, r', hr', hfirst, hsecond⟩ := hw.reports hb h
  have hsame : ∀ t, b.contains t = true → r.depthOf (w.half members.vector b) t = w.stack.depthOf b t :=
    fun t ht => hfirst.depths t (Body.Issued.of_contains ht)
  have hratioPeak := hw.ratioPeak_eq h
  have hpushPeak := hw.pushPeak_eq h
  have hpushSame := hsame w.push (hw.push_contains hb)
  refine ⟨r', hr', fun t ht => ?_, ?_, fun hratio hpush => ?_⟩
  · have hin : (w.half members.vector b).contains t = true :=
      @Body.contains_insertAt (withLocal b members.vector) t ht _ _
    exact (hsecond.depths t (Body.Issued.of_contains hin)).trans (hsame t ht)
  · have hle : r.maxDepth ≤ max w.stack.maxDepth w.ratioPeak := hfirst.bound _ fun d hd => by
      have hd' : w.stack.depthOf b w.activation = some d := hd
      rw [hratioPeak, hd']
      exact le_rfl
    have hle' : r'.maxDepth ≤ max r.maxDepth w.pushPeak := hsecond.bound _ fun d hd => by
      rw [hpushSame] at hd
      rw [hpushPeak, hd]
      exact le_rfl
    calc r'.maxDepth ≤ max r.maxDepth w.pushPeak := hle'
      _ ≤ max (max w.stack.maxDepth w.ratioPeak) w.pushPeak := max_le_max_right _ hle
  · obtain ⟨d, hd⟩ := Option.isSome_iff_exists.1 hratio
    obtain ⟨d', hd'⟩ := Option.isSome_iff_exists.1 hpush
    have hsize := hw.half_size
    -- what stands at the first front was issued before the second splice
    have hin : (w.half members.vector b).contains (ratioFront b) = true :=
      (Body.contains_iff _ _).2 ⟨rfl, by rw [hsize]; exact Nat.lt_add_of_pos_right (by norm_num)⟩
    have hd₁ : r.depthOf (w.half members.vector b) (ratioFront b) = some d :=
      (hsecond.depths _ (Body.Issued.of_contains hin)).symm.trans hd
    have hd₂ : r'.depthOf ((w.half members.vector b).insertAt (shift w.activationAt w.ratioBlock.length w.pushAt)
        w.pushBlock) ⟨b.number, (w.half members.vector b).size⟩ = some d' := by
      rw [hsize]
      exact hd'
    obtain ⟨hold, hmax⟩ := hfirst.entered (by rw [hw.ratio_length]; norm_num) d hd₁
    obtain ⟨hold', hmax'⟩ := hsecond.entered (by rw [hw.push_length]; norm_num) d' hd₂
    have hold₁ : w.stack.depthOf b w.activation = some d := hold
    rw [hpushSame] at hold'
    rw [hold₁] at hratioPeak
    rw [hold'] at hpushPeak
    rw [hmax', hmax, Plan.peak, hratioPeak, hpushPeak]
    rfl

/-- control that falls into both anchors comes into both blocks -/
theorem entered {after : Report}
    (hafter : analyze (.ofSignature resolve signature) (w.body members.vector b) = .ok after)
    (hactivation : FallsInto (.ofSignature resolve signature) b w.activationAt)
    (hpush : FallsInto (.ofSignature resolve signature) b w.pushAt) :
    (after.depthOf (w.body members.vector b) (ratioFront b)).isSome = true ∧
      (after.depthOf (w.body members.vector b) (pushFront b)).isSome = true := by
  set c : Stack.Context := .ofSignature resolve signature
  have hneutral : Neutral c.resolve w.ratioBlock _ := (hw.ratio_insertable h).toNeutral
  have hneutral' : Neutral c.resolve w.pushBlock _ := (hw.push_insertable h).toNeutral
  have hwf := withLocal_wellFormed hb hw.room members.vector
  have hhalf := hw.half_wellFormed hb
  have hnew := hneutral'.insertAt_wellFormed (p := shift w.activationAt w.ratioBlock.length w.pushAt) hhalf
  have hlt := hw.moved_lt hb
  have hratioPos : 0 < w.ratioBlock.length := by rw [hw.ratio_length]; norm_num
  have hpushPos : 0 < w.pushBlock.length := by rw [hw.push_length]; norm_num
  have hstart : analyze c (withLocal b members.vector) = .ok w.stack := hw.analyzed
  have hend : analyze c ((w.half members.vector b).insertAt (shift w.activationAt w.ratioBlock.length w.pushAt)
      w.pushBlock) = .ok after := hafter
  have hreaches := (Stack.analyze_ok hnew hend).2.1
  have hfalls : ∀ {p : Nat}, FallsInto c b p → FallsInto c (withLocal b members.vector) p := fun hf =>
    (Stack.fallsInto_iff hwf hstart).2 ((Stack.fallsInto_iff hb hw.analyzed).1 hf)
  obtain ⟨d, hd⟩ := (hfalls hactivation).front hwf (hw.activation_lt hb) hneutral
  obtain ⟨d', hd'⟩ := ((hfalls hpush).insertAt hwf (hw.activation_lt hb) hneutral hratioPos).front hhalf hlt hneutral'
  have hsize := hw.half_size
  constructor
  · -- the first front is moved by the second splice like everything else
    have hat : (w.half members.vector b).positionOf? (ratioFront b) = some w.activationAt :=
      Body.insertAt_positionOf?_fresh (k := 0) hwf.toCoherent (hw.activation_lt hb).le hratioPos
    have hissued : (w.half members.vector b).Issued (ratioFront b) :=
      Body.Issued.of_contains (hhalf.positionOf?_isSome.1 (Option.isSome_iff_exists.2 ⟨_, hat⟩))
    have hmoved := @Body.insertAt_positionOf? _ _ w.pushBlock hhalf.toCoherent hlt.le _ hissued
    rw [hat, Option.map_some] at hmoved
    refine Option.isSome_iff_exists.2 ⟨d, (congrArg (Option.bind · after.depthAt?) hmoved).trans ?_⟩
    exact (hreaches _ _).2 (hd.shift hhalf hlt hneutral')
  · have hat := Body.insertAt_positionOf?_fresh (k := 0) hhalf.toCoherent hlt.le hpushPos
    rw [hsize] at hat
    exact Option.isSome_iff_exists.2 ⟨d', (congrArg (Option.bind · after.depthAt?) hat).trans ((hreaches _ _).2 hd')⟩

end Plan.Valid

/-- the header of the changed body is not too small -/
theorem Reanalyzed.maxStack_ge {new : Body} {after : Report} (h : Reanalyzed w b new after) :
    after.maxStack ≤ w.maxStack b := by
  have hfit : after.maxStack ≤ .ofNat (min w.peak 65535) := Report.maxStack_le h.maxDepth_le
  show after.maxStack ≤ if b.maxStack ≤ .ofNat (min w.peak 65535) then .ofNat (min w.peak 65535) else b.maxStack
  by_cases hle : b.maxStack ≤ .ofNat (min w.peak 65535)
  · rw [if_pos hle]
    exact hfit
  · rw [if_neg hle]
    exact UInt16.le_trans hfit (UInt16.le_of_lt (UInt16.not_le.1 hle))

/-- it is exact if control gets to both blocks -/
theorem Reanalyzed.maxStack_eq {new : Body} {after : Report} (h : Reanalyzed w b new after)
    (hratio : (after.depthOf new (ratioFront b)).isSome = true)
    (hpush : (after.depthOf new (pushFront b)).isSome = true) : w.maxStack b = max b.maxStack after.maxStack := by
  rw [Plan.maxStack, Report.maxStack, h.maxDepth_eq hratio hpush]

end

/-! ## A whole run -/

/-- control gets to the first of the instructions that a splice has put in -/
def Entered (after : Report) (new : Body) (splice : Splice) : Prop :=
  ∃ front ∈ splice.inserted.head?, (after.depthOf new front).isSome = true

variable {g : Graft} {members : ImportedMembers} {resolve : Resolver} {signature : MethodSig} {b : Body} {w : Plan}

theorem Plan.Valid.ratio_head (hw : w.Valid g members resolve signature b) (method : Token) :
    (w.report members.vector method b).ratioSplice.inserted.head? = some (ratioFront b) := by
  have hlength := hw.ratio_length
  simp only [Plan.report, hlength]
  rfl

theorem Plan.Valid.push_head (hw : w.Valid g members resolve signature b) (method : Token) :
    (w.report members.vector method b).scaleSplice.inserted.head? = some (pushFront b) := by
  have hlength := hw.push_length
  have hsize := hw.half_size
  simp only [Plan.report, hlength, pushFront, ← hsize]
  rfl

variable {m dependency : Module} {report : GraftReport}

/-- **The header is what a fresh analysis asks for.** As long as the tables stay addressable, an analysis of the changed
body in the module that the run leaves succeeds; it gives the old instructions the depths that they had in the old body;
the header is never less than it asks for, and if control gets to both blocks it is the greater of that and the old
header. -/
theorem run_ok_reanalyzed (g : Graft) (m dependency : Module) (report : GraftReport) (hm : m.Built)
    (ha : (g.run m dependency).module.Addressable) (h : (g.run m dependency).result = .ok report) :
    ∃ row old new before after,
      let c : Stack.Context := .ofSignature (g.run m dependency).module.resolve row.signature
      m.method? report.method = some row ∧ row.body = some old ∧
        (g.run m dependency).module.body? report.method = some new ∧
        analyze c old = .ok before ∧ analyze c new = .ok after ∧
        (∀ t, old.contains t = true → after.depthOf new t = before.depthOf old t) ∧
        new.maxStack = report.maxStack ∧ after.maxStack ≤ report.maxStack ∧
        (Entered after new report.ratioSplice → Entered after new report.scaleSplice →
          report.maxStack = max old.maxStack after.maxStack) := by
  obtain ⟨members, row, b, w, hrun⟩ := run_carried hm ha h
  have hw := hrun.valid
  obtain ⟨after, hafter, hreanalyzed⟩ := hw.reanalyzed hrun.wellFormed hrun.linked
  refine ⟨row, b, w.body members.vector b, w.stack, after, hrun.method, hrun.before, hrun.after, hw.analyzed, hafter,
    hreanalyzed.depths, ?_⟩
  rw [hrun.report_eq]
  refine ⟨rfl, hreanalyzed.maxStack_ge, fun hratio hpush => ?_⟩
  obtain ⟨front, hfront, hreached⟩ := hratio
  obtain ⟨front', hfront', hreached'⟩ := hpush
  rw [hw.ratio_head, Option.mem_some_iff] at hfront
  rw [hw.push_head, Option.mem_some_iff] at hfront'
  subst hfront hfront'
  exact hreanalyzed.maxStack_eq hreached hreached'

/-- control gets to both blocks if it falls into both anchors -/
theorem run_ok_entered {row : MethodRow} {old new : Body} {after : Report} (hm : m.Built)
    (ha : (g.run m dependency).module.Addressable) (h : (g.run m dependency).result = .ok report)
    (hrow : m.method? report.method = some row) (hold : row.body = some old)
    (hnew : (g.run m dependency).module.body? report.method = some new)
    (hafter : analyze (.ofSignature (g.run m dependency).module.resolve row.signature) new = .ok after)
    (hfalls : ∀ splice ∈ [report.ratioSplice, report.scaleSplice], ∃ p, old.positionOf? splice.anchor = some p ∧
      FallsInto (.ofSignature (g.run m dependency).module.resolve row.signature) old p) :
    Entered after new report.ratioSplice ∧ Entered after new report.scaleSplice := by
  obtain ⟨members, row', b, w, hrun⟩ := run_carried hm ha h
  have hw := hrun.valid
  rw [hrun.method] at hrow; cases hrow
  rw [hrun.before] at hold; cases hold
  rw [hrun.after] at hnew; cases hnew
  obtain ⟨a, hactivationAt, hactivation⟩ := hfalls report.ratioSplice (by simp)
  obtain ⟨q, hpushAt, hpush⟩ := hfalls report.scaleSplice (by simp)
  rw [hrun.report_eq] at hactivationAt hpushAt
  cases hactivationAt.symm.trans hw.activation_at
  cases hpushAt.symm.trans hw.push_at
  obtain ⟨hratioFront, hpushFront⟩ := hw.entered hrun.wellFormed hrun.linked hafter hactivation hpush
  rw [hrun.report_eq]
  exact ⟨⟨_, hw.ratio_head _, hratioFront⟩, ⟨_, hw.push_head _, hpushFront⟩⟩

/-- control falls from the first of the two calls to the second -/
theorem drawingBody_falls {resolve : Resolver}
    (hactive : resolve (.ofIndex .memberRef 0) = some (MemberKey.setActive.member {})) :
    FallsInto (.ofSignature resolve (.instanceOf .void [.int32])) drawingBody 2 := by
  have hnull : Usable resolve [] { opcode := .ldnull } ⟨0, 1⟩ := usable_of_fixed rfl nofun rfl rfl rfl rfl
  have hcall : Usable resolve [] (.call (.ofIndex .memberRef 0)) ⟨1, 0⟩ := usable_call (.inl rfl) rfl hactive rfl rfl
  have hmove : Stack.Moves ⟨resolve, false⟩ drawingBody ⟨0, 0⟩ ⟨1, 1⟩ := .next rfl hnull.effect rfl
  have hreach : Stack.Reaches ⟨resolve, false⟩ drawingBody ⟨1, 1⟩ := .move (.entry (.start (by decide))) hmove
  exact ⟨1, 1, .call (.ofIndex .memberRef 0), ⟨1, 0⟩, rfl, hreach, rfl, hcall.effect, rfl⟩

/-- control falls into both blocks there, and the header is exact -/
theorem run_ok_reanalyzed_game :
    let r := (Graft.mk {}).run game engine
    game.Built ∧ r.module.Addressable ∧ ∃ report new after, r.result = .ok report ∧
      r.module.body? report.method = some new ∧
      analyze (.ofSignature r.module.resolve (.instanceOf .void [.int32])) new = .ok after ∧
      report.maxStack = max drawingBody.maxStack after.maxStack := by
  intro r
  obtain ⟨report, hreport, hmethod, hactivation, hpush⟩ := run_game
  have haddressable : r.module.Addressable := run_addressable game_addressable (by decide) (by decide)
  obtain ⟨row, old, new, before, after, hrow, hold, hnew, -, hafter, -, -, -, hexact⟩ :=
    run_ok_reanalyzed (Graft.mk {}) game engine report game_built haddressable hreport
  have hgame : game.method? report.method = some
      { name := "MulTexProc", flags := 0x0006, signature := .instanceOf .void [.int32]
        body := some drawingBody, owner := 0 } := by
    rw [hmethod]
    rfl
  rw [hgame] at hrow; cases hrow
  cases hold
  have hactive : r.module.resolve (.ofIndex .memberRef 0) = some (MemberKey.setActive.member {}) :=
    run_resolve game_resolve.1
  have hfalls := drawingBody_falls hactive
  have hat : drawingBody.positionOf? ⟨1, 2⟩ = some 2 := drawingBody_reachable.wellFormed.positionOf?_eq_some.2 rfl
  have hanchors : ∀ splice ∈ [report.ratioSplice, report.scaleSplice], splice.anchor = ⟨1, 2⟩ := by
    intro splice hsplice
    simp only [List.mem_cons, List.not_mem_nil, or_false] at hsplice
    rcases hsplice with rfl | rfl
    · exact hactivation
    · exact hpush
  obtain ⟨hratio, hscale⟩ := run_ok_entered game_built haddressable hreport hgame rfl hnew hafter
    fun splice hsplice => ⟨2, hanchors splice hsplice ▸ hat, hfalls⟩
  exact ⟨game_built, haddressable, report, new, after, hreport, hnew, hafter, hexact hratio hscale⟩

end Graft

end CilGraft

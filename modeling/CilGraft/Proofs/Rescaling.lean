/-
What a graft means where code is run in a straight line.

- `body_prefix`: the changed code up to the push anchor, when the activation anchor is not behind it.
- `Plan.Valid.rescales`: that code does what the old one does up to the same anchor, and then multiplies position and
  scale by the ratio. The two runs go side by side, the new one with one more slot.
- `Rescaled`: how the machines that the two runs leave differ, slot by slot.
- `run_ok_rescales`: every run that succeeds, with the anchors in this order, changes the code in this way and no other.
-/
import CilGraft.Proofs.BlockValues
import CilGraft.Proofs.GraftedModule
import CilGraft.Proofs.GrownMachine

namespace CilGraft.Graft

open Body (shift)
open Machine (Runs Surroundings)

/-! ## Code up to the second anchor -/

section

variable {g : Graft} {members : ImportedMembers} {resolve resolve' : Resolver} {signature : MethodSig} {b : Body}
  {w : Plan}

namespace Plan.Valid

variable (hw : w.Valid g members resolve' signature b) (hb : b.WellFormed)
include hw hb

variable (horder : w.activationAt ≤ w.pushAt)
include horder

/-- the second anchor is behind both blocks -/
theorem push_at_body : (w.body members.vector b).positionOf? w.push = some (w.pushAt + 20) := by
  have hmoved := hw.push_at_half hb
  have hcontains : (w.half members.vector b).contains w.push = true :=
    (hw.half_wellFormed hb).positionOf?_isSome.1 (Option.isSome_iff_exists.2 ⟨_, hmoved⟩)
  have hat := @Body.insertAt_positionOf? _ _ w.pushBlock (hw.half_wellFormed hb).toCoherent (hw.moved_lt hb).le _
    (Body.Issued.of_contains hcontains)
  have hbehind : shift (shift w.activationAt w.ratioBlock.length w.pushAt) w.pushBlock.length
      (shift w.activationAt w.ratioBlock.length w.pushAt) = w.pushAt + 20 := by
    rw [Body.shift_of_le le_rfl, Body.shift_of_le horder, hw.ratio_length, hw.push_length]
  rw [hmoved, Option.map_some, hbehind] at hat
  exact hat

/-- the code before the second anchor: the old one, with the first block in its place and the second one at the end -/
theorem body_prefix : (w.body members.vector b).instructions.take (w.pushAt + 20) =
    b.instructions.take w.activationAt ++ w.ratioBlock ++
      (b.instructions.drop w.activationAt).take (w.pushAt - w.activationAt) ++ w.pushBlock := by
  have hlt : w.pushAt < b.instructions.length := by
    rw [Body.instructions_length]
    exact hb.lt_size_of_positionOf? hw.push_at
  have hratio := hw.ratio_length
  have hpush := hw.push_length
  have hhalf : (w.half members.vector b).instructions =
      b.instructions.take w.activationAt ++ w.ratioBlock ++ b.instructions.drop w.activationAt :=
    Body.insertAt_instructions (withLocal b members.vector) w.activationAt w.ratioBlock
  have hbody : (w.body members.vector b).instructions =
      (w.half members.vector b).instructions.take (shift w.activationAt w.ratioBlock.length w.pushAt) ++ w.pushBlock ++
        (w.half members.vector b).instructions.drop (shift w.activationAt w.ratioBlock.length w.pushAt) :=
    Body.insertAt_instructions (w.half members.vector b) (shift w.activationAt w.ratioBlock.length w.pushAt) w.pushBlock
  have hfirst : (w.half members.vector b).instructions.take (w.pushAt + 12) =
      b.instructions.take w.activationAt ++ w.ratioBlock ++
        (b.instructions.drop w.activationAt).take (w.pushAt - w.activationAt) := by
    have hlen : (b.instructions.take w.activationAt ++ w.ratioBlock).length = w.activationAt + 12 := by
      rw [List.length_append, List.length_take, hratio]
      omega
    have hrest : w.pushAt + 12 - (w.activationAt + 12) = w.pushAt - w.activationAt := by omega
    rw [hhalf, List.take_append, hlen, hrest, List.take_of_length_le (by omega)]
  rw [hbody, Body.shift_of_le horder, hratio, hfirst]
  refine List.take_left' ?_
  simp only [List.length_append, List.length_take, List.length_drop, hratio, hpush]
  omega

end Plan.Valid

/-! ## Both runs -/

/-- a vector, component by component, times the ratio -/
def product (c : Config) (width height : Int32) : Binary.Single × Binary.Single × Binary.Single → Value
  | (x, y, z) => .vector c.vector (x.mul (ratio c width height)) (y.mul (ratio c width height)) (z.mul ⟨0x3F800000⟩)

/-- what a machine `s'` has of a machine `s` when a graft was carried out: one more slot, which holds the ratio, and the
product of position and scale with it -/
structure Rescaled (c : Config) (report : GraftReport) (width height : Int32) (s s' : Machine) : Prop where
  stack : s'.stack = s.stack
  args : s'.args = s.args
  returned : s'.returned = s.returned
  size : s'.locals.size = s.locals.size + 1
  others : ∀ slot : Local, slot ≠ report.positionLocal → slot ≠ report.scaleLocal → slot.index.toNat < s.locals.size →
    s'.local? slot = s.local? slot
  ratioLocal : s'.local? report.ratioLocal = some (ratioVector c width height)
  products : ∀ slot ∈ [report.positionLocal, report.scaleLocal], ∀ v, (s.local? slot).bind Value.vector? = some v →
    s'.local? slot = some (product c width height v)

/-- a fresh machine for the changed body has one more slot -/
theorem ofBody_body (args : Array Value) :
    Machine.ofBody (w.body members.vector b) args = (Machine.ofBody b args).grow .void := by
  have hsize : (w.body members.vector b).locals.size = b.locals.size + 1 := Array.size_push _
  simp only [Machine.ofBody, Machine.new, hsize, Machine.grow, Array.replicate_succ]

/-- a machine at the second anchor, with the ratio in one more slot and the products in the slots of the vectors -/
def Plan.rescale (w : Plan) (c : Config) (width height : Int32)
    (position scale : Binary.Single × Binary.Single × Binary.Single) (s : Machine) : Machine :=
  ((s.withLocal w.position (product c width height position)).withLocal w.scale (product c width height scale)).grow
    (ratioVector c width height)

namespace Plan.Valid

variable (hw : w.Valid g members resolve' signature b) (hb : b.WellFormed) {width height : Int32} {s : Machine}
  {position scale : Binary.Single × Binary.Single × Binary.Single} (hsize : s.locals.size = b.locals.size)
include hw hb hsize

/-- the slots of the vectors are in the machine, and the new one is behind its last -/
theorem slots_at : w.position.index.toNat < s.locals.size ∧ w.scale.index.toNat < s.locals.size ∧
    (nextLocal b).index.toNat = s.locals.size := by
  have hslots := vectorLocals_eq_ok hb hw.slots
  rw [hsize]
  exact ⟨hslots.position_vector.lt_size, hslots.scale_vector.lt_size, nextLocal_index hw.room⟩

theorem rescaled (method : Token) (hposition : (s.local? w.position).bind Value.vector? = some position)
    (hscale : (s.local? w.scale).bind Value.vector? = some scale) :
    Rescaled g.config (w.report members.vector method b) width height s
      (w.rescale g.config width height position scale s) := by
  have hslots := vectorLocals_eq_ok hb hw.slots
  obtain ⟨hp, hs, hlast⟩ := hw.slots_at hb hsize
  have hdistinct : ∀ {l l' : Local}, l ≠ l' → l.index.toNat ≠ l'.index.toNat := fun hne heq =>
    hne (congrArg Local.mk (UInt16.toNat_inj.1 heq))
  set s₁ := s.withLocal w.position (product g.config width height position)
  have hsize₁ : s₁.locals.size = s.locals.size := Array.size_setIfInBounds
  set s₂ := s₁.withLocal w.scale (product g.config width height scale)
  have hsize₂ : s₂.locals.size = s.locals.size := Array.size_setIfInBounds.trans hsize₁
  refine ⟨rfl, rfl, rfl, ?_, fun slot hne hne' hlt => ?_, ?_, ?_⟩
  · exact (Array.size_push _).trans (congrArg (· + 1) hsize₂)
  · calc (s₂.grow (ratioVector g.config width height)).local? slot = s₂.local? slot :=
          Machine.local?_grow_of_ne (hlt.trans_eq hsize₂.symm).ne
      _ = s₁.local? slot := Machine.withLocal_local?_of_ne (hdistinct hne')
      _ = s.local? slot := Machine.withLocal_local?_of_ne (hdistinct hne)
  · exact Machine.local?_grow_last (hlast.trans hsize₂.symm)
  · have hatPosition : s₂.local? w.position = some (product g.config width height position) :=
      (Machine.withLocal_local?_of_ne hslots.lt.ne).trans (Machine.withLocal_local? hp)
    have hatScale : s₂.local? w.scale = some (product g.config width height scale) :=
      Machine.withLocal_local? (hs.trans_eq hsize₁.symm)
    intro slot hslot v hv
    simp only [List.mem_cons, List.not_mem_nil, or_false] at hslot
    rcases hslot with rfl | rfl
    · cases hv.symm.trans hposition
      exact Machine.local?_grow hatPosition
    · cases hv.symm.trans hscale
      exact Machine.local?_grow hatScale

variable (width height) (h : members.Linked g.config resolve') (more : Hooks)
include h

/-- **The scale blocks** multiply position and scale by the ratio, which the last slot holds. -/
theorem pushBlock_runs (hreturned : s.returned = none)
    (hposition : (s.local? w.position).bind Value.vector? = some position)
    (hscale : (s.local? w.scale).bind Value.vector? = some scale) :
    Runs ⟨resolve', Hooks.default g.config.renderTexture g.config.vector width height ++ more⟩ w.pushBlock
      (s.grow (ratioVector g.config width height)) (w.rescale g.config width height position scale s) := by
  have hslots := vectorLocals_eq_ok hb hw.slots
  obtain ⟨hp, hs, hlast⟩ := hw.slots_at hb hsize
  obtain ⟨v, hv, hvector⟩ := Option.bind_eq_some_iff.1 hposition
  obtain ⟨v', hv', hvector'⟩ := Option.bind_eq_some_iff.1 hscale
  obtain ⟨first, second, hfirst, hsecond, hpush⟩ := hw.push_made
  obtain ⟨block, hblock, hruns⟩ := scaleBlock_runs h width height more (m := s.grow (ratioVector g.config width height))
    hreturned (Machine.local?_grow hv) (Machine.local?_grow_last hlast) hvector rfl
  rw [hfirst] at hblock
  cases hblock
  rw [Machine.withLocal_grow hp] at hruns
  set s₁ := s.withLocal w.position (product g.config width height position)
  have hsize₁ : s₁.locals.size = s.locals.size := Array.size_setIfInBounds
  have hkept : s₁.local? w.scale = some v' := (Machine.withLocal_local?_of_ne hslots.lt.ne').trans hv'
  obtain ⟨block', hblock', hruns'⟩ := scaleBlock_runs h width height more
    (m := s₁.grow (ratioVector g.config width height)) hreturned (Machine.local?_grow hkept)
    (Machine.local?_grow_last (hlast.trans hsize₁.symm)) hvector' rfl
  rw [hsecond] at hblock'
  cases hblock'
  rw [Machine.withLocal_grow (hs.trans_eq hsize₁.symm)] at hruns'
  rw [hpush]
  exact hruns.append hruns'

omit hsize

/-- **The code before the second anchor** does what the old one does, and multiplies position and scale by the ratio. -/
theorem rescales (hresolve : ∀ token member, resolve token = some member → resolve' token = some member)
    (horder : w.activationAt ≤ w.pushAt) {args : Array Value}
    (hruns : Runs ⟨resolve, Hooks.default g.config.renderTexture g.config.vector width height ++ more⟩
      (b.instructions.take w.pushAt) (.ofBody b args) s)
    (hposition : (s.local? w.position).bind Value.vector? = some position)
    (hscale : (s.local? w.scale).bind Value.vector? = some scale) :
    Runs ⟨resolve', Hooks.default g.config.renderTexture g.config.vector width height ++ more⟩
      ((w.body members.vector b).instructions.take (w.pushAt + 20)) (.ofBody (w.body members.vector b) args)
      (w.rescale g.config width height position scale s) := by
  have hfresh : (Machine.ofBody b args).locals.size = b.locals.size := Array.size_replicate
  have hsize : s.locals.size = b.locals.size := hruns.size_eq.trans hfresh
  have hreturned : s.returned = none := hruns.returned_eq_none rfl
  -- the first block stands between these two parts of the old code
  have hparts : b.instructions.take w.pushAt =
      b.instructions.take w.activationAt ++ (b.instructions.drop w.activationAt).take (w.pushAt - w.activationAt) := by
    rw [← List.take_add, Nat.add_sub_cancel' horder]
  rw [hparts] at hruns
  obtain ⟨s₁, hbefore, hbetween⟩ := hruns.of_append
  obtain ⟨-, -, hlast⟩ := hw.slots_at hb (hbefore.size_eq.trans hfresh)
  have hlt : (nextLocal b).index.toNat < (s₁.grow .void).locals.size :=
    hlast.trans_lt (Nat.lt_of_lt_of_eq (Nat.lt_succ_self _) (Array.size_push _).symm)
  obtain ⟨block, hblock, hratio⟩ := ratioBlock_runs h width height more (m := s₁.grow .void)
    (hbefore.returned_eq_none rfl) hlt
  rw [hw.ratio_made] at hblock
  cases hblock
  rw [Machine.withLocal_grow_last hlast] at hratio
  have hbefore' := hbefore.grow hresolve .void
  have hbetween' := hbetween.grow hresolve (ratioVector g.config width height)
  have hpush := hw.pushBlock_runs hb width height hsize h more hreturned hposition hscale
  rw [hw.body_prefix hb horder, ofBody_body]
  exact ((hbefore'.append hratio).append hbetween').append hpush

end Plan.Valid

end

/-! ## A whole run -/

/-- **A graft rescales what is drawn.** Where the activation anchor is not behind the push anchor, the code in front of
the push anchor is followed in its old and in its new form, in the module before and after the run. If the old one comes
to the anchor with two vectors, so does the new one, with the same stack, the ratio in the new slot, position and scale
multiplied by it and everything else the same, whatever the arguments are and whatever hooks stand behind the standard
ones. -/
theorem run_ok_rescales (g : Graft) (m dependency : Module) (report : GraftReport) (hm : m.Built)
    (ha : (g.run m dependency).module.Addressable) (h : (g.run m dependency).result = .ok report) :
    ∃ old new activationAt pushAt, m.body? report.method = some old ∧
      (g.run m dependency).module.body? report.method = some new ∧
      old.positionOf? report.ratioSplice.anchor = some activationAt ∧
      old.positionOf? report.scaleSplice.anchor = some pushAt ∧
      (activationAt ≤ pushAt → new.positionOf? report.scaleSplice.anchor = some (pushAt + 20) ∧
        ∀ (width height : Int32) (more : Hooks) (args : Array Value) (s : Machine),
          let hooks := Hooks.default g.config.renderTexture g.config.vector width height ++ more
          (Machine.ofBody old args).run ⟨m.resolve, hooks⟩ (old.instructions.take pushAt) = .ok s →
          s.returned = none →
          (∀ slot ∈ [report.positionLocal, report.scaleLocal], ((s.local? slot).bind Value.vector?).isSome = true) →
          ∃ s', (Machine.ofBody new args).run ⟨(g.run m dependency).module.resolve, hooks⟩
              (new.instructions.take (pushAt + 20)) = .ok s' ∧
            Rescaled g.config report width height s s') := by
  obtain ⟨members, row, b, w, hrun⟩ := run_carried hm ha h
  have hw := hrun.valid
  have hb := hrun.wellFormed
  have hold : m.body? report.method = some b := by
    rw [Module.body?, hrun.method, Option.bind_some, hrun.before]
  refine ⟨b, w.body members.vector b, w.activationAt, w.pushAt, hold, hrun.after, ?_, ?_, fun horder => ⟨?_, ?_⟩⟩
  · rw [hrun.report_eq]
    exact hw.activation_at
  · rw [hrun.report_eq]
    exact hw.push_at
  · rw [hrun.report_eq]
    exact hw.push_at_body hb horder
  · intro width height more args s hooks hs hreturned hvectors
    rw [hrun.report_eq] at hvectors ⊢
    obtain ⟨position, hposition⟩ := Option.isSome_iff_exists.1 (hvectors w.position (by simp [Plan.report]))
    obtain ⟨scale, hscale⟩ := Option.isSome_iff_exists.1 (hvectors w.scale (by simp [Plan.report]))
    have hruns := (Machine.runs_iff rfl).2 ⟨hs, hreturned⟩
    have hsize : s.locals.size = b.locals.size := hruns.size_eq.trans Array.size_replicate
    have hnew := hw.rescales hb width height hrun.linked more (fun _ _ => run_resolve) horder hruns hposition
      hscale
    exact ⟨_, ((Machine.runs_iff rfl).1 hnew).1, hw.rescaled hb hsize report.method hposition hscale⟩

/-- a method that puts its arguments into its slots, makes a render target active and pushes the matrix -/
def loadingBody : Body :=
  sketch [{ opcode := .ldarg0 }, { opcode := .stloc0 }, { opcode := .ldarg1 }, { opcode := .stloc1 },
    { opcode := .ldnull }, .call (.ofIndex .memberRef 0), .call (.ofIndex .memberRef 1), { opcode := .ret }]

def loadingGame : Module := gameWith loadingBody

theorem loadingBody_reachable : loadingBody.Reachable :=
  sketch_reachable (by simp [Instruction.targets, Instruction.call])

section

variable {resolve : Resolver} (hactive : resolve (.ofIndex .memberRef 0) = some (MemberKey.setActive.member {}))
  (hpush : resolve (.ofIndex .memberRef 1) = some pushMatrix)
include hactive hpush

/-- both anchors are the call that pushes the matrix -/
theorem loadingBody_anchors : (Graft.mk {}).activationAnchor.locate loadingBody resolve = .ok ⟨1, 6⟩ ∧
    (Graft.mk {}).pushAnchor.locate loadingBody resolve = .ok ⟨1, 6⟩ := by
  constructor
  · refine sketch_activation [{ opcode := .ldarg0 }, { opcode := .stloc0 }, { opcode := .ldarg1 },
      { opcode := .stloc1 }, { opcode := .ldnull }] hactive rfl ?_
    simp [other_accepts]
  · refine sketch_push [{ opcode := .ldarg0 }, { opcode := .stloc0 }, { opcode := .ldarg1 }, { opcode := .stloc1 },
      { opcode := .ldnull }, .call (.ofIndex .memberRef 0)] hpush rfl ?_
    simp [other_accepts, callTo_accepts hactive, MemberKey.member]

theorem loadingBody_analyzed :
    ∃ r, Stack.analyze (.ofSignature resolve (.instanceOf .void [.int32])) loadingBody = .ok r := by
  have hload : Usable resolve [] { opcode := .ldarg0 } ⟨0, 1⟩ := usable_of_fixed rfl nofun rfl rfl rfl rfl
  have hstore : Usable resolve [⟨0⟩] { opcode := .stloc0 } ⟨1, 0⟩ := usable_storeLocal (List.mem_singleton_self ⟨0⟩)
  have hload' : Usable resolve [] { opcode := .ldarg1 } ⟨0, 1⟩ := usable_of_fixed rfl nofun rfl rfl rfl rfl
  have hstore' : Usable resolve [⟨1⟩] { opcode := .stloc1 } ⟨1, 0⟩ := usable_storeLocal (List.mem_singleton_self ⟨1⟩)
  have hnull : Usable resolve [] { opcode := .ldnull } ⟨0, 1⟩ := usable_of_fixed rfl nofun rfl rfl rfl rfl
  have hcall : Usable resolve [] (.call (.ofIndex .memberRef 0)) ⟨1, 0⟩ := usable_call (.inl rfl) rfl hactive rfl rfl
  have hcall' : Usable resolve [] (.call (.ofIndex .memberRef 1)) ⟨0, 0⟩ := usable_call (.inl rfl) rfl hpush rfl rfl
  refine sketch_analyzed [{ opcode := .ldarg0 }, { opcode := .stloc0 }, { opcode := .ldarg1 }, { opcode := .stloc1 },
    { opcode := .ldnull }, .call (.ofIndex .memberRef 0), .call (.ofIndex .memberRef 1)] [1, 0, 1, 0, 1, 0, 0] ?_ ?_ rfl
  · simp only [List.mem_cons, List.not_mem_nil, or_false, forall_eq_or_imp, forall_eq]
    exact ⟨hload.straight, hstore.straight, hload'.straight, hstore'.straight, hnull.straight, hcall.straight,
      hcall'.straight⟩
  · exact .cons hload.effect (by decide) <| .cons hstore.effect (by decide) <| .cons hload'.effect (by decide) <|
      .cons hstore'.effect (by decide) <| .cons hnull.effect (by decide) <| .cons hcall.effect (by decide) <|
      .cons hcall'.effect (by decide) .nil

end

theorem run_loadingGame : ∃ report, ((Graft.mk {}).run loadingGame engine).result = .ok report ∧
    report.method = .ofIndex .methodDef 0 ∧ report.ratioSplice.anchor = ⟨1, 6⟩ ∧ report.scaleSplice.anchor = ⟨1, 6⟩ ∧
    report.positionLocal = ⟨0⟩ ∧ report.scaleLocal = ⟨1⟩ := by
  obtain ⟨hactive, hpush, -⟩ := linkedGame_resolve loadingBody
  obtain ⟨hactivation, hpushAnchor⟩ := loadingBody_anchors hactive hpush
  exact run_gameWith (by simp [Instruction.targets, Instruction.call]) hactivation hpushAnchor
    (loadingBody_analyzed hactive hpush)

/-- whatever the arguments are, they are in the slots when control comes to the push -/
theorem loadingBody_runs (v v' : Value) (width height : Int32) :
    (Machine.ofBody loadingBody #[v, v']).run
      ⟨loadingGame.resolve, Hooks.default ⟨"UnityEngine", "RenderTexture"⟩ ⟨"UnityEngine", "Vector3"⟩ width height⟩
      (loadingBody.instructions.take 6) = .ok { locals := #[v, v'], args := #[v, v'] } := by
  cbv

/-- position and scale of that method are doubled on a target of 2048 by 2048 pixels -/
theorem run_ok_rescales_loadingGame :
    let r := (Graft.mk {}).run loadingGame engine
    let env : Machine.Surroundings := ⟨r.module.resolve,
      Hooks.default ⟨"UnityEngine", "RenderTexture"⟩ ⟨"UnityEngine", "Vector3"⟩ 2048 2048⟩
    let s := twoVectors ⟨0x41200000⟩ ⟨0x41A00000⟩ ⟨0⟩ ⟨0x3F800000⟩ ⟨0x3F800000⟩ ⟨0x3F800000⟩
    loadingGame.Built ∧ r.module.Addressable ∧ ∃ report new s', r.result = .ok report ∧
      r.module.body? report.method = some new ∧
      (Machine.ofBody new s.locals).run env (new.instructions.take 26) = .ok s' ∧
      Rescaled {} report 2048 2048 { s with args := s.locals } s' := by
  intro r env s
  obtain ⟨report, hreport, hmethod, hactivation, hpush, hposition, hscale⟩ := run_loadingGame
  have hbuilt : loadingGame.Built := gameWith_built loadingBody_reachable
  have haddressable : r.module.Addressable :=
    run_addressable (gameWith_addressable _) (by decide : game.typeRefs.size + 13 < 2 ^ 24)
      (by decide : game.memberRefs.size + 7 < 2 ^ 24)
  obtain ⟨old, new, activationAt, pushAt, hold, hnew, hactivationAt, hpushAt, hrescales⟩ :=
    run_ok_rescales (Graft.mk {}) loadingGame engine report hbuilt haddressable hreport
  rw [hmethod] at hold
  cases (gameWith_body? loadingBody).symm.trans hold
  have hat : loadingBody.positionOf? ⟨1, 6⟩ = some 6 :=
    loadingBody_reachable.wellFormed.positionOf?_eq_some.2 (sketch_handleAt? (by decide))
  rw [hactivation] at hactivationAt
  rw [hpush] at hpushAt
  cases hat.symm.trans hactivationAt
  cases hat.symm.trans hpushAt
  obtain ⟨-, hruns⟩ := hrescales le_rfl
  have hslots : ∀ slot ∈ [report.positionLocal, report.scaleLocal],
      ((s.local? slot).bind Value.vector?).isSome = true := by
    rw [hposition, hscale]
    decide
  obtain ⟨s', hs', hrescaled⟩ := hruns 2048 2048 [] s.locals { s with args := s.locals }
    (loadingBody_runs _ _ 2048 2048) rfl hslots
  exact ⟨hbuilt, haddressable, report, new, s', hreport, hnew, hs', hrescaled⟩

end CilGraft.Graft

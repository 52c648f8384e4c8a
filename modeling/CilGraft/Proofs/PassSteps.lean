/-
The steps of a pass over a module.

- `Plan`: all that a graft finds out about a method before it changes anything, and the code that it is going to put in.
  `Plan.Valid` says that this is what there is to find, `Plan.body` and `Plan.report` what the graft makes of it.
- `graftBody_ok`: a graft with a plan is carried out. After the plan is made nothing can fail.
- `graftBody_failed`, `graftBody_eq_ok`: so a graft of a body has failed before it changed anything, or it was carried
  out to the end.
- `execute_failed`, `execute_succeeded`: how a pass ends, for any module. `execute_error`, `execute_eq_ok`: what it has
  done then to one that operations have built.
- `run_carries_out`, `Carried`: what a run that succeeds has carried out. `run_error_extends`: what one that fails has
  done. `run_module`: where any run leaves any module.
-/
import CilGraft.Proofs.ErrorKinds
import CilGraft.Proofs.GraftCode
import CilGraft.Proofs.Insertion
import CilGraft.Proofs.Selection

namespace CilGraft

namespace Graft

open Body (shift)

/-! ## Plans -/

/-- what a graft finds out about a body, and the code that it puts in -/
structure Plan where
  activation : Handle
  push : Handle
  position : Local
  scale : Local
  stack : Stack.Report
  ratioBlock : List Instruction
  pushBlock : List Instruction
  ratioPeak : Nat
  pushPeak : Nat
  /-- the places of the two anchors -/
  activationAt : Nat
  pushAt : Nat

/-- the slot that a body adds next -/
def nextLocal (b : Body) : Local := ⟨.ofNat b.locals.size⟩

/-- a body with one more slot -/
def withLocal (b : Body) (type : TypeSig) : Body := { b with locals := b.locals.push type }

namespace Plan

/-- the plan is one for this body -/
structure Valid (w : Plan) (g : Graft) (members : ImportedMembers) (resolve : Resolver) (signature : MethodSig)
    (b : Body) : Prop where
  activation_located : g.activationAnchor.locate b resolve = .ok w.activation
  push_located : g.pushAnchor.locate b resolve = .ok w.push
  slots : vectorLocals b members.vector = .ok (w.position, w.scale)
  analyzed : Stack.analyze (.ofSignature resolve signature) b = .ok w.stack
  room : b.locals.size < 65536
  ratio_made : members.ratioBlock (nextLocal b) g.config.referenceSize = .ok w.ratioBlock
  push_made : ∃ first second, members.scaleBlock w.position (nextLocal b) = .ok first ∧
    members.scaleBlock w.scale (nextLocal b) = .ok second ∧ w.pushBlock = first ++ second
  ratio_peak : Stack.peak resolve w.ratioBlock (depthAt b w.stack w.activation) = .ok w.ratioPeak
  push_peak : Stack.peak resolve w.pushBlock (depthAt b w.stack w.push) = .ok w.pushPeak
  activation_at : b.positionOf? w.activation = some w.activationAt
  push_at : b.positionOf? w.push = some w.pushAt

/-- the greatest depth that the plan allows for -/
def peak (w : Plan) : Nat := max (max w.stack.maxDepth w.ratioPeak) w.pushPeak

def maxStack (w : Plan) (b : Body) : UInt16 := max b.maxStack (.ofNat (min w.peak 65535))

/-- the body with the ratio block in front of its anchor -/
def half (w : Plan) (vector : TypeSig) (b : Body) : Body := (withLocal b vector).insertAt w.activationAt w.ratioBlock

/-- the body when the plan is carried out -/
def body (w : Plan) (vector : TypeSig) (b : Body) : Body :=
  { (w.half vector b).insertAt (shift w.activationAt w.ratioBlock.length w.pushAt) w.pushBlock with
    maxStack := w.maxStack b }

def report (w : Plan) (vector : TypeSig) (method : Token) (b : Body) : GraftReport :=
  { method, ratioLocal := nextLocal b, positionLocal := w.position, scaleLocal := w.scale
    ratioSplice := ⟨w.activation, b.fresh w.ratioBlock.length⟩
    scaleSplice := ⟨w.push, (w.half vector b).fresh w.pushBlock.length⟩, maxStack := w.maxStack b }

end Plan

/-! ## Slots -/

theorem local?_isSome {b : Body} {slot : Local} : (b.local? slot).isSome = true ↔ slot.index.toNat < b.locals.size := by
  simp [Body.local?]

theorem nextLocal_index {b : Body} (hroom : b.locals.size < 65536) : (nextLocal b).index.toNat = b.locals.size := by
  rw [nextLocal, UInt16.toNat_ofNat']
  exact Nat.mod_eq_of_lt hroom

theorem allocateLocal_eq_ok {m : Module} {b : Body} {type : TypeSig} {out : Body × Local} :
    m.allocateLocal b type = .ok out ↔
      m.resolvesType type = true ∧ b.locals.size < 65536 ∧ out = (withLocal b type, nextLocal b) := by
  simp only [Module.allocateLocal, Body.addLocal]
  split_ifs with htype hroom
  · simp only [htype, hroom, true_and, Except.ok.injEq]
    exact eq_comm
  · simp [hroom]
  · simp [htype]

theorem withLocal_wellFormed {b : Body} (hb : b.WellFormed) (hroom : b.locals.size < 65536) (type : TypeSig) :
    (withLocal b type).WellFormed :=
  hb.addLocal (by simp only [Body.addLocal, hroom, if_true]; rfl)

/-- the slots that the blocks touch are in the body with the new slot -/
theorem slots_exist {b : Body} {vector : TypeSig} {position scale : Local} (hroom : b.locals.size < 65536)
    (h : VectorSlots b vector position scale) :
    ∀ slot ∈ [position, scale, nextLocal b], ((withLocal b vector).local? slot).isSome = true := by
  have hsize : (withLocal b vector).locals.size = b.locals.size + 1 := Array.size_push _
  have hposition := h.position_vector.lt_size
  have hscale := h.scale_vector.lt_size
  have hnext := nextLocal_index hroom
  simp only [local?_isSome, hsize, List.mem_cons, List.not_mem_nil, or_false, forall_eq_or_imp, forall_eq]
  omega

/-! ## Blocks -/

section

variable {g : Graft} {members : ImportedMembers} {resolve : Resolver} {signature : MethodSig} {b : Body} {w : Plan}
  {method : Token}

namespace Plan.Valid

variable (hw : w.Valid g members resolve signature b)
include hw

theorem ratio_insertable (h : members.Linked g.config resolve) :
    Insertable resolve [w.position, w.scale, nextLocal b] w.ratioBlock [1, 2, 2, 3, 3, 2, 2, 3, 2, 3, 4, 0] := by
  have hr : nextLocal b ∈ [w.position, w.scale, nextLocal b] := by simp
  obtain ⟨block, hblock, hins⟩ := ratioBlock_insertable h hr g.config.referenceSize
  rw [hw.ratio_made] at hblock; cases hblock
  exact hins

theorem push_insertable (h : members.Linked g.config resolve) :
    Insertable resolve [w.position, w.scale, nextLocal b] w.pushBlock [1, 2, 1, 0, 1, 2, 1, 0] := by
  have hp : w.position ∈ [w.position, w.scale, nextLocal b] := by simp
  have hs : w.scale ∈ [w.position, w.scale, nextLocal b] := by simp
  have hr : nextLocal b ∈ [w.position, w.scale, nextLocal b] := by simp
  obtain ⟨first, second, hfirst, hsecond, hpush⟩ := hw.push_made
  obtain ⟨block, hblock, hins⟩ := scaleBlock_insertable h hp hr
  rw [hfirst] at hblock; cases hblock
  obtain ⟨block', hblock', hins'⟩ := scaleBlock_insertable h hs hr
  rw [hsecond] at hblock'; cases hblock'
  rw [hpush]
  exact hins.append hins'

/-! ## Splices -/

theorem ratio_length : w.ratioBlock.length = 12 := ratioBlock_length hw.ratio_made

theorem push_length : w.pushBlock.length = 8 := by
  obtain ⟨first, second, hfirst, hsecond, hpush⟩ := hw.push_made
  rw [hpush, List.length_append, scaleBlock_length hfirst, scaleBlock_length hsecond]

theorem push_straight : ∀ i ∈ w.pushBlock, Stack.Straight i := by
  obtain ⟨first, second, hfirst, hsecond, hpush⟩ := hw.push_made
  intro i hi
  rw [hpush] at hi
  rcases List.mem_append.1 hi with hi | hi
  · exact scaleBlock_straight hfirst i hi
  · exact scaleBlock_straight hsecond i hi

theorem half_size : (w.half members.vector b).size = b.size + 12 := by
  have hsize := Body.insertAt_size (withLocal b members.vector) w.activationAt w.ratioBlock
  rw [hw.ratio_length] at hsize
  exact hsize

variable (hb : b.WellFormed) (h : members.Linked g.config resolve)
include hb

theorem activation_lt : w.activationAt < b.size := hb.lt_size_of_positionOf? hw.activation_at

theorem push_contains : b.contains w.push = true :=
  hb.positionOf?_isSome.1 (Option.isSome_iff_exists.2 ⟨_, hw.push_at⟩)

theorem half_wellFormed : (w.half members.vector b).WellFormed :=
  Stack.insertAt_wellFormed (withLocal_wellFormed hb hw.room _) (ratioBlock_straight hw.ratio_made)

/-- the second anchor is where the first block has moved it to -/
theorem push_at_half : (w.half members.vector b).positionOf? w.push =
    some (shift w.activationAt w.ratioBlock.length w.pushAt) := by
  have hwf := withLocal_wellFormed hb hw.room members.vector
  have hissued : (withLocal b members.vector).Issued w.push := Body.Issued.of_contains (hw.push_contains hb)
  have hle : w.activationAt ≤ (withLocal b members.vector).size := (hw.activation_lt hb).le
  refine (Body.insertAt_positionOf? hwf.toCoherent hle hissued).trans ?_
  exact congrArg (Option.map _) hw.push_at

theorem moved_lt : shift w.activationAt w.ratioBlock.length w.pushAt < (w.half members.vector b).size :=
  (hw.half_wellFormed hb).lt_size_of_positionOf? (hw.push_at_half hb)

include h

theorem first_splice : Splicing.insertBefore { body := withLocal b members.vector } w.activation w.ratioBlock =
    .ok (⟨w.half members.vector b, [⟨w.activation, b.fresh w.ratioBlock.length⟩]⟩,
      ⟨w.activation, b.fresh w.ratioBlock.length⟩) := by
  have hwf := withLocal_wellFormed hb hw.room members.vector
  have hslots := slots_exist hw.room (vectorLocals_eq_ok hb hw.slots)
  exact @Body.splice_eq_ok ⟨withLocal b members.vector, []⟩ w.activation w.ratioBlock w.activationAt
    hwf.toCoherent hw.activation_at ((hw.ratio_insertable h).checkInstruction hslots)

theorem second_splice (records : List Splice) :
    Splicing.insertBefore ⟨w.half members.vector b, records⟩ w.push w.pushBlock =
      .ok (⟨(w.half members.vector b).insertAt (shift w.activationAt w.ratioBlock.length w.pushAt) w.pushBlock,
        records ++ [⟨w.push, (w.half members.vector b).fresh w.pushBlock.length⟩]⟩,
        ⟨w.push, (w.half members.vector b).fresh w.pushBlock.length⟩) := by
  have hslots := slots_exist hw.room (vectorLocals_eq_ok hb hw.slots)
  exact @Body.splice_eq_ok ⟨w.half members.vector b, records⟩ w.push w.pushBlock _
    (hw.half_wellFormed hb).toCoherent (hw.push_at_half hb) ((hw.push_insertable h).checkInstruction hslots)

end Plan.Valid

/-- **A graft with a plan is carried out.** -/
theorem graftBody_ok {p : Pass} (hw : w.Valid g members p.module.resolve signature b) (hb : b.WellFormed)
    (h : members.Linked g.config p.module.resolve) (hvector : p.module.resolvesType members.vector = true)
    (method : Token) : g.graftBody p members method signature b =
      .ok (⟨p.history ++ [.anchorsLocated, .localAllocated, .spliced],
        p.module.setBody method (some (w.body members.vector b))⟩, w.report members.vector method b) := by
  have hlocal := allocateLocal_eq_ok.2 ⟨hvector, hw.room, rfl⟩
  have hratio := (hw.ratio_insertable h).checkBalance
  have hpush := (hw.push_insertable h).checkBalance
  have hsplice := hw.first_splice hb h
  have hsplice' := hw.second_splice hb h
  obtain ⟨first, second, hfirst, hsecond, hpushBlock⟩ := hw.push_made
  simp only [graftBody, hw.activation_located, hw.push_located, hw.slots, hw.analyzed, leaving_ok, bind, Except.bind,
    hlocal, hw.ratio_made, hfirst, hsecond, ← hpushBlock, hratio, hpush, hw.ratio_peak, hw.push_peak, hsplice, hsplice',
    Pass.withBody, Pass.advance, Module.setBody_setBody, List.append_assoc, List.cons_append, List.nil_append]
  rfl

/-- when all is found there is a plan, since the blocks can always be made -/
theorem plan_exists {activation push : Handle} {position scale : Local} {stack : Stack.Report} (hb : b.WellFormed)
    (h : members.Linked g.config resolve) (hactivation : g.activationAnchor.locate b resolve = .ok activation)
    (hpush : g.pushAnchor.locate b resolve = .ok push) (hslots : vectorLocals b members.vector = .ok (position, scale))
    (hstack : Stack.analyze (.ofSignature resolve signature) b = .ok stack) (hroom : b.locals.size < 65536) :
    ∃ w : Plan, w.Valid g members resolve signature b := by
  have hp : position ∈ [position, scale, nextLocal b] := by simp
  have hs : scale ∈ [position, scale, nextLocal b] := by simp
  have hr : nextLocal b ∈ [position, scale, nextLocal b] := by simp
  obtain ⟨ratioBlock, hratio, hratioIns⟩ := ratioBlock_insertable h hr g.config.referenceSize
  obtain ⟨first, hfirst, hfirstIns⟩ := scaleBlock_insertable h hp hr
  obtain ⟨second, hsecond, hsecondIns⟩ := scaleBlock_insertable h hs hr
  obtain ⟨a, ha⟩ := Option.isSome_iff_exists.1
    (hb.positionOf?_isSome.2 (Anchor.Pattern.locate_contains hb hactivation))
  obtain ⟨q, hq⟩ := Option.isSome_iff_exists.1 (hb.positionOf?_isSome.2 (Anchor.Pattern.locate_contains hb hpush))
  have hratioPeak := Stack.peak_eq_ok hratioIns.trace (depthAt b stack activation)
  have hpushPeak := Stack.peak_eq_ok (hfirstIns.append hsecondIns).trace (depthAt b stack push)
  exact ⟨⟨activation, push, position, scale, stack, ratioBlock, first ++ second, _, _, a, q⟩, hactivation, hpush,
    hslots, hstack, hroom, hratio, ⟨first, second, hfirst, hsecond, rfl⟩, hratioPeak, hpushPeak, ha, hq⟩

/-- when all is found and there is a slot for the ratio, the graft is carried out -/
theorem graftBody_found {p : Pass} {activation push : Handle} {slots : Local × Local} {stack : Stack.Report}
    {out : Body × Local} (hb : b.WellFormed) (h : members.Linked g.config p.module.resolve)
    (hactivation : g.activationAnchor.locate b p.module.resolve = .ok activation)
    (hpush : g.pushAnchor.locate b p.module.resolve = .ok push) (hslots : vectorLocals b members.vector = .ok slots)
    (hstack : Stack.analyze (.ofSignature p.module.resolve signature) b = .ok stack)
    (hout : p.module.allocateLocal b members.vector = .ok out) :
    ∃ done, g.graftBody p members method signature b = .ok done := by
  obtain ⟨hvector, hroom, -⟩ := allocateLocal_eq_ok.1 hout
  obtain ⟨w, hw⟩ := plan_exists hb h hactivation hpush hslots hstack hroom
  exact ⟨_, graftBody_ok hw hb h hvector method⟩

/-- **Where a graft of a body can fail, and with what:** as long as it looks for instructions and slots; when it has
found them, in the analysis or for want of room for a slot; or behind that, if the members are not what the
configuration says. -/
theorem graftBody_failed {p : Pass} {f : Failure Pass}
    (hfail : g.graftBody p members method signature b = .error f) :
    (f.error.OfAnchors ∧ f.state = p) ∨
      ((p.module.resolvesType members.vector = true → f.error.OfStack) ∧ f.state = p.advance .anchorsLocated) ∨
      ((∃ b', f.state.module = p.module.setBody method (some b')) ∧
        ¬ (b.WellFormed ∧ members.Linked g.config p.module.resolve)) := by
  have hwhole := hfail
  rcases bind_eq_error.1 hfail with hfail | ⟨activation, hactivation, hfail⟩
  · obtain ⟨herror, hstate⟩ := leaving_eq_error.1 hfail
    exact Or.inl ⟨g.activationAnchor.locate_fails _ _ _ herror, hstate⟩
  rcases bind_eq_error.1 hfail with hfail | ⟨push, hpush, hfail⟩
  · obtain ⟨herror, hstate⟩ := leaving_eq_error.1 hfail
    exact Or.inl ⟨g.pushAnchor.locate_fails _ _ _ herror, hstate⟩
  rcases bind_eq_error.1 hfail with hfail | ⟨slots, hslots, hfail⟩
  · obtain ⟨herror, hstate⟩ := leaving_eq_error.1 hfail
    exact Or.inl ⟨vectorLocals_fails _ _ _ herror, hstate⟩
  rcases bind_eq_error.1 hfail with hfail | ⟨stack, hstack, hfail⟩
  · obtain ⟨herror, hstate⟩ := leaving_eq_error.1 hfail
    exact Or.inr (Or.inl ⟨fun _ => Stack.analyze_fails _ _ _ herror, hstate⟩)
  rcases bind_eq_error.1 hfail with hfail | ⟨out, hout, hfail⟩
  · obtain ⟨herror, hstate⟩ := leaving_eq_error.1 hfail
    exact Or.inr (Or.inl ⟨fun hknown => Module.allocateLocal_fails_known hknown _ _ herror, hstate⟩)
  -- from here on a failure would contradict that the graft is carried out when all is found
  refine Or.inr (Or.inr ⟨?_, fun ⟨hb, h⟩ => ?_⟩)
  · iterate 8
      rcases bind_eq_error.1 hfail with hfail | ⟨_, _, hfail⟩
      · rw [(leaving_eq_error.1 hfail).2]
        exact ⟨_, rfl⟩
    rcases bind_eq_error.1 hfail with hfail | ⟨_, _, hfail⟩
    · rw [(leaving_eq_error.1 hfail).2]
      exact ⟨_, Module.setBody_setBody _ _ _ _⟩
    · cases hfail
  · obtain ⟨done, hdone⟩ := graftBody_found hb h (leaving_eq_ok.1 hactivation) (leaving_eq_ok.1 hpush)
      (leaving_eq_ok.1 hslots) (leaving_eq_ok.1 hstack) (leaving_eq_ok.1 hout)
    rw [hdone] at hwhole
    cases hwhole

/-- **A graft of a body that fails has not changed anything**, or the members that it calls are not what the
configuration says. -/
theorem graftBody_error {p : Pass} {f : Failure Pass} (hb : b.WellFormed)
    (hfail : g.graftBody p members method signature b = .error f) :
    (f.state.module = p.module ∧ (f.state.history = p.history ∨ f.state.history = p.history ++ [.anchorsLocated])) ∨
      ((∃ b', f.state.module = p.module.setBody method (some b')) ∧ ¬ members.Linked g.config p.module.resolve) := by
  rcases graftBody_failed hfail with ⟨-, hstate⟩ | ⟨-, hstate⟩ | ⟨hmodule, hnot⟩
  · rw [hstate]
    exact Or.inl ⟨rfl, Or.inl rfl⟩
  · rw [hstate]
    exact Or.inl ⟨rfl, Or.inr rfl⟩
  · exact Or.inr ⟨hmodule, fun h => hnot ⟨hb, h⟩⟩

/-- **A graft of a body that succeeds has carried out a plan.** -/
theorem graftBody_eq_ok {p : Pass} {out : Pass × GraftReport} (hb : b.WellFormed)
    (hok : g.graftBody p members method signature b = .ok out) :
    ∃ w : Plan, w.Valid g members p.module.resolve signature b ∧
      out = (⟨p.history ++ [.anchorsLocated, .localAllocated, .spliced],
        p.module.setBody method (some (w.body members.vector b))⟩, w.report members.vector method b) := by
  obtain ⟨activation, hactivation, hok⟩ := bind_eq_ok.1 hok
  obtain ⟨push, hpush, hok⟩ := bind_eq_ok.1 hok
  obtain ⟨⟨position, scale⟩, hslots, hok⟩ := bind_eq_ok.1 hok
  obtain ⟨stack, hstack, hok⟩ := bind_eq_ok.1 hok
  obtain ⟨⟨b₁, ratio⟩, hlocal, hok⟩ := bind_eq_ok.1 hok
  obtain ⟨ratioBlock, hratio, hok⟩ := bind_eq_ok.1 hok
  obtain ⟨first, hfirst, hok⟩ := bind_eq_ok.1 hok
  obtain ⟨second, hsecond, hok⟩ := bind_eq_ok.1 hok
  obtain ⟨_, -, hok⟩ := bind_eq_ok.1 hok
  obtain ⟨_, -, hok⟩ := bind_eq_ok.1 hok
  obtain ⟨ratioPeak, hratioPeak, hok⟩ := bind_eq_ok.1 hok
  obtain ⟨pushPeak, hpushPeak, hok⟩ := bind_eq_ok.1 hok
  obtain ⟨⟨s₁, ratioSplice⟩, hsplice, hok⟩ := bind_eq_ok.1 hok
  obtain ⟨⟨s₂, scaleSplice⟩, hsplice', hok⟩ := bind_eq_ok.1 hok
  simp only [leaving_eq_ok] at hactivation hpush hslots hstack hlocal hratio hfirst hsecond
  simp only [leaving_eq_ok] at hratioPeak hpushPeak hsplice hsplice'
  obtain ⟨-, hroom, hlocal⟩ := allocateLocal_eq_ok.1 hlocal
  cases hlocal
  obtain ⟨-, a, ha, hbody, rfl, -⟩ := Body.splice_ok hsplice
  obtain ⟨-, q', hq', hbody', rfl, -⟩ := Body.splice_ok hsplice'
  have hwf := withLocal_wellFormed hb hroom members.vector
  have hcontains := Anchor.Pattern.locate_contains hb hpush
  obtain ⟨q, hq⟩ := Option.isSome_iff_exists.1 (hb.positionOf?_isSome.2 hcontains)
  -- the second anchor is looked up behind the first insertion
  have hshift : q' = shift a ratioBlock.length q := by
    have hissued : (withLocal b members.vector).Issued push := Body.Issued.of_contains hcontains
    have hmoved := @Body.insertAt_positionOf? _ a ratioBlock hwf.toCoherent (hwf.lt_size_of_positionOf? ha).le _ hissued
    have hold : (withLocal b members.vector).positionOf? push = some q := hq
    rw [← hbody, hq', hold, Option.map_some, Option.some.injEq] at hmoved
    exact hmoved
  refine ⟨⟨activation, push, position, scale, stack, ratioBlock, first ++ second, ratioPeak, pushPeak, a, q⟩,
    ⟨hactivation, hpush, hslots, hstack, hroom, hratio, ⟨first, second, hfirst, hsecond, rfl⟩, hratioPeak, hpushPeak,
      ha, hq⟩, ?_⟩
  injection hok with hok
  rw [← hok, hbody', hbody, hshift]
  simp only [Pass.withBody, Pass.advance, Module.setBody_setBody, List.append_assoc, List.cons_append, List.nil_append]
  rfl

/-- a graft of a body that fails has changed nothing, or that body; this needs nothing of the body -/
theorem graftBody_error_module {p : Pass} {f : Failure Pass}
    (hfail : g.graftBody p members method signature b = .error f) :
    f.state.module = p.module ∨ ∃ b', f.state.module = p.module.setBody method (some b') := by
  rcases graftBody_failed hfail with ⟨-, hstate⟩ | ⟨-, hstate⟩ | ⟨hmodule, -⟩
  · exact Or.inl (congrArg Pass.module hstate)
  · rw [hstate]
    exact Or.inl rfl
  · exact Or.inr hmodule

theorem graftBody_ok_module {p : Pass} {out : Pass × GraftReport}
    (hok : g.graftBody p members method signature b = .ok out) :
    ∃ b', out.1.module = p.module.setBody method (some b') := by
  iterate 14
    obtain ⟨_, -, hok⟩ := bind_eq_ok.1 hok
  injection hok with hok
  rw [← hok]
  simp only [Pass.withBody, Pass.advance, Module.setBody_setBody]
  exact ⟨_, rfl⟩

end

/-! ## A whole pass -/

variable {g : Graft} {m dependency : Module}

/-- a pass that has got as far as the members: the module with the members in it, and the method that is to be
changed -/
structure Resolved (g : Graft) (m dependency imported : Module) (members : ImportedMembers) (index : Nat)
    (row : MethodRow) : Prop where
  target : g.IsTarget m index row
  members : g.config.resolveMembers m dependency = .ok (imported, members)

namespace Resolved

variable {imported : Module} {members : ImportedMembers} {index : Nat} {row : MethodRow}
  (h : g.Resolved m dependency imported members index row)
include h

theorem extends_imported : m.Extends imported := by
  obtain ⟨vector, -, hout⟩ := Config.resolveMembers_eq_ok.1 h.members
  cases hout
  exact Config.importMembers_extends _ _ _

theorem linked (ha : imported.Addressable) : members.Linked g.config imported.resolve := by
  obtain ⟨vector, -, hout⟩ := Config.resolveMembers_eq_ok.1 h.members
  cases hout
  exact Config.importMembers_linked _ _ _ ha

theorem body_reachable (hm : m.Built) {token : Token} {b : Body} (hb : imported.body? token = some b) :
    b.Reachable := by
  rw [h.extends_imported.body?] at hb
  exact hm.body hb

/-- the body that is changed is the one that the row of the method has -/
theorem row_body (ha : m.Addressable) {b : Body} (hb : imported.body? (.ofIndex .methodDef index) = some b) :
    row.body = some b := by
  rw [h.extends_imported.body?, Module.body?, h.target.method? ha, Option.bind_some] at hb
  exact hb

end Resolved

/-- a pass on a module that it may change, whose method is found and whose members are there -/
theorem execute_eq {imported : Module} {members : ImportedMembers} {method : Token} {row : MethodRow} {b : Body}
    (hguard : g.guard.check m = .ok ()) (htarget : g.targetMethod m = .ok (method, row))
    (hmembers : g.config.resolveMembers m dependency = .ok (imported, members)) (hb : imported.body? method = some b) :
    g.execute { module := m } dependency =
      g.graftBody ⟨[.unchecked, .eligible, .methodResolved], imported⟩ members method row.signature b := by
  simp only [execute, hguard, htarget, hmembers, hb, leaving_ok, bind, Except.bind, Pass.advance]
  rfl

/-- **A pass that fails** was stopped by the guard, has missed the method or a member, or has failed in the body of the
method; the last case is that there is no body. -/
theorem execute_failed {f : Failure Pass} (hfail : g.execute { module := m } dependency = .error f) :
    (g.guard.check m = .error f.error ∧ f.state = { module := m }) ∨
      (f.error.OfMembers ∧ f.state = ⟨[.unchecked, .eligible], m⟩) ∨
      ∃ imported members index row, g.Resolved m dependency imported members index row ∧
        ((∃ b, imported.body? (.ofIndex .methodDef index) = some b ∧
            g.graftBody ⟨[.unchecked, .eligible, .methodResolved], imported⟩ members (.ofIndex .methodDef index)
              row.signature b = .error f) ∨
          (imported.body? (.ofIndex .methodDef index) = none ∧
            f.state = ⟨[.unchecked, .eligible, .methodResolved], imported⟩)) := by
  rcases bind_eq_error.1 hfail with hfail | ⟨_, -, hfail⟩
  · exact Or.inl (leaving_eq_error.1 hfail)
  rcases bind_eq_error.1 hfail with hfail | ⟨⟨method, row⟩, htarget, hfail⟩
  · obtain ⟨herror, hstate⟩ := leaving_eq_error.1 hfail
    exact Or.inr (Or.inl ⟨targetMethod_fails g m _ herror, hstate⟩)
  rcases bind_eq_error.1 hfail with hfail | ⟨⟨imported, members⟩, hmembers, hfail⟩
  · obtain ⟨herror, hstate⟩ := leaving_eq_error.1 hfail
    exact Or.inr (Or.inl ⟨Config.resolveMembers_fails g.config m dependency _ herror, hstate⟩)
  obtain ⟨index, rfl, hindex⟩ := targetMethod_eq_ok (leaving_eq_ok.1 htarget)
  refine Or.inr (Or.inr ⟨imported, members, index, row, ⟨hindex, leaving_eq_ok.1 hmembers⟩, ?_⟩)
  dsimp only at hfail
  split at hfail
  · rename_i b hb
    exact Or.inl ⟨b, hb, hfail⟩
  · rename_i hnone
    injection hfail with hfail
    exact Or.inr ⟨hnone, congrArg Failure.state hfail.symm⟩

/-- a pass that succeeds has changed the body of the method -/
theorem execute_succeeded {out : Pass × GraftReport} (hok : g.execute { module := m } dependency = .ok out) :
    ∃ imported members index row b, g.Resolved m dependency imported members index row ∧
      imported.body? (.ofIndex .methodDef index) = some b ∧
      g.graftBody ⟨[.unchecked, .eligible, .methodResolved], imported⟩ members (.ofIndex .methodDef index)
        row.signature b = .ok out := by
  obtain ⟨_, -, hok⟩ := bind_eq_ok.1 hok
  obtain ⟨⟨method, row⟩, htarget, hok⟩ := bind_eq_ok.1 hok
  obtain ⟨⟨imported, members⟩, hmembers, hok⟩ := bind_eq_ok.1 hok
  obtain ⟨index, rfl, hindex⟩ := targetMethod_eq_ok (leaving_eq_ok.1 htarget)
  dsimp only at hok
  split at hok
  · rename_i b hb
    exact ⟨imported, members, index, row, b, ⟨hindex, leaving_eq_ok.1 hmembers⟩, hb, hok⟩
  · cases hok

/-- **Where a pass can fail.** It has not touched the module then; or it has got as far as the members and has only
imported them; or the tokens of the members do not stand for them. -/
theorem execute_error {f : Failure Pass} (hm : m.Built) (hfail : g.execute { module := m } dependency = .error f) :
    (f.state.module = m ∧ (f.state.history = [.unchecked] ∨ f.state.history = [.unchecked, .eligible])) ∨
      ∃ imported members index row, g.Resolved m dependency imported members index row ∧
        ((f.state.module = imported ∧ (f.state.history = [.unchecked, .eligible, .methodResolved] ∨
            f.state.history = [.unchecked, .eligible, .methodResolved, .anchorsLocated])) ∨
          ((∃ b', f.state.module = imported.setBody (.ofIndex .methodDef index) (some b')) ∧
            ¬ members.Linked g.config imported.resolve)) := by
  rcases execute_failed hfail with
    ⟨-, hstate⟩ | ⟨-, hstate⟩ | ⟨imported, members, index, row, hresolved, ⟨b, hb, hfail⟩ | ⟨-, hstate⟩⟩
  · rw [hstate]
    exact Or.inl ⟨rfl, Or.inl rfl⟩
  · rw [hstate]
    exact Or.inl ⟨rfl, Or.inr rfl⟩
  · exact Or.inr ⟨imported, members, index, row, hresolved,
      graftBody_error (hresolved.body_reachable hm hb).wellFormed hfail⟩
  · rw [hstate]
    exact Or.inr ⟨imported, members, index, row, hresolved, Or.inl ⟨rfl, Or.inl rfl⟩⟩

/-- **A pass that succeeds** has imported the members and carried out a plan for the target method. -/
theorem execute_eq_ok {out : Pass × GraftReport} (hm : m.Built)
    (hok : g.execute { module := m } dependency = .ok out) :
    ∃ imported members index row b, ∃ w : Plan, g.Resolved m dependency imported members index row ∧
      imported.body? (.ofIndex .methodDef index) = some b ∧ w.Valid g members imported.resolve row.signature b ∧
      out = (⟨[.unchecked, .eligible, .methodResolved, .anchorsLocated, .localAllocated, .spliced],
        imported.setBody (.ofIndex .methodDef index) (some (w.body members.vector b))⟩,
        w.report members.vector (.ofIndex .methodDef index) b) := by
  obtain ⟨imported, members, index, row, b, hresolved, hb, hok⟩ := execute_succeeded hok
  obtain ⟨w, hw, rfl⟩ := graftBody_eq_ok (hresolved.body_reachable hm hb).wellFormed hok
  exact ⟨imported, members, index, row, b, w, hresolved, hb, hw, rfl⟩

/-! ## Runs -/

theorem run_eq_error {e : Error} (h : (g.run m dependency).result = .error e) :
    ∃ p, g.execute { module := m } dependency = .error ⟨e, p⟩ ∧ (g.run m dependency).module = p.module ∧
      (g.run m dependency).history = p.history ++ [.ofError e] := by
  simp only [run] at h ⊢
  split at h
  · cases h
  · rename_i e' p hfail
    injection h with h
    subst h
    rw [hfail]
    exact ⟨p, rfl, rfl, rfl⟩

theorem run_eq_ok {report : GraftReport} (h : (g.run m dependency).result = .ok report) :
    ∃ p, g.execute { module := m } dependency = .ok (p, report) ∧ (g.run m dependency).module = p.module ∧
      (g.run m dependency).history = p.history ++ [.done] := by
  simp only [run] at h ⊢
  split at h
  · rename_i p report' hok
    injection h with h
    subst h
    rw [hok]
    exact ⟨p, rfl, rfl, rfl⟩
  · cases h

/-- **A run that succeeds** has carried out a plan for its method, in the module with the members in it. -/
theorem run_carries_out {report : GraftReport} (hm : m.Built) (h : (g.run m dependency).result = .ok report) :
    ∃ imported members index row b, ∃ w : Plan, g.Resolved m dependency imported members index row ∧
      imported.body? (.ofIndex .methodDef index) = some b ∧ w.Valid g members imported.resolve row.signature b ∧
      (g.run m dependency).module =
        imported.setBody (.ofIndex .methodDef index) (some (w.body members.vector b)) ∧
      report = w.report members.vector (.ofIndex .methodDef index) b := by
  obtain ⟨p, hok, hmodule, -⟩ := run_eq_ok h
  obtain ⟨imported, members, index, row, b, w, hresolved, hbody, hw, hout⟩ := execute_eq_ok hm hok
  cases hout
  exact ⟨imported, members, index, row, b, w, hresolved, hbody, hw, hmodule, rfl⟩

/-- the body of the method that the report names, before and after, however large the tables are -/
theorem run_planned {report : GraftReport} (hm : m.Built) (h : (g.run m dependency).result = .ok report) :
    ∃ members resolve signature b, ∃ w : Plan, w.Valid g members resolve signature b ∧ b.WellFormed ∧
      m.body? report.method = some b ∧
      (g.run m dependency).module.body? report.method = some (w.body members.vector b) ∧
      report = w.report members.vector report.method b := by
  obtain ⟨imported, members, index, row, b, w, hresolved, hbody, hw, hmodule, rfl⟩ := run_carries_out hm h
  obtain ⟨row', hrow', -⟩ := Option.bind_eq_some_iff.1 hbody
  refine ⟨members, _, _, b, w, hw, (hresolved.body_reachable hm hbody).wellFormed,
    (hresolved.extends_imported.body? _).symm.trans hbody, ?_, rfl⟩
  rw [hmodule]
  exact Module.setBody_body? _ _ _ (Option.isSome_iff_exists.2 ⟨row', hrow'⟩)

/-- a run on `m` that leaves `m'` has carried out the plan `w` for the body `b` of a method -/
structure Carried (g : Graft) (m m' : Module) (report : GraftReport) (members : ImportedMembers) (row : MethodRow)
    (b : Body) (w : Plan) : Prop where
  method : m.method? report.method = some row
  before : row.body = some b
  after : m'.body? report.method = some (w.body members.vector b)
  wellFormed : b.WellFormed
  linked : members.Linked g.config m'.resolve
  valid : w.Valid g members m'.resolve row.signature b
  report_eq : report = w.report members.vector report.method b

theorem run_carried {report : GraftReport} (hm : m.Built) (ha : (g.run m dependency).module.Addressable)
    (h : (g.run m dependency).result = .ok report) :
    ∃ members row b w, Carried g m (g.run m dependency).module report members row b w := by
  obtain ⟨imported, members, index, row, b, w, hresolved, hbody, hw, hmodule, rfl⟩ := run_carries_out hm h
  have hext := hresolved.extends_imported
  rw [hmodule, Module.setBody_addressable] at ha
  have hrow := hresolved.target.method? (hext.addressable ha)
  rw [hmodule]
  set m' := imported.setBody (.ofIndex .methodDef index) (some (w.body members.vector b))
  have hresolve : m'.resolve = imported.resolve := Module.setBody_resolve _ _ _
  have hafter : m'.body? (.ofIndex .methodDef index) = some (w.body members.vector b) := by
    refine Module.setBody_body? _ _ _ ?_
    rw [hext.method?, hrow]
    rfl
  exact ⟨members, row, b, w,
    { method := hrow
      before := hresolved.row_body (hext.addressable ha) hbody
      after := hafter
      wellFormed := (hresolved.body_reachable hm hbody).wellFormed
      linked := hresolve ▸ hresolved.linked ha
      valid := hresolve ▸ hw
      report_eq := rfl }⟩

/-- a run that fails has added references at most -/
theorem run_error_extends {e : Error} (hm : m.Built) (ha : (g.run m dependency).module.Addressable)
    (h : (g.run m dependency).result = .error e) : m.Extends (g.run m dependency).module := by
  obtain ⟨p, hfail, hmodule, -⟩ := run_eq_error h
  rw [hmodule] at ha ⊢
  rcases execute_error hm hfail with
    ⟨hp, -⟩ | ⟨imported, members, index, row, hresolved, ⟨hp, -⟩ | ⟨⟨b', hp⟩, hlinked⟩⟩
  · dsimp only at hp
    rw [hp]
    exact Module.Extends.refl m
  · dsimp only at hp
    rw [hp]
    exact hresolved.extends_imported
  · -- the tokens of the members would not stand for them
    dsimp only at hp
    rw [hp, Module.setBody_addressable] at ha
    exact absurd (hresolved.linked ha) hlinked

/-- where a run leaves the module, whatever the module is: as it was, with the members in it, or with the members and
another body -/
theorem run_module : (g.run m dependency).module = m ∨
    ∃ imported members index row, g.Resolved m dependency imported members index row ∧
      ((g.run m dependency).module = imported ∨
        ∃ b', (g.run m dependency).module = imported.setBody (.ofIndex .methodDef index) (some b')) := by
  cases h : (g.run m dependency).result with
  | ok report =>
    obtain ⟨p, hok, hmodule, -⟩ := run_eq_ok h
    rw [hmodule]
    obtain ⟨imported, members, index, row, b, hresolved, -, hok⟩ := execute_succeeded hok
    exact Or.inr ⟨imported, members, index, row, hresolved, Or.inr (graftBody_ok_module hok)⟩
  | error e =>
    obtain ⟨p, hfail, hmodule, -⟩ := run_eq_error h
    rw [hmodule]
    rcases execute_failed hfail with
      ⟨-, hstate⟩ | ⟨-, hstate⟩ | ⟨imported, members, index, row, hresolved, ⟨b, -, hfail⟩ | ⟨-, hstate⟩⟩
    · exact Or.inl (congrArg Pass.module hstate)
    · exact Or.inl (congrArg Pass.module hstate)
    · exact Or.inr ⟨imported, members, index, row, hresolved, graftBody_error_module hfail⟩
    · exact Or.inr ⟨imported, members, index, row, hresolved, Or.inl (congrArg Pass.module hstate)⟩

/-- a run leaves to a token what it stands for -/
theorem run_resolve {token : Token} {member : Member} (h : m.resolve token = some member) :
    (g.run m dependency).module.resolve token = some member := by
  rcases @run_module g m dependency with hrun | ⟨imported, members, index, row, hresolved, hrun | ⟨b', hrun⟩⟩
  · rw [hrun]
    exact h
  · rw [hrun]
    exact hresolved.extends_imported.resolve h
  · rw [hrun, Module.setBody_resolve]
    exact hresolved.extends_imported.resolve h

/-- a run leaves the tables addressable if there is room for the members and the types that they name -/
theorem run_addressable (ha : m.Addressable) (htypes : m.typeRefs.size + 13 < 2 ^ 24)
    (hmembers : m.memberRefs.size + 7 < 2 ^ 24) : (g.run m dependency).module.Addressable := by
  rcases @run_module g m dependency with h | ⟨imported, members, index, row, hresolved, h⟩
  · rw [h]
    exact ha
  · obtain ⟨vector, -, hout⟩ := Config.resolveMembers_eq_ok.1 hresolved.members
    have himported : imported.Addressable := by
      cases hout
      exact Config.importMembers_addressable _ _ _ ha htypes hmembers
    rcases h with h | ⟨b', h⟩
    · rw [h]
      exact himported
    · rw [h, Module.setBody_addressable]
      exact himported

end Graft

end CilGraft

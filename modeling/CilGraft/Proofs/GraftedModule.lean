/-
What a run that succeeds does to a module, and all that it does.

- `Plan.body_code`: the code of the changed body, as the old code with the two blocks in front of their anchors.
- `Grafted`: the module, the method and its body before and after, part by part.
- `run_ok_grafted`: every run that succeeds is one.
-/
import CilGraft.Proofs.PassSteps
import CilGraft.Proofs.WalkExact

namespace CilGraft.Graft

/-- a block in its place, with consecutive slots -/
def placed (first : Nat) (block : List Instruction) : List Placed := block.mapIdx fun k i => ⟨first + k, i⟩

/-- the handles of consecutive slots -/
def handlesFrom (body first count : Nat) : List Handle := (List.range count).map fun k => ⟨body, first + k⟩

/-! ## Code -/

section

variable {g : Graft} {members : ImportedMembers} {resolve : Resolver} {signature : MethodSig} {b : Body} {w : Plan}
  (hw : w.Valid g members resolve signature b) (hb : b.WellFormed)
include hw hb

namespace Plan.Valid

/-- **The code of the changed body.** Each instruction keeps its slot; in front of the one anchor stands the ratio
block, in front of the other the scale blocks, and where both are the same the ratio block comes first. -/
theorem body_code : (w.body members.vector b).code.toList = b.code.toList.flatMap fun c =>
    (if c.slot = w.activation.slot then placed b.size w.ratioBlock else []) ++
      (if c.slot = w.push.slot then placed (b.size + 12) w.pushBlock else []) ++ [c] := by
  have hwf := withLocal_wellFormed hb hw.room members.vector
  have hfirst : (w.half members.vector b).code.toList = b.code.toList.flatMap fun c =>
      (if c.slot = w.activation.slot then placed b.size w.ratioBlock else []) ++ [c] :=
    Body.insertAt_code_flatMap hwf.toCoherent hw.activation_at
  have hsecond := @Body.insertAt_code_flatMap _ _ w.pushBlock (hw.half_wellFormed hb).toCoherent _ (hw.push_at_half hb)
  have hissue : (w.half members.vector b).issue w.pushBlock = placed (b.size + 12) w.pushBlock := by
    have hsize := hw.half_size
    unfold Body.issue placed
    rw [← hsize]
    rfl
  rw [hissue, hfirst, List.flatMap_assoc] at hsecond
  refine hsecond.trans (List.flatMap_congr fun c hc => ?_)
  -- no instruction of the ratio block is the second anchor: its slots are new
  have hnew : (placed b.size w.ratioBlock).flatMap (fun c =>
      (if c.slot = w.push.slot then placed (b.size + 12) w.pushBlock else []) ++ [c]) = placed b.size w.ratioBlock := by
    have hlt : w.push.slot < b.size := ((b.contains_iff _).1 (hw.push_contains hb)).2
    rw [List.flatMap_congr (g := fun c => [c]) fun c hc => ?_]
    · exact List.flatMap_singleton' _
    · obtain ⟨k, hk, rfl⟩ := List.mem_mapIdx.1 hc
      have hne : b.size + k ≠ w.push.slot := by omega
      rw [if_neg hne, List.nil_append]
  rw [List.flatMap_append]
  split_ifs with h1 h2 h2 <;> simp [hnew, h2]

end Plan.Valid

end

/-! ## The outcome of a run -/

/-- what a run that succeeds has made of a module `m` and of the body `old` of one of its methods -/
structure Grafted (g : Graft) (m dependency m' : Module) (report : GraftReport) (members : ImportedMembers)
    (index : Nat) (row : MethodRow) (old new : Body) : Prop where
  -- the module: references may be added, and one method has another body
  name : m'.name = m.name
  types : m'.types = m.types
  markers : m'.markers = m.markers
  typeRefs : m.typeRefs.toList <+: m'.typeRefs.toList
  memberRefs : m.memberRefs.toList <+: m'.memberRefs.toList
  size : m'.methods.size = m.methods.size
  others : ∀ j ≠ index, m'.methods[j]? = m.methods[j]?
  changed : m'.methods[index]? = some { row with body := some new }
  -- the method: the first of the target type with the name, a parameter and a body
  target : g.IsTarget m index row
  method : report.method = .ofIndex .methodDef index
  before : row.body = some old
  after : m'.body? report.method = some new
  -- the members, and the type of a vector as the library defines it
  resolved : ∃ imported, g.config.resolveMembers m dependency = .ok (imported, members) ∧
    m' = imported.setBody report.method (some new)
  vector : ∃ owner type, FirstType dependency g.config.vector.fullName owner ∧ dependency.types[owner]? = some type ∧
    members.vector = type.signature
  -- the slots: one is added, the others are the first and the last vector
  locals : new.locals = old.locals.push members.vector
  ratio : report.ratioLocal.index.toNat = old.locals.size
  vectors : VectorSlots old members.vector report.positionLocal report.scaleLocal
  scale_lt : report.scaleLocal.index.toNat < report.ratioLocal.index.toNat
  -- the code: the blocks stand in front of their anchors, with new slots
  activation : g.activationAnchor.locate old m'.resolve = .ok report.ratioSplice.anchor
  push : g.pushAnchor.locate old m'.resolve = .ok report.scaleSplice.anchor
  code : ∃ ratioBlock first second,
    members.ratioBlock report.ratioLocal g.config.referenceSize = .ok ratioBlock ∧ ratioBlock.length = 12 ∧
    members.scaleBlock report.positionLocal report.ratioLocal = .ok first ∧ first.length = 4 ∧
    members.scaleBlock report.scaleLocal report.ratioLocal = .ok second ∧ second.length = 4 ∧
    new.code.toList = old.code.toList.flatMap fun c =>
      (if c.slot = report.ratioSplice.anchor.slot then placed old.size ratioBlock else []) ++
        (if c.slot = report.scaleSplice.anchor.slot then placed (old.size + 12) (first ++ second) else []) ++ [c]
  ratio_handles : report.ratioSplice.inserted = handlesFrom old.number old.size 12
  scale_handles : report.scaleSplice.inserted = handlesFrom old.number (old.size + 12) 8
  -- the rest of the body
  number : new.number = old.number
  clauses : new.clauses = old.clauses
  initLocals : new.initLocals = old.initLocals
  maxStack : new.maxStack = report.maxStack

/-- **What a run that succeeds does, and nothing else.** References are added to the module, and the first method that
fits gets a body with one more local and the two blocks in front of their anchors. -/
theorem run_ok_grafted (g : Graft) (m dependency : Module) (report : GraftReport) (hm : m.Built) (ha : m.Addressable)
    (h : (g.run m dependency).result = .ok report) :
    ∃ members index row old new,
      g.Grafted m dependency (g.run m dependency).module report members index row old new := by
  obtain ⟨p, hok, hmodule, -⟩ := run_eq_ok h
  obtain ⟨imported, members, index, row, b, w, hresolved, hbody, hw, hout⟩ := execute_eq_ok hm hok
  cases hout
  rw [hmodule]
  have hb : b.WellFormed := (hresolved.body_reachable hm hbody).wellFormed
  have hext := hresolved.extends_imported
  have hrow := hresolved.target.method? ha
  have hmethodIndex : Module.methodIndex? (.ofIndex .methodDef index) = some index := by
    have hlt := (Array.getElem?_eq_some_iff.1 hresolved.target.at_index).1
    have hsize := ha.methods
    exact Module.methodIndex?_ofIndex (by omega)
  have hold := hresolved.row_body ha hbody
  have hslots := vectorLocals_eq_ok hb hw.slots
  have hnext := nextLocal_index hw.room
  set m' := imported.setBody (.ofIndex .methodDef index) (some (w.body members.vector b)) with hm'
  have hframe : m' = { imported with methods := m'.methods } := Module.setBody_eq _ _ _
  have hresolve : m'.resolve = imported.resolve := Module.setBody_resolve _ _ _
  have hrows : ∀ j, m'.methods[j]? = if index = j then m.methods[j]?.map fun row =>
      { row with body := some (w.body members.vector b) } else m.methods[j]? := by
    intro j
    simp only [hm', Module.setBody_getElem?, hmethodIndex, hext.methods, Option.some.injEq]
  obtain ⟨vector, hverify, hmembers⟩ := Config.resolveMembers_eq_ok.1 hresolved.members
  obtain ⟨-, owner, type, howner, htype, hvector⟩ := Config.verifyMembers_eq_ok.1 hverify
  obtain ⟨first, second, hfirst, hsecond, hpush⟩ := hw.push_made
  have hafter : m'.body? (.ofIndex .methodDef index) = some (w.body members.vector b) := by
    refine Module.setBody_body? _ _ _ ?_
    rw [hext.method?, hrow]
    rfl
  have hchanged : m'.methods[index]? = some { row with body := some (w.body members.vector b) } := by
    rw [hrows, if_pos rfl, hresolved.target.at_index]
    rfl
  have hvectorType : members.vector = type.signature := by
    cases hmembers
    exact hvector
  have hratioHandles : b.fresh w.ratioBlock.length = handlesFrom b.number b.size 12 := by
    rw [hw.ratio_length]
    rfl
  have hscaleHandles : (w.half members.vector b).fresh w.pushBlock.length = handlesFrom b.number (b.size + 12) 8 := by
    have hsize := hw.half_size
    rw [hw.push_length, ← hsize]
    rfl
  exact ⟨members, index, row, b, w.body members.vector b,
    { name := by rw [hframe]; exact hext.name
      types := by rw [hframe]; exact hext.types
      markers := by rw [hframe]; exact hext.markers
      typeRefs := by rw [hframe]; exact hext.typeRefs
      memberRefs := by rw [hframe]; exact hext.memberRefs
      size := by rw [hm', Module.setBody_size, hext.methods]
      others := fun j hj => by rw [hrows, if_neg (Ne.symm hj)]
      changed := hchanged
      target := hresolved.target
      method := rfl
      before := hold
      after := hafter
      resolved := ⟨imported, hresolved.members, rfl⟩
      vector := ⟨owner, type, findType?_eq_some.1 howner, htype, hvectorType⟩
      locals := rfl
      ratio := hnext
      vectors := hslots
      scale_lt := hslots.scale_vector.lt_size.trans_eq hnext.symm
      activation := by rw [hresolve]; exact hw.activation_located
      push := by rw [hresolve]; exact hw.push_located
      code := ⟨w.ratioBlock, first, second, hw.ratio_made, hw.ratio_length, hfirst, scaleBlock_length hfirst, hsecond,
        scaleBlock_length hsecond, hpush ▸ hw.body_code hb⟩
      ratio_handles := hratioHandles
      scale_handles := hscaleHandles
      number := rfl
      clauses := rfl
      initLocals := rfl
      maxStack := rfl }⟩

/-! ## Methods to graft -/

/-- a method with two vectors and the given code -/
def sketch (code : List Instruction) : Body :=
  (Body.append
    { number := 1, locals := #[.valueType ⟨"UnityEngine", "Vector3"⟩, .valueType ⟨"UnityEngine", "Vector3"⟩] } code).1

section

variable {code : List Instruction}

theorem sketch_reachable (h : ∀ i ∈ code, i.targets = []) : (sketch code).Reachable := by
  have h0 : (Body.empty 1).Reachable := .empty 1
  have h1 := @Body.Reachable.addLocal _ _ (.valueType ⟨"UnityEngine", "Vector3"⟩) _ h0 rfl
  exact (@Body.Reachable.addLocal _ _ (.valueType ⟨"UnityEngine", "Vector3"⟩) _ h1 rfl).append h

theorem sketch_instructions (code : List Instruction) : (sketch code).instructions = code := by
  simp [sketch, Body.append, Body.instructions, Body.issue_instructions]

theorem sketch_handleAt? {p : Nat} (hp : p < code.length) : (sketch code).handleAt? p = some ⟨1, p⟩ := by
  simp [sketch, Body.append, Body.handleAt?, Body.issue, hp]

theorem sketch_slots (code : List Instruction) :
    vectorLocals (sketch code) (.valueType ⟨"UnityEngine", "Vector3"⟩) = .ok (⟨0⟩, ⟨1⟩) := rfl

variable {resolve : Resolver}

/-- straight-line code that leaves nothing on the stack -/
theorem sketch_analyzed (block : List Instruction) (depths : List Nat) (hstraight : ∀ i ∈ block, Stack.Straight i)
    (htrace : Stack.Trace ⟨resolve, false⟩ 0 block depths) (hlast : (0 :: depths)[block.length]? = some 0) :
    ∃ r, Stack.analyze (.ofSignature resolve (.instanceOf .void [.int32])) (sketch (block ++ [{ opcode := .ret }])) =
      .ok r := by
  have hwf : (sketch (block ++ [{ opcode := .ret }])).WellFormed := (sketch_reachable fun i hi => by
    rcases List.mem_append.1 hi with hi | hi
    · exact (hstraight i hi).targets
    · obtain rfl := List.mem_singleton.1 hi
      rfl).wellFormed
  have hbody : Stack.StraightBody ⟨resolve, false⟩ (sketch (block ++ [{ opcode := .ret }])) block depths :=
    ⟨rfl, sketch_instructions _, hstraight, htrace⟩
  exact (Stack.analyze_isOk_iff hwf).2 (hbody.disciplined hwf rfl hlast)

/-- the first instruction that a search accepts -/
theorem positionFrom_append {accepts : Instruction → Bool} {before after : List Instruction} {i : Instruction}
    (hbefore : ∀ j ∈ before, accepts j = false) (hi : accepts i = true) :
    Anchor.positionFrom (before ++ i :: after) accepts 0 = some before.length := by
  have hfind : (before ++ i :: after).findIdx? accepts = some before.length := by
    rw [List.findIdx?_append, List.findIdx?_eq_none_iff.2 hbefore, List.findIdx?_cons, hi]
    simp
  simp [Anchor.positionFrom, hfind]

/-- a search for a call of a method looks at the names of the methods that are called -/
theorem callTo_accepts {token : Token} {member : Member} (h : resolve token = some member) (name : String) :
    (Anchor.Predicate.mk (.exactly .call) (some name)).accepts resolve (.call token) = (member.name == name) := by
  simp [Anchor.Predicate.accepts, Anchor.OpcodeClass.accepts, Instruction.call, Instruction.method?, h]

theorem other_accepts {name : String} {i : Instruction} (h : i.opcode ≠ .call) :
    (Anchor.Predicate.mk (.exactly .call) (some name)).accepts resolve i = false := by
  simp [Anchor.Predicate.accepts, Anchor.OpcodeClass.accepts, h]

variable (before : List Instruction) {after : List Instruction} {token : Token} {member : Member}
  (htoken : resolve token = some member)
include htoken

theorem sketch_push (hname : member.name = "PushMatrix")
    (hbefore : ∀ i ∈ before, (Anchor.Predicate.mk (.exactly .call) (some "PushMatrix")).accepts resolve i = false) :
    (Graft.mk {}).pushAnchor.locate (sketch (before ++ .call token :: after)) resolve = .ok ⟨1, before.length⟩ := by
  have haccepts := (callTo_accepts htoken "PushMatrix").trans (beq_iff_eq.2 hname)
  have hat : (sketch (before ++ .call token :: after)).handleAt? before.length = some ⟨1, before.length⟩ :=
    sketch_handleAt? (by simp)
  simp only [Anchor.Pattern.locate, pushAnchor, Anchor.Pattern.walk, Anchor.Step.move, Option.getD_none,
    sketch_instructions, positionFrom_append hbefore haccepts, Option.bind_some, hat]

theorem sketch_activation {next : Instruction} (hname : member.name = "set_active")
    (hbefore : ∀ i ∈ before, (Anchor.Predicate.mk (.exactly .call) (some "set_active")).accepts resolve i = false) :
    (Graft.mk {}).activationAnchor.locate (sketch (before ++ .call token :: next :: after)) resolve =
      .ok ⟨1, before.length + 1⟩ := by
  have haccepts := (callTo_accepts htoken "set_active").trans (beq_iff_eq.2 hname)
  have hlt : before.length + 1 < (before ++ .call token :: next :: after).length := by simp
  have hat : (sketch (before ++ .call token :: next :: after)).handleAt? (before.length + 1) =
      some ⟨1, before.length + 1⟩ := sketch_handleAt? hlt
  simp only [Anchor.Pattern.locate, activationAnchor, Anchor.Pattern.walk, Anchor.Step.move, Option.getD_none,
    sketch_instructions, positionFrom_append hbefore haccepts, hlt, if_true, Option.bind_some, hat]

end

/-- a method that makes a render target active and pushes the matrix right behind that -/
def drawingBody : Body :=
  { number := 1
    code := #[⟨0, { opcode := .ldnull }⟩, ⟨1, .call (.ofIndex .memberRef 0)⟩, ⟨2, .call (.ofIndex .memberRef 1)⟩,
      ⟨3, { opcode := .ret }⟩]
    locals := #[.valueType ⟨"UnityEngine", "Vector3"⟩, .valueType ⟨"UnityEngine", "Vector3"⟩] }

theorem drawingBody_eq : drawingBody = sketch [{ opcode := .ldnull }, .call (.ofIndex .memberRef 0),
    .call (.ofIndex .memberRef 1), { opcode := .ret }] := rfl

theorem drawingBody_reachable : drawingBody.Reachable :=
  drawingBody_eq ▸ sketch_reachable (by simp [Instruction.targets, Instruction.call])

/-- the method that pushes a matrix, which a graft looks for but does not call -/
def pushMatrix : Member := ⟨⟨"UnityEngine", "GL"⟩, "PushMatrix", .static .void []⟩

/-- a module with such a method, in which the other two are known -/
def game : Module :=
  { name := "Assembly-CSharp"
    types := #[⟨⟨"", "TBody"⟩, .reference⟩]
    methods := #[{ name := "MulTexProc", flags := 0x0006, signature := .instanceOf .void [.int32]
                   body := some drawingBody, owner := 0 }]
    typeRefs := #[⟨"UnityEngine", "RenderTexture"⟩, ⟨"UnityEngine", "GL"⟩]
    memberRefs := #[MemberKey.setActive.member {}, pushMatrix] }

/-- the same module with another method -/
def gameWith (b : Body) : Module :=
  { game with methods := #[{ name := "MulTexProc", flags := 0x0006, signature := .instanceOf .void [.int32]
                             body := some b, owner := 0 }] }

theorem gameWith_built {b : Body} (hb : b.Reachable) : (gameWith b).Built := by
  have himport : (((Module.importMethod { name := "Assembly-CSharp" } (MemberKey.setActive.member {})).1).importMethod
      pushMatrix).1 = { game with types := #[], methods := #[] } := by cbv
  have hmembers := ((Module.Built.empty "Assembly-CSharp").importMethod (MemberKey.setActive.member {})).importMethod
    pushMatrix
  rw [himport] at hmembers
  refine hmembers.addType ⟨⟨"", "TBody"⟩, .reference⟩
    [⟨"MulTexProc", 0x0006, .instanceOf .void [.int32], some b⟩] fun method hmethod b' hb' => ?_
  rw [List.mem_singleton.1 hmethod] at hb'
  cases hb'
  exact hb

theorem gameWith_body? (b : Body) : (gameWith b).body? (.ofIndex .methodDef 0) = some b := rfl

/-- it is the method that a graft is to change -/
theorem gameWith_target (b : Body) : (Graft.mk {}).IsTarget (gameWith b) 0
    { name := "MulTexProc", flags := 0x0006, signature := .instanceOf .void [.int32], body := some b, owner := 0 } :=
  ⟨rfl, 0, ⟨⟨⟨⟨"", "TBody"⟩, .reference⟩, rfl, by decide⟩, nofun⟩, ⟨rfl, rfl, nofun, rfl⟩, nofun⟩

theorem game_built : game.Built := gameWith_built drawingBody_reachable

theorem game_addressable : game.Addressable := ⟨by decide, by decide, by decide, by decide⟩

theorem gameWith_addressable (b : Body) : (gameWith b).Addressable :=
  ⟨game_addressable.types, game_addressable.methods, game_addressable.typeRefs, game_addressable.memberRefs⟩

/-- what the tokens in the code stand for -/
theorem gameWith_resolve (b : Body) :
    (gameWith b).resolve (.ofIndex .memberRef 0) = some (MemberKey.setActive.member {}) ∧
      (gameWith b).resolve (.ofIndex .memberRef 1) = some pushMatrix := ⟨rfl, rfl⟩

theorem game_resolve : game.resolve (.ofIndex .memberRef 0) = some (MemberKey.setActive.member {}) ∧
    game.resolve (.ofIndex .memberRef 1) = some pushMatrix := gameWith_resolve drawingBody

section

variable {resolve : Resolver} (hactive : resolve (.ofIndex .memberRef 0) = some (MemberKey.setActive.member {}))
  (hpush : resolve (.ofIndex .memberRef 1) = some pushMatrix)
include hactive hpush

/-- both anchors are the call that pushes the matrix -/
theorem drawingBody_anchors : (Graft.mk {}).activationAnchor.locate drawingBody resolve = .ok ⟨1, 2⟩ ∧
    (Graft.mk {}).pushAnchor.locate drawingBody resolve = .ok ⟨1, 2⟩ := by
  rw [drawingBody_eq]
  constructor
  · refine sketch_activation [{ opcode := .ldnull }] hactive rfl ?_
    simp [other_accepts]
  · refine sketch_push [{ opcode := .ldnull }, .call (.ofIndex .memberRef 0)] hpush rfl ?_
    simp [other_accepts, callTo_accepts hactive, MemberKey.member]

theorem drawingBody_analyzed :
    ∃ r, Stack.analyze (.ofSignature resolve (.instanceOf .void [.int32])) drawingBody = .ok r := by
  have hnull : Usable resolve [] { opcode := .ldnull } ⟨0, 1⟩ := usable_of_fixed rfl nofun rfl rfl rfl rfl
  have hcall : Usable resolve [] (.call (.ofIndex .memberRef 0)) ⟨1, 0⟩ := usable_call (.inl rfl) rfl hactive rfl rfl
  have hcall' : Usable resolve [] (.call (.ofIndex .memberRef 1)) ⟨0, 0⟩ := usable_call (.inl rfl) rfl hpush rfl rfl
  rw [drawingBody_eq]
  refine sketch_analyzed [{ opcode := .ldnull }, .call (.ofIndex .memberRef 0), .call (.ofIndex .memberRef 1)]
    [1, 0, 0] ?_ ?_ rfl
  · simp only [List.mem_cons, List.not_mem_nil, or_false, forall_eq_or_imp, forall_eq]
    exact ⟨hnull.straight, hcall.straight, hcall'.straight⟩
  · exact .cons hnull.effect (by decide) (.cons hcall.effect (by decide) (.cons hcall'.effect (by decide) .nil))

end

/-- such a module with the members of the library in it -/
def linkedGame (b : Body) : Module :=
  (Config.importMembers {} (.valueType ⟨"UnityEngine", "Vector3"⟩) (gameWith b)).1

theorem linkedGame_extends (b : Body) : (gameWith b).Extends (linkedGame b) :=
  Config.importMembers_extends {} (.valueType ⟨"UnityEngine", "Vector3"⟩) (gameWith b)

/-- the tokens go on standing for that, and the next one stands for the first member -/
theorem linkedGame_resolve (b : Body) :
    (linkedGame b).resolve (.ofIndex .memberRef 0) = some (MemberKey.setActive.member {}) ∧
      (linkedGame b).resolve (.ofIndex .memberRef 1) = some pushMatrix ∧
      (linkedGame b).resolve (.ofIndex .memberRef 2) = some (MemberKey.getActive.member {}) := by
  obtain ⟨hactive, hpush⟩ := gameWith_resolve b
  refine ⟨(linkedGame_extends b).resolve hactive, (linkedGame_extends b).resolve hpush, ?_⟩
  have hvector : Config.importVector (.valueType ⟨"UnityEngine", "Vector3"⟩) (gameWith b) =
      { gameWith b with typeRefs := game.typeRefs.push ⟨"UnityEngine", "Vector3"⟩ } := by cbv
  have hfirst : (Module.importMethod { gameWith b with typeRefs := game.typeRefs.push ⟨"UnityEngine", "Vector3"⟩ }
      (MemberKey.getActive.member {})).1.resolve (.ofIndex .memberRef 2) = some (MemberKey.getActive.member {}) := by
    cbv
  have hkeys : MemberKey.all = .getActive :: MemberKey.all.tail := rfl
  rw [linkedGame, Config.importMembers_eq, hvector, hkeys, List.map_cons, List.foldl_cons]
  exact (Module.importMethods_extends _ _).resolve hfirst

/-- the graft is carried out on such a module if its anchors are in the code and the code is disciplined -/
theorem run_gameWith {code : List Instruction} {activation push : Handle} (htargets : ∀ i ∈ code, i.targets = [])
    (hactivation : (Graft.mk {}).activationAnchor.locate (sketch code) (linkedGame (sketch code)).resolve =
      .ok activation)
    (hpush : (Graft.mk {}).pushAnchor.locate (sketch code) (linkedGame (sketch code)).resolve = .ok push)
    (hstack : ∃ r, Stack.analyze (.ofSignature (linkedGame (sketch code)).resolve (.instanceOf .void [.int32]))
      (sketch code) = .ok r) :
    ∃ report, ((Graft.mk {}).run (gameWith (sketch code)) engine).result = .ok report ∧
      report.method = .ofIndex .methodDef 0 ∧ report.ratioSplice.anchor = activation ∧
      report.scaleSplice.anchor = push ∧ report.positionLocal = ⟨0⟩ ∧ report.scaleLocal = ⟨1⟩ := by
  set b := sketch code
  set vector : TypeSig := .valueType ⟨"UnityEngine", "Vector3"⟩
  have hguard : (Graft.mk {}).guard.check game = .ok () := by decide
  have htarget : ∃ row, (Graft.mk {}).targetMethod (gameWith b) = .ok (.ofIndex .methodDef 0, row) ∧
      row.signature = .instanceOf .void [.int32] := ⟨_, by cbv, rfl⟩
  obtain ⟨row, htarget, hsignature⟩ := htarget
  have hwf : b.WellFormed := (sketch_reachable htargets).wellFormed
  have hmembers := resolveMembers_engine (gameWith b)
  have haddressable : (linkedGame b).Addressable :=
    Config.importMembers_addressable {} vector (gameWith b) (gameWith_addressable b)
      (by decide : game.typeRefs.size + 13 < 2 ^ 24) (by decide : game.memberRefs.size + 7 < 2 ^ 24)
  have hlinked := Config.importMembers_linked {} vector (gameWith b) haddressable
  obtain ⟨stack, hstack⟩ := hstack
  obtain ⟨w, hw⟩ := plan_exists hwf hlinked hactivation hpush (sketch_slots code) hstack
    (by norm_num : 2 < 65536)
  have hgraft := graftBody_ok (p := ⟨[.unchecked, .eligible, .methodResolved], _⟩) hw hwf hlinked
    (Config.importMembers_resolvesType {} vector (gameWith b)) (.ofIndex .methodDef 0)
  have hexecute := execute_eq (m := gameWith b) hguard htarget hmembers
    ((linkedGame_extends b).body? _ ▸ gameWith_body? b)
  rw [hsignature, hgraft] at hexecute
  have hslots := hw.slots.symm.trans (sketch_slots code)
  injection hslots with hslots
  injection hslots with hposition hscale
  refine ⟨w.report vector (.ofIndex .methodDef 0) b, ?_, rfl, ?_, ?_, hposition, hscale⟩
  · rw [run, hexecute]
    rfl
  · have hsame := hw.activation_located.symm.trans hactivation
    injection hsame
  · have hsame := hw.push_located.symm.trans hpush
    injection hsame

/-- the graft is carried out in front of the call that pushes the matrix -/
theorem run_game : ∃ report, ((Graft.mk {}).run game engine).result = .ok report ∧
    report.method = .ofIndex .methodDef 0 ∧ report.ratioSplice.anchor = ⟨1, 2⟩ ∧
    report.scaleSplice.anchor = ⟨1, 2⟩ := by
  have hgame : game = gameWith drawingBody := rfl
  obtain ⟨hactive, hpush, -⟩ := linkedGame_resolve drawingBody
  obtain ⟨hactivation, hpushAnchor⟩ := drawingBody_anchors hactive hpush
  have hstack := drawingBody_analyzed hactive hpush
  rw [hgame]
  rw [drawingBody_eq] at hactivation hpushAnchor hstack ⊢
  obtain ⟨report, hreport, hmethod, hfirst, hsecond, -⟩ :=
    run_gameWith (by simp [Instruction.targets, Instruction.call]) hactivation hpushAnchor hstack
  exact ⟨report, hreport, hmethod, hfirst, hsecond⟩

/-- both blocks stand in front of the same call there -/
theorem run_ok_grafted_game :
    let r := (Graft.mk {}).run game engine
    game.Built ∧ game.Addressable ∧ ∃ report members index row old new, r.result = .ok report ∧
      Grafted (Graft.mk {}) game engine r.module report members index row old new := by
  intro r
  obtain ⟨report, hreport, -⟩ := run_game
  obtain ⟨members, index, row, old, new, h⟩ :=
    run_ok_grafted (Graft.mk {}) game engine report game_built game_addressable hreport
  exact ⟨game_built, game_addressable, report, members, index, row, old, new, hreport, h⟩

end CilGraft.Graft

/-
The members that a graft imports, and the code that it makes of them.

- `importMembers_linked`: behind the import every token stands for the member that the configuration declares, also
  where the module defines that member itself.
- `Usable`: what an instruction needs to be used in a block: a fitting operand, allowed slots, a known effect.
- `ratioBlock_insertable`, `scaleBlock_insertable`: the blocks are always made, whatever the slots are; they are
  neutral, and every check that the graft makes of them passes (`Insertable.checkBalance`,
  `Insertable.checkInstruction`).
-/
import CilGraft.Graft.Pass
import CilGraft.Proofs.Metadata
import CilGraft.Proofs.NetEffect

namespace CilGraft

/-! ## Imported members -/

namespace ImportedMembers

/-- the token of a member -/
def token (m : ImportedMembers) : MemberKey → Token
  | .getActive => m.getActive
  | .setActive => m.setActive
  | .getWidth => m.getWidth
  | .getHeight => m.getHeight
  | .vectorCtor => m.vectorCtor
  | .vectorScale => m.vectorScale
  | .mathMin => m.mathMin

/-- every token is one of a method and stands for the member that the configuration declares -/
structure Linked (m : ImportedMembers) (c : Config) (resolve : Resolver) : Prop where
  isMethod : ∀ key, (m.token key).isMethod = true
  resolve : ∀ key, resolve (m.token key) = some (key.member c)

end ImportedMembers

namespace Config

variable (c : Config) (vector : TypeSig) (m : Module)

/-- the type of a vector is imported first -/
def importVector : Module :=
  match vector.typeName? with
  | some name => (m.importType name).1
  | none => m

theorem importVector_extends : m.Extends (importVector vector m) := by
  simp only [importVector]
  split
  · exact Module.importType_extends m _
  · exact Module.Extends.refl m

theorem importVector_resolvesType : (importVector vector m).resolvesType vector = true := by
  simp only [importVector]
  split
  · rename_i name hname
    exact Module.importType_resolvesType m hname
  · rename_i hnone
    simp only [Module.resolvesType, hnone]

/-- then all members, one after the other -/
theorem importMembers_eq : (c.importMembers vector m).1 =
    (MemberKey.all.map (·.member c)).foldl (fun m member => (m.importMethod member).1) (importVector vector m) := rfl

theorem importMembers_extends : m.Extends (c.importMembers vector m).1 := by
  rw [importMembers_eq]
  exact (importVector_extends vector m).trans (Module.importMethods_extends _ _)

/-- the type of a vector is known afterwards -/
theorem importMembers_resolvesType : (c.importMembers vector m).1.resolvesType vector = true := by
  rw [importMembers_eq]
  exact (Module.importMethods_extends _ _).resolvesType (importVector_resolvesType vector m)

theorem importMembers_isMethod (key : MemberKey) : ((c.importMembers vector m).2.token key).isMethod = true := by
  cases key <;> exact Module.importMethod_isMethod _ _

/-- the members add at most 7 rows, and the types that they name at most 13 -/
theorem importMembers_addressable (ha : m.Addressable) (htypes : m.typeRefs.size + 13 < 2 ^ 24)
    (hmembers : m.memberRefs.size + 7 < 2 ^ 24) : (c.importMembers vector m).1.Addressable := by
  have hext := importMembers_extends c vector m
  have hvector : (importVector vector m).typeRefs.size ≤ m.typeRefs.size + 1 ∧
      (importVector vector m).memberRefs.size = m.memberRefs.size := by
    simp only [importVector]
    split
    · exact Module.importType_size m _
    · exact ⟨Nat.le_succ _, rfl⟩
  have hsize := Module.importMethods_size (importVector vector m) (MemberKey.all.map (·.member c))
  have hsum : ((MemberKey.all.map (·.member c)).map (·.signature.typeNames.length + 1)).sum = 12 := rfl
  have hlen : (MemberKey.all.map (·.member c)).length = 7 := rfl
  rw [hsum, hlen, ← importMembers_eq] at hsize
  exact ⟨hext.types ▸ ha.types, hext.methods ▸ ha.methods, by omega, by omega⟩

theorem checkMember_eq_ok {dependency : Module} {member : Member} : checkMember dependency member = .ok () ↔
    ∃ owner, dependency.findType? member.declaring.fullName = some owner ∧
      (dependency.findMethod? owner member.name member.signature).isSome = true := by
  simp only [checkMember]
  cases dependency.findType? member.declaring.fullName with
  | none => simp
  | some owner => cases hm : dependency.findMethod? owner member.name member.signature <;> simp [hm]

/-- a library passes when every member that is looked for there is found; the vector type is as it defines it -/
theorem verifyMembers_eq_ok {c : Config} {dependency : Module} {vector : TypeSig} :
    c.verifyMembers dependency = .ok vector ↔
      (∀ key : MemberKey, key.inDependency = true → checkMember dependency (key.member c) = .ok ()) ∧
        ∃ owner type, dependency.findType? c.vector.fullName = some owner ∧ dependency.types[owner]? = some type ∧
          vector = type.signature := by
  have hall : ∀ key : MemberKey, key ∈ MemberKey.all := by
    intro key
    cases key <;> decide
  have hforM :
      forM (MemberKey.all.filter (·.inDependency)) (fun key => checkMember dependency (key.member c)) = .ok () ↔
        ∀ key : MemberKey, key.inDependency = true → checkMember dependency (key.member c) = .ok () := by
    rw [forM_eq_ok]
    exact ⟨fun h key hkey => h key (List.mem_filter.2 ⟨hall key, hkey⟩),
      fun h key hkey => h key (List.mem_filter.1 hkey).2⟩
  rw [← hforM]
  constructor
  · intro h
    obtain ⟨_, hcheck, h⟩ := bind_eq_ok.1 h
    refine ⟨hcheck, ?_⟩
    split at h
    · rename_i type htype
      injection h with h
      obtain ⟨owner, howner, htype⟩ := Option.bind_eq_some_iff.1 htype
      exact ⟨owner, type, howner, htype, h.symm⟩
    · cases h
  · rintro ⟨hcheck, owner, type, howner, htype, rfl⟩
    refine bind_eq_ok.2 ⟨(), hcheck, ?_⟩
    simp only [howner, Option.bind_some, htype]
    rfl

theorem resolveMembers_eq_ok {c : Config} {m dependency : Module} {out : Module × ImportedMembers} :
    c.resolveMembers m dependency = .ok out ↔
      ∃ vector, c.verifyMembers dependency = .ok vector ∧ out = c.importMembers vector m := by
  simp only [resolveMembers, bind_eq_ok, pure, Except.pure, Except.ok.injEq]
  constructor
  · rintro ⟨vector, hvector, rfl⟩
    exact ⟨vector, hvector, rfl⟩
  · rintro ⟨vector, hvector, rfl⟩
    exact ⟨vector, hvector, rfl⟩

/-- **Every imported token stands for the member that the configuration declares.** -/
theorem importMembers_linked (ha : (c.importMembers vector m).1.Addressable) :
    (c.importMembers vector m).2.Linked c (c.importMembers vector m).1.resolve := by
  refine ⟨importMembers_isMethod c vector m, fun key => ?_⟩
  -- an import is followed by those of the keys behind it
  have hrest : ∀ (m' : Module) (n : Nat) (hn : MemberKey.all[n]? = some key),
      ((MemberKey.all.drop n).map (·.member c)).foldl (fun m member => (m.importMethod member).1) m' =
        (c.importMembers vector m).1 →
      (c.importMembers vector m).1.resolve (m'.importMethod (key.member c)).2 = some (key.member c) := by
    intro m' n hn heq
    refine Module.importMethod_linked ?_ ha
    rw [← heq, List.drop_eq_getElem_cons (List.getElem?_eq_some_iff.1 hn).1, (List.getElem?_eq_some_iff.1 hn).2]
    exact Module.importMethods_extends _ _
  cases key with
  | getActive => exact hrest _ 0 rfl rfl
  | setActive => exact hrest _ 1 rfl rfl
  | getWidth => exact hrest _ 2 rfl rfl
  | getHeight => exact hrest _ 3 rfl rfl
  | vectorCtor => exact hrest _ 4 rfl rfl
  | vectorScale => exact hrest _ 5 rfl rfl
  | mathMin => exact hrest _ 6 rfl rfl

end Config

/-- a library with just the members that a graft needs -/
def engine : Module :=
  let texture : TypeName := ⟨"UnityEngine", "RenderTexture"⟩
  let vector : TypeName := ⟨"UnityEngine", "Vector3"⟩
  let m := (Module.addType { name := "UnityEngine" } ⟨texture, .reference⟩ [
    { name := "get_active", flags := 0x0016, signature := .static (.reference texture) [] },
    { name := "set_active", flags := 0x0016, signature := .static .void [.reference texture] },
    { name := "get_width", flags := 0x0006, signature := .instanceOf .int32 [] },
    { name := "get_height", flags := 0x0006, signature := .instanceOf .int32 [] }]).1
  (m.addType ⟨vector, .valueType⟩ [
    { name := constructorName, flags := 0x0006, signature := .instanceOf .void [.float32, .float32, .float32] },
    { name := "Scale", flags := 0x0016
      signature := .static (.valueType vector) [.valueType vector, .valueType vector] }]).1

theorem findType?_engine :
    engine.findType? "UnityEngine.RenderTexture" = some 0 ∧ engine.findType? "UnityEngine.Vector3" = some 1 := by
  simp [engine, Module.addType, Module.findType?, TypeName.fullName, List.findIdx?_cons]

/-- the library has what a graft with the standard configuration looks for -/
theorem verifyMembers_engine : Config.verifyMembers {} engine = .ok (.valueType ⟨"UnityEngine", "Vector3"⟩) := by
  have htexture : engine.findType? (TypeName.mk "UnityEngine" "RenderTexture").fullName = some 0 := findType?_engine.1
  have hvector : engine.findType? (TypeName.mk "UnityEngine" "Vector3").fullName = some 1 := findType?_engine.2
  refine Config.verifyMembers_eq_ok.2
    ⟨fun key hkey => ?_, 1, ⟨⟨"UnityEngine", "Vector3"⟩, .valueType⟩, hvector, rfl, rfl⟩
  cases key with
  | mathMin => cases hkey
  | vectorCtor => exact Config.checkMember_eq_ok.2 ⟨1, hvector, by decide⟩
  | vectorScale => exact Config.checkMember_eq_ok.2 ⟨1, hvector, by decide⟩
  | _ => exact Config.checkMember_eq_ok.2 ⟨0, htexture, by decide⟩

theorem resolveMembers_engine (m : Module) : Config.resolveMembers {} m engine =
    .ok ((Config.importMembers {} (.valueType ⟨"UnityEngine", "Vector3"⟩) m).1,
      (Config.importMembers {} (.valueType ⟨"UnityEngine", "Vector3"⟩) m).2) :=
  Config.resolveMembers_eq_ok.2 ⟨_, verifyMembers_engine, rfl⟩

/-! ## Instructions of blocks -/

namespace Graft

variable {resolve : Resolver} {slots : List Local}

/-- an instruction that a block may hold: its operand fits, the slots that it touches are among the given ones, control
goes on behind it, and its effect is known -/
structure Usable (resolve : Resolver) (slots : List Local) (i : Instruction) (e : StackEffect) : Prop where
  valid : i.isValid = true
  slots : ∀ slot ∈ i.local?, slot ∈ slots
  straight : Stack.Straight i
  effect : (Stack.Context.mk resolve false).effect i = .ok e
  small : e.Small

/-- most opcodes have a fixed effect and go on to the next instruction -/
theorem usable_of_fixed {i : Instruction} {e : StackEffect} (hvalid : i.isValid = true)
    (hslots : ∀ slot ∈ i.local?, slot ∈ slots) (hflow : i.flow = .sequential) (htargets : i.targets = [])
    (he : i.opcode.stackEffect? = some e) (hsmall : e.Small) : Usable resolve slots i e :=
  ⟨hvalid, hslots, ⟨.inl hflow, htargets⟩, by simp only [Stack.Context.effect, he], hsmall⟩

/-- an instruction touches a slot that it names, whether by its operand or by its opcode -/
theorem slot_mem {l : Local} (hl : l ∈ slots) (n : UInt16) (hn : l.index = n) :
    ∀ slot ∈ some (Local.mk n), slot ∈ slots := by
  intro slot hslot
  subst hn
  obtain rfl := Option.mem_some_iff.1 hslot
  exact hl

theorem usable_loadLocal {l : Local} (hl : l ∈ slots) : Usable resolve slots (.loadLocal l) ⟨0, 1⟩ := by
  have hmem := slot_mem hl
  simp only [Instruction.loadLocal]
  split_ifs with h0 h1 h2 h3 hshort
  · exact usable_of_fixed rfl (hmem 0 h0) rfl rfl rfl rfl
  · exact usable_of_fixed rfl (hmem 1 h1) rfl rfl rfl rfl
  · exact usable_of_fixed rfl (hmem 2 h2) rfl rfl rfl rfl
  · exact usable_of_fixed rfl (hmem 3 h3) rfl rfl rfl rfl
  · exact usable_of_fixed (decide_eq_true hshort) (hmem l.index rfl) rfl rfl rfl rfl
  · exact usable_of_fixed rfl (hmem l.index rfl) rfl rfl rfl rfl

theorem usable_storeLocal {l : Local} (hl : l ∈ slots) : Usable resolve slots (.storeLocal l) ⟨1, 0⟩ := by
  have hmem := slot_mem hl
  simp only [Instruction.storeLocal]
  split_ifs with h0 h1 h2 h3 hshort
  · exact usable_of_fixed rfl (hmem 0 h0) rfl rfl rfl rfl
  · exact usable_of_fixed rfl (hmem 1 h1) rfl rfl rfl rfl
  · exact usable_of_fixed rfl (hmem 2 h2) rfl rfl rfl rfl
  · exact usable_of_fixed rfl (hmem 3 h3) rfl rfl rfl rfl
  · exact usable_of_fixed (decide_eq_true hshort) (hmem l.index rfl) rfl rfl rfl rfl
  · exact usable_of_fixed rfl (hmem l.index rfl) rfl rfl rfl rfl

theorem usable_loadLocalAddress {l : Local} (hl : l ∈ slots) :
    Usable resolve slots (.loadLocalAddress l) ⟨0, 1⟩ := by
  have hmem := slot_mem hl l.index rfl
  simp only [Instruction.loadLocalAddress]
  split_ifs with hshort
  · exact usable_of_fixed (decide_eq_true hshort) hmem rfl rfl rfl rfl
  · exact usable_of_fixed rfl hmem rfl rfl rfl rfl

/-- a call takes what the signature of its member says, with the object if there is one -/
theorem usable_call {opcode : Opcode} {token : Token} {member : Member} {e : StackEffect}
    (hop : opcode = .call ∨ opcode = .callvirt) (ht : token.isMethod = true) (hm : resolve token = some member)
    (he : Stack.sized ⟨opcode, .method token⟩ (Stack.callPops opcode member.signature)
      (Stack.callPushes opcode member.signature) = .ok e) (hsmall : e.Small) :
    Usable resolve slots ⟨opcode, .method token⟩ e := by
  rcases hop with rfl | rfl
  · refine ⟨ht, by simp [Instruction.local?, Opcode.implicitLocal?], ⟨.inr rfl, rfl⟩, ?_, hsmall⟩
    simpa [Stack.Context.effect, Opcode.stackEffect?, Opcode.row, Stack.callee, Instruction.method?, hm, bind,
      Except.bind] using he
  · refine ⟨ht, by simp [Instruction.local?, Opcode.implicitLocal?], ⟨.inr rfl, rfl⟩, ?_, hsmall⟩
    simpa [Stack.Context.effect, Opcode.stackEffect?, Opcode.row, Stack.callee, Instruction.method?, hm, bind,
      Except.bind] using he

/-! ## Blocks -/

/-- a block that passes all that a graft checks: its instructions are usable, and it is neutral -/
structure Insertable (resolve : Resolver) (slots : List Local) (block : List Instruction) (levels : List Nat) : Prop
    extends Stack.Neutral resolve block levels where
  usable : ∀ i ∈ block, ∃ e, Usable resolve slots i e

namespace Insertable

variable {block block' : List Instruction} {levels levels' : List Nat}

theorem append (h : Insertable resolve slots block levels) (h' : Insertable resolve slots block' levels') :
    Insertable resolve slots (block ++ block') (levels ++ levels') := by
  refine ⟨h.toNeutral.append h'.toNeutral, fun i hi => ?_⟩
  rcases List.mem_append.1 hi with hi | hi
  · exact h.usable i hi
  · exact h'.usable i hi

variable (h : Insertable resolve slots block levels)
include h

theorem validated : Instruction.validated block = .ok block := by
  have hforM : forM block Instruction.validate = .ok () := forM_eq_ok.2 fun i hi => by
    obtain ⟨e, he⟩ := h.usable i hi
    simp only [Instruction.validate, he.valid, if_true]
  exact bind_eq_ok.2 ⟨(), hforM, rfl⟩

theorem checkBalance : checkBalance resolve block = .ok () := by
  have hnet : Stack.netEffect resolve block = .ok 0 := Stack.netEffect_eq h.trace h.closed fun i hi e he => by
    obtain ⟨e', he'⟩ := h.usable i hi
    rw [he'.effect] at he; cases he
    exact he'.small
  rw [Graft.checkBalance, hnet]
  rfl

theorem checkInstruction {b : Body} (hb : ∀ slot ∈ slots, (b.local? slot).isSome = true) :
    ∀ i ∈ block, Splicing.checkInstruction b i = .ok () := by
  intro i hi
  obtain ⟨e, he⟩ := h.usable i hi
  refine Body.checkInstruction_eq_ok.2 ⟨he.valid, fun slot hslot => hb slot (he.slots slot hslot), fun t ht => ?_⟩
  rw [he.straight.targets] at ht
  cases ht

end Insertable

variable {members : ImportedMembers}

/-- a check of a block does not change it -/
theorem validated_eq {block out : List Instruction} (h : Instruction.validated block = .ok out) : out = block := by
  obtain ⟨_, -, h⟩ := bind_eq_ok.1 h
  injection h with h
  exact h.symm

theorem ratioBlock_eq {ratio : Local} {size : Binary.Single} {block : List Instruction}
    (h : members.ratioBlock ratio size = .ok block) :
    block = [.loadLocalAddress ratio, .call members.getActive, .callVirtual members.getWidth, .call members.getActive,
      .callVirtual members.getHeight, .call members.mathMin, { opcode := .convR4 }, .loadFloat32 size,
      { opcode := .div }, { opcode := .dup }, .loadFloat32 ⟨0x3F800000⟩, .call members.vectorCtor] :=
  validated_eq h

theorem scaleBlock_eq {target ratio : Local} {block : List Instruction}
    (h : members.scaleBlock target ratio = .ok block) :
    block = [.loadLocal target, .loadLocal ratio, .call members.vectorScale, .storeLocal target] :=
  validated_eq h

theorem ratioBlock_length {ratio : Local} {size : Binary.Single} {block : List Instruction}
    (h : members.ratioBlock ratio size = .ok block) : block.length = 12 := by
  rw [ratioBlock_eq h]
  rfl

theorem scaleBlock_length {target ratio : Local} {block : List Instruction}
    (h : members.scaleBlock target ratio = .ok block) : block.length = 4 := by
  rw [scaleBlock_eq h]
  rfl

/-- control goes through a block one instruction after the other, whatever the tokens stand for -/
theorem ratioBlock_straight {ratio : Local} {size : Binary.Single} {block : List Instruction}
    (h : members.ratioBlock ratio size = .ok block) : ∀ i ∈ block, Stack.Straight i := by
  have haddress : Stack.Straight (.loadLocalAddress ratio) := by
    unfold Instruction.loadLocalAddress
    split_ifs <;> exact ⟨.inl rfl, rfl⟩
  have hcall : ∀ token, Stack.Straight (.call token) := fun _ => ⟨.inr rfl, rfl⟩
  have hvirtual : ∀ token, Stack.Straight (.callVirtual token) := fun _ => ⟨.inr rfl, rfl⟩
  have hload : ∀ x, Stack.Straight (.loadFloat32 x) := fun _ => ⟨.inl rfl, rfl⟩
  rw [ratioBlock_eq h]
  simp only [List.mem_cons, List.not_mem_nil, or_false, forall_eq_or_imp, forall_eq]
  exact ⟨haddress, hcall _, hvirtual _, hcall _, hvirtual _, hcall _, ⟨.inl rfl, rfl⟩, hload _, ⟨.inl rfl, rfl⟩,
    ⟨.inl rfl, rfl⟩, hload _, hcall _⟩

theorem scaleBlock_straight {target ratio : Local} {block : List Instruction}
    (h : members.scaleBlock target ratio = .ok block) : ∀ i ∈ block, Stack.Straight i := by
  have hload : ∀ slot, Stack.Straight (.loadLocal slot) := fun slot => by
    unfold Instruction.loadLocal
    split_ifs <;> exact ⟨.inl rfl, rfl⟩
  have hstore : Stack.Straight (.storeLocal target) := by
    unfold Instruction.storeLocal
    split_ifs <;> exact ⟨.inl rfl, rfl⟩
  rw [scaleBlock_eq h]
  simp only [List.mem_cons, List.not_mem_nil, or_false, forall_eq_or_imp, forall_eq]
  exact ⟨hload _, hload _, ⟨.inr rfl, rfl⟩, hstore⟩

variable {c : Config} (h : members.Linked c resolve)
include h

/-- **A scale block is always made, and it is neutral.** -/
theorem scaleBlock_insertable {target ratio : Local} (ht : target ∈ slots) (hr : ratio ∈ slots) :
    ∃ block, members.scaleBlock target ratio = .ok block ∧ Insertable resolve slots block [1, 2, 1, 0] := by
  have hload : Usable resolve slots (.loadLocal target) ⟨0, 1⟩ := usable_loadLocal ht
  have hratio : Usable resolve slots (.loadLocal ratio) ⟨0, 1⟩ := usable_loadLocal hr
  have hcall : Usable resolve slots (.call members.vectorScale) ⟨2, 1⟩ :=
    usable_call (.inl rfl) (h.isMethod .vectorScale) (h.resolve .vectorScale) rfl rfl
  have hstore : Usable resolve slots (.storeLocal target) ⟨1, 0⟩ := usable_storeLocal ht
  have htrace : Stack.Trace ⟨resolve, false⟩ 0
      [.loadLocal target, .loadLocal ratio, .call members.vectorScale, .storeLocal target] [1, 2, 1, 0] :=
    .cons hload.effect (by decide) (.cons hratio.effect (by decide)
      (.cons hcall.effect (by decide) (.cons hstore.effect (by decide) .nil)))
  have husable : ∀ i ∈ [Instruction.loadLocal target, .loadLocal ratio, .call members.vectorScale,
      .storeLocal target], ∃ e, Usable resolve slots i e := by
    simp only [List.mem_cons, List.not_mem_nil, or_false, forall_eq_or_imp, forall_eq]
    exact ⟨⟨_, hload⟩, ⟨_, hratio⟩, ⟨_, hcall⟩, ⟨_, hstore⟩⟩
  have hins : Insertable resolve slots _ [1, 2, 1, 0] :=
    ⟨⟨fun i hi => (husable i hi).elim fun _ he => he.straight, htrace, rfl⟩, husable⟩
  exact ⟨_, hins.validated, hins⟩

/-- **The ratio block is always made, and it is neutral.** -/
theorem ratioBlock_insertable {ratio : Local} (hr : ratio ∈ slots) (size : Binary.Single) :
    ∃ block, members.ratioBlock ratio size = .ok block ∧
      Insertable resolve slots block [1, 2, 2, 3, 3, 2, 2, 3, 2, 3, 4, 0] := by
  have haddress : Usable resolve slots (.loadLocalAddress ratio) ⟨0, 1⟩ := usable_loadLocalAddress hr
  have hactive : Usable resolve slots (.call members.getActive) ⟨0, 1⟩ :=
    usable_call (.inl rfl) (h.isMethod .getActive) (h.resolve .getActive) rfl rfl
  have hwidth : Usable resolve slots (.callVirtual members.getWidth) ⟨1, 1⟩ :=
    usable_call (.inr rfl) (h.isMethod .getWidth) (h.resolve .getWidth) rfl rfl
  have hheight : Usable resolve slots (.callVirtual members.getHeight) ⟨1, 1⟩ :=
    usable_call (.inr rfl) (h.isMethod .getHeight) (h.resolve .getHeight) rfl rfl
  have hmin : Usable resolve slots (.call members.mathMin) ⟨2, 1⟩ :=
    usable_call (.inl rfl) (h.isMethod .mathMin) (h.resolve .mathMin) rfl rfl
  have hctor : Usable resolve slots (.call members.vectorCtor) ⟨4, 0⟩ :=
    usable_call (.inl rfl) (h.isMethod .vectorCtor) (h.resolve .vectorCtor) rfl rfl
  have hconv : Usable resolve slots { opcode := .convR4 } ⟨1, 1⟩ := usable_of_fixed rfl nofun rfl rfl rfl rfl
  have hsize : Usable resolve slots (.loadFloat32 size) ⟨0, 1⟩ := usable_of_fixed rfl nofun rfl rfl rfl rfl
  have hdiv : Usable resolve slots { opcode := .div } ⟨2, 1⟩ := usable_of_fixed rfl nofun rfl rfl rfl rfl
  have hdup : Usable resolve slots { opcode := .dup } ⟨1, 2⟩ := usable_of_fixed rfl nofun rfl rfl rfl rfl
  have hone : Usable resolve slots (.loadFloat32 ⟨0x3F800000⟩) ⟨0, 1⟩ := usable_of_fixed rfl nofun rfl rfl rfl rfl
  have htrace : Stack.Trace ⟨resolve, false⟩ 0
      [.loadLocalAddress ratio, .call members.getActive, .callVirtual members.getWidth, .call members.getActive,
        .callVirtual members.getHeight, .call members.mathMin, { opcode := .convR4 }, .loadFloat32 size,
        { opcode := .div }, { opcode := .dup }, .loadFloat32 ⟨0x3F800000⟩, .call members.vectorCtor]
      [1, 2, 2, 3, 3, 2, 2, 3, 2, 3, 4, 0] :=
    .cons haddress.effect (by decide) <| .cons hactive.effect (by decide) <| .cons hwidth.effect (by decide) <|
    .cons hactive.effect (by decide) <| .cons hheight.effect (by decide) <| .cons hmin.effect (by decide) <|
    .cons hconv.effect (by decide) <| .cons hsize.effect (by decide) <| .cons hdiv.effect (by decide) <|
    .cons hdup.effect (by decide) <| .cons hone.effect (by decide) <| .cons hctor.effect (by decide) .nil
  have husable : ∀ i ∈ [Instruction.loadLocalAddress ratio, .call members.getActive, .callVirtual members.getWidth,
      .call members.getActive, .callVirtual members.getHeight, .call members.mathMin, { opcode := .convR4 },
      .loadFloat32 size, { opcode := .div }, { opcode := .dup }, .loadFloat32 ⟨0x3F800000⟩, .call members.vectorCtor],
      ∃ e, Usable resolve slots i e := by
    simp only [List.mem_cons, List.not_mem_nil, or_false, forall_eq_or_imp, forall_eq]
    exact ⟨⟨_, haddress⟩, ⟨_, hactive⟩, ⟨_, hwidth⟩, ⟨_, hactive⟩, ⟨_, hheight⟩, ⟨_, hmin⟩, ⟨_, hconv⟩, ⟨_, hsize⟩,
      ⟨_, hdiv⟩, ⟨_, hdup⟩, ⟨_, hone⟩, ⟨_, hctor⟩⟩
  have hins : Insertable resolve slots _ [1, 2, 2, 3, 3, 2, 2, 3, 2, 3, 4, 0] :=
    ⟨⟨fun i hi => (husable i hi).elim fun _ he => he.straight, htrace, rfl⟩, husable⟩
  exact ⟨_, hins.validated, hins⟩

end Graft

end CilGraft

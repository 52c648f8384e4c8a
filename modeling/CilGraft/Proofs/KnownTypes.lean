/-
What types a module knows after the import of a method.

- `Knows`: a name is that of a type that is defined or referred to. `resolvesType_iff`: a type is known if it is
  primitive or its name is.
- `importType_knows`, `importTypes_knows`, `importMethod_knows`: what names are known after an import, exactly.
- `importMethod_known_iff`: so an import makes known all types that the method mentions, unless the method is one of the
  module's own; then it adds nothing. Locals can be allocated of the types that are known and of no others.
- `screenModule`: a module with a method that mentions a type of which the module has never heard.
-/
import CilGraft.Proofs.MemberResolution
import CilGraft.Proofs.PassSteps

namespace CilGraft

namespace Member

/-- the names of the types that a method mentions: the declaring one, and those of its signature -/
def typeNames (member : Member) : List TypeName := member.declaring :: member.signature.typeNames

/-- the type is one that the method mentions -/
def Mentions (member : Member) (type : TypeSig) : Prop := ∃ name ∈ member.typeNames, type.typeName? = some name

end Member

namespace Module

variable {m : Module} {name known : TypeName} {names : List TypeName} {member : Member} {type : TypeSig}

/-! ## Names that are known -/

/-- the name of a type that the module defines or refers to -/
def Knows (m : Module) (name : TypeName) : Prop := (∃ type ∈ m.types, type.name = name) ∨ name ∈ m.typeRefs

theorem resolvesType_iff : m.resolvesType type = true ↔ ∀ name, type.typeName? = some name → m.Knows name := by
  cases htype : type.typeName? with
  | none => simp [resolvesType, htype]
  | some name =>
    simp only [resolvesType, htype, Knows, Bool.or_eq_true, Array.any_eq_true', beq_iff_eq, exists_eq_right,
      Option.some.injEq, forall_eq']

theorem intern_mem_iff {α : Type} [BEq α] [LawfulBEq α] {table : Array α} {entry x : α} :
    x ∈ (intern table entry).1 ↔ x ∈ table ∨ x = entry := by
  unfold intern
  split
  · rename_i index hfound
    obtain ⟨hlt, heq, -⟩ := Array.findIdx?_eq_some_iff_getElem.1 hfound
    have hmem : entry ∈ table := eq_of_beq heq ▸ Array.getElem_mem hlt
    exact ⟨Or.inl, fun h => h.elim id fun heq => heq ▸ hmem⟩
  · exact Array.mem_push

/-- **An import makes its name known** and no other. -/
theorem importType_knows : (m.importType name).1.Knows known ↔ m.Knows known ∨ known = name := by
  unfold importType
  split
  · rename_i index hfound
    obtain ⟨hlt, heq, -⟩ := Array.findIdx?_eq_some_iff_getElem.1 hfound
    have hdefined : m.Knows name := Or.inl ⟨m.types[index], Array.getElem_mem hlt, eq_of_beq heq⟩
    exact ⟨Or.inl, fun h => h.elim id fun heq => heq ▸ hdefined⟩
  · simp only [Knows, intern_mem_iff, or_assoc]

theorem importTypes_knows : (names.foldl (fun m name => (m.importType name).1) m).Knows known ↔
    m.Knows known ∨ known ∈ names := by
  induction names generalizing m with
  | nil => simp
  | cons name names ih =>
    rw [List.foldl_cons, ih, importType_knows, List.mem_cons, or_assoc]

/-- the method is one of the module's own -/
def Defines (m : Module) (member : Member) : Prop := ∃ row ∈ m.methods, m.member? row = some member

/-- the import of an own method does nothing -/
theorem importMethod_own (h : m.Defines member) : (m.importMethod member).1 = m := by
  obtain ⟨row, hrow, hmember⟩ := h
  cases hfound : m.methods.findIdx? (m.member? · == some member) with
  | some index => simp only [importMethod, hfound]
  | none =>
    have hne := Array.findIdx?_eq_none_iff.1 hfound row hrow
    rw [hmember, beq_self_eq_true] at hne
    cases hne

/-- the import of any other method imports all that it mentions -/
theorem importMethod_foreign_knows (h : ¬ m.Defines member) :
    (m.importMethod member).1.Knows known ↔ m.Knows known ∨ known ∈ member.typeNames := by
  have hnone : m.methods.findIdx? (m.member? · == some member) = none :=
    Array.findIdx?_eq_none_iff.2 fun row hrow => beq_false_of_ne fun heq => h ⟨row, hrow, heq⟩
  have htypes := @importTypes_knows m known member.typeNames
  simp only [importMethod, hnone]
  exact htypes

/-- **What is known after the import of a method.** -/
theorem importMethod_knows : (m.importMethod member).1.Knows known ↔
    m.Knows known ∨ ¬ m.Defines member ∧ known ∈ member.typeNames := by
  by_cases h : m.Defines member
  · rw [importMethod_own h]
    simp [h]
  · rw [importMethod_foreign_knows h]
    simp [h]

/-! ## Types that are known -/

theorem importMethod_resolvesType_iff : (m.importMethod member).1.resolvesType type = true ↔
    m.resolvesType type = true ∨ ¬ m.Defines member ∧ member.Mentions type := by
  cases htype : type.typeName? with
  | none => simp [resolvesType, htype]
  | some name =>
    have hknown : ∀ m : Module, m.resolvesType type = true ↔ m.Knows name := by
      intro m
      simp [resolvesType_iff, htype]
    have hmentions : member.Mentions type ↔ name ∈ member.typeNames := by simp [Member.Mentions, htype]
    rw [hknown, hknown, hmentions]
    exact importMethod_knows

/-- a type of the signature is mentioned, if it has a name at all -/
theorem mentions_of_signature (h : type ∈ member.signature.result :: member.signature.params) :
    member.Mentions type ∨ m.resolvesType type = true := by
  cases htype : type.typeName? with
  | none => exact Or.inr (by simp [resolvesType, htype])
  | some name =>
    refine Or.inl ⟨name, List.mem_cons_of_mem _ ?_, htype⟩
    exact List.mem_filterMap.2 ⟨type, h, htype⟩

/-- **What the import of a method makes known.** For every module and method: the types that are known afterwards are
those that were known before and, unless the method is one of the module's own, those that it mentions. What declares
the method is known in any case, but all types of its signature are known afterwards if and only if, for an own method,
they have been known before. A local of a type can be allocated in a body if and only if the type is known and the body
has room for it. -/
theorem importMethod_known_iff (m : Module) (member : Member) :
    let imported := (m.importMethod member).1
    (∀ type, imported.resolvesType type = true ↔
      m.resolvesType type = true ∨ ¬ m.Defines member ∧ member.Mentions type) ∧
    (∀ type, type.typeName? = some member.declaring → imported.resolvesType type = true) ∧
    ((∀ type ∈ member.signature.result :: member.signature.params, imported.resolvesType type = true) ↔
      (m.Defines member →
        ∀ type ∈ member.signature.result :: member.signature.params, m.resolvesType type = true)) ∧
    ∀ (b : Body) (type : TypeSig), (∃ b' slot, imported.allocateLocal b type = .ok (b', slot)) ↔
      imported.resolvesType type = true ∧ b.locals.size < 65536 := by
  intro imported
  have hresolves : ∀ type, imported.resolvesType type = true ↔
      m.resolvesType type = true ∨ ¬ m.Defines member ∧ member.Mentions type :=
    fun type => importMethod_resolvesType_iff
  refine ⟨hresolves, fun type => Config.importMethod_resolvesType m member, ?_, fun b type => ?_⟩
  · constructor
    · intro hall howned type htype
      rcases (hresolves type).1 (hall type htype) with hknown | ⟨hforeign, -⟩
      · exact hknown
      · exact absurd howned hforeign
    · intro hall type htype
      rw [hresolves]
      by_cases howned : m.Defines member
      · exact Or.inl (hall howned type htype)
      · rcases @mentions_of_signature m member type htype with hmentions | hprimitive
        · exact Or.inr ⟨howned, hmentions⟩
        · exact Or.inl hprimitive
  · constructor
    · rintro ⟨b', slot, hallocate⟩
      obtain ⟨hknown, hroom, -⟩ := Graft.allocateLocal_eq_ok.1 hallocate
      exact ⟨hknown, hroom⟩
    · rintro ⟨hknown, hroom⟩
      exact ⟨_, _, Graft.allocateLocal_eq_ok.2 ⟨hknown, hroom, rfl⟩⟩

/-! ## A method of its own -/

/-- a type of which nothing is said but its name -/
def window : TypeSig := .reference ⟨"Game", "Window"⟩

/-- a method of a type that mentions it -/
def windowMember (name : String) : Member := ⟨⟨"Game", "Screen"⟩, name, .instanceOf .void [window]⟩

/-- a module that defines one such method -/
def screenModule : Module :=
  (addType { name := "Assembly-CSharp" } ⟨⟨"Game", "Screen"⟩, .reference⟩
    [{ name := "Show", flags := 0x0006, signature := .instanceOf .void [window] }]).1

theorem screenModule_window : screenModule.resolvesType window = false := by cbv

/-- the import of another method of that type makes the type of its parameter known -/
theorem importMethod_known_iff_close :
    let imported := (screenModule.importMethod (windowMember "Close")).1
    ¬ screenModule.Defines (windowMember "Close") ∧ screenModule.resolvesType window = false ∧
      imported.resolvesType window = true ∧ imported.resolvesType (.reference ⟨"Game", "Screen"⟩) = true ∧
      ∃ b slot, imported.allocateLocal (.empty 1) window = .ok (b, slot) := by
  intro imported
  have hforeign : ¬ screenModule.Defines (windowMember "Close") := by
    rintro ⟨row, hrow, hmember⟩
    obtain rfl := Array.mem_singleton.1 hrow
    exact absurd (congrArg (Option.map Member.name) hmember) (by decide)
  obtain ⟨-, hdeclaring, hall, hallocate⟩ := importMethod_known_iff screenModule (windowMember "Close")
  have hknown : imported.resolvesType window = true :=
    hall.2 (fun howned => absurd howned hforeign) window (by decide)
  exact ⟨hforeign, screenModule_window, hknown, hdeclaring _ rfl, (hallocate (.empty 1) window).2 ⟨hknown, by decide⟩⟩

/-- **The import of an own method does not make known what it mentions.** It succeeds and leaves the module as it is, so
no local can be allocated of the type of the parameter. -/
theorem importMethod_own_unknown :
    screenModule.Built ∧ screenModule.Defines (windowMember "Show") ∧ (windowMember "Show").Mentions window ∧
      screenModule.importMethod (windowMember "Show") = (screenModule, .ofIndex .methodDef 0) ∧
      (screenModule.importMethod (windowMember "Show")).1.resolvesType window = false ∧
      (screenModule.importMethod (windowMember "Show")).1.allocateLocal (.empty 1) window =
        .error (.unresolvedType "class Game.Window (in module 'Assembly-CSharp')") := by
  have hbuilt : screenModule.Built := (Built.empty "Assembly-CSharp").addType _ _ (by simp)
  have hdefines : screenModule.Defines (windowMember "Show") :=
    ⟨_, Array.mem_singleton_self _, rfl⟩
  have himport : screenModule.importMethod (windowMember "Show") = (screenModule, .ofIndex .methodDef 0) := by cbv
  rw [himport]
  exact ⟨hbuilt, hdefines, ⟨_, by decide, rfl⟩, rfl, screenModule_window, by cbv⟩

end Module

end CilGraft

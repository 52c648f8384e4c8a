/-
Histories of a module: whatever is done to it, its tables only grow.

- `Change.apply`, `Module.after`: what can be done to a module, and a sequence of it.
- `importMembers_keeps`, `run_keeps`: a resolution of members and a run of a graft do nothing but import and replace a
  body, so they keep what these keep.
- `apply_grows`, `after_grows`: no change takes anything out of a table, and so no history does.
- `Module.Settled`: types and declarations of methods are even the same. `apply_settled`, `after_settled`: so it is
  unless a type is added.
-/
import CilGraft.Proofs.PassSteps

namespace CilGraft

/-! ## Changes -/

/-- what can be done to a module -/
inductive Change where
  | addType (type : TypeDef) (methods : List Method)
  | importType (name : TypeName)
  | importMethod (member : Member)
  | addMarker (tag : String)
  /-- the edit of a body sees the module, in which the method is without a body meanwhile -/
  | editBody (method : Token) (edit : Module → Body → Body)
  | resolveMembers (config : Config) (dependency : Module)
  | graft (g : Graft) (dependency : Module)

namespace Change

/-- what a change leaves of a module, also where it fails -/
def apply (m : Module) : Change → Module
  | addType type methods => (m.addType type methods).1
  | importType name => (m.importType name).1
  | importMethod member => (m.importMethod member).1
  | addMarker tag => (m.addMarker tag).1
  | editBody method edit =>
    match m.body? method with
    | some b => m.setBody method (some (edit (m.setBody method none) b))
    | none => m
  | resolveMembers config dependency =>
    match config.resolveMembers m dependency with
    | .ok (m, _) => m
    | .error _ => m
  | graft g dependency => (g.run m dependency).module

def addsType : Change → Bool
  | addType .. => true
  | _ => false

end Change

/-- a module after some changes -/
def Module.after (m : Module) (changes : List Change) : Module := changes.foldl Change.apply m

/-! ## Compound changes -/

section

variable {P : Module → Prop}

/-- members are resolved by importing, or not at all -/
theorem Config.importMembers_keeps (htype : ∀ m name, P m → P (m.importType name).1)
    (hmethod : ∀ m member, P m → P (m.importMethod member).1) (c : Config) (vector : TypeSig) {m : Module} (h : P m) :
    P (c.importMembers vector m).1 := by
  have hmembers : ∀ (members : List Member) (m : Module), P m →
      P (members.foldl (fun m member => (m.importMethod member).1) m) := by
    intro members
    induction members with
    | nil => exact fun _ h => h
    | cons member members ih => exact fun m h => ih _ (hmethod m member h)
  rw [importMembers_eq]
  apply hmembers
  unfold importVector
  split
  · exact htype m _ h
  · exact h

/-- a run imports members and replaces the body of a method, or does less -/
theorem Graft.run_keeps (htype : ∀ m name, P m → P (m.importType name).1)
    (hmethod : ∀ m member, P m → P (m.importMethod member).1) (hbody : ∀ m token b, P m → P (m.setBody token b))
    (g : Graft) (dependency : Module) {m : Module} (h : P m) : P (g.run m dependency).module := by
  rcases @run_module g m dependency with hrun | ⟨imported, members, index, row, hresolved, hrun⟩
  · rw [hrun]
    exact h
  · have himported : P imported := by
      obtain ⟨vector, -, hout⟩ := Config.resolveMembers_eq_ok.1 hresolved.members
      cases hout
      exact Config.importMembers_keeps htype hmethod _ _ h
    rcases hrun with hrun | ⟨b, hrun⟩
    · rw [hrun]
      exact himported
    · rw [hrun]
      exact hbody _ _ _ himported

/-- **What the elementary changes keep, every change keeps** that adds no type. -/
theorem Change.apply_keeps {change : Change} (hadds : change.addsType = false)
    (htype : ∀ m name, P m → P (m.importType name).1) (hmethod : ∀ m member, P m → P (m.importMethod member).1)
    (hmarker : ∀ m tag, P m → P (m.addMarker tag).1) (hbody : ∀ m token b, P m → P (m.setBody token b))
    {m : Module} (h : P m) : P (change.apply m) := by
  cases change with
  | addType type methods => cases hadds
  | importType name => exact htype m name h
  | importMethod member => exact hmethod m member h
  | addMarker tag => exact hmarker m tag h
  | editBody method edit =>
    unfold Change.apply
    dsimp only
    split
    · exact hbody m _ _ h
    · exact h
  | resolveMembers config dependency =>
    unfold Change.apply
    dsimp only
    split
    · rename_i out hok
      obtain ⟨vector, -, hout⟩ := Config.resolveMembers_eq_ok.1 hok
      cases hout
      exact Config.importMembers_keeps htype hmethod _ _ h
    · exact h
  | graft g dependency => exact g.run_keeps htype hmethod hbody dependency h

end

namespace Module

/-! ## Definitions that stay -/

/-- `m'` defines what `m` defines and no more; only references, markers and bodies are added -/
structure Settled (m m' : Module) : Prop extends Grows m m' where
  same_types : m'.types = m.types
  same_declarations : m'.declarations = m.declarations

theorem Settled.refl (m : Module) : Settled m m := ⟨Grows.refl m, rfl, rfl⟩

theorem Settled.trans {m m' m'' : Module} (h : Settled m m') (h' : Settled m' m'') : Settled m m'' :=
  ⟨h.toGrows.trans h'.toGrows, h'.same_types.trans h.same_types, h'.same_declarations.trans h.same_declarations⟩

theorem Extends.settled {m m' : Module} (h : Extends m m') : Settled m m' := ⟨h.grows, h.types, h.declarations⟩

theorem setBody_declarations (m : Module) (token : Token) (b : Option Body) :
    (m.setBody token b).declarations = m.declarations := by
  refine List.ext_getElem? fun i => ?_
  simp only [declarations, List.getElem?_map, Array.getElem?_toList, setBody_getElem?]
  split_ifs
  · rw [Option.map_map]
    rfl
  · rfl

theorem setBody_settled (m : Module) (token : Token) (b : Option Body) : Settled m (m.setBody token b) := by
  have hdeclarations := setBody_declarations m token b
  rw [setBody_eq] at hdeclarations ⊢
  exact ⟨⟨rfl, List.prefix_refl _, hdeclarations ▸ List.prefix_refl _, List.prefix_refl _, List.prefix_refl _,
    fun _ h => h⟩, rfl, hdeclarations⟩

theorem mem_insertTag {tag new : String} {tags : List String} : tag ∈ insertTag new tags ↔ tag = new ∨ tag ∈ tags := by
  induction tags with
  | nil => simp [insertTag]
  | cons head tail ih =>
    simp only [insertTag]
    split_ifs with hlt heq
    · rw [List.mem_cons]
    · simp [heq]
    · rw [List.mem_cons, ih, List.mem_cons]
      exact or_left_comm

theorem hasMarker_addMarker {m : Module} {tag new : String} :
    (m.addMarker new).1.hasMarker tag = true ↔ tag = new ∨ m.hasMarker tag = true := by
  simp only [hasMarker, addMarker, List.contains_iff_mem]
  exact mem_insertTag

theorem addMarker_settled (m : Module) (tag : String) : Settled m (m.addMarker tag).1 :=
  ⟨⟨rfl, List.prefix_refl _, List.prefix_refl _, List.prefix_refl _, List.prefix_refl _,
    fun _ h => hasMarker_addMarker.2 (Or.inr h)⟩, rfl, rfl⟩

theorem addType_grows (m : Module) (type : TypeDef) (methods : List Method) : Grows m (m.addType type methods).1 := by
  refine ⟨rfl, ?_, ?_, List.prefix_refl _, List.prefix_refl _, fun _ h => h⟩
  · rw [addType, Array.toList_push]
    exact List.prefix_append _ _
  · rw [addType, declarations, declarations, Array.toList_append, List.map_append]
    exact List.prefix_append _ _

/-! ## Histories -/

/-- what every change of a history keeps, the history keeps -/
theorem after_keeps {P : Module → Prop} {changes : List Change}
    (hstep : ∀ m, ∀ change ∈ changes, P m → P (change.apply m)) {m : Module} (h : P m) : P (m.after changes) := by
  induction changes generalizing m with
  | nil => exact h
  | cons change changes ih =>
    exact ih (fun m change hmem => hstep m change (List.mem_cons_of_mem _ hmem)) (hstep m change List.mem_cons_self h)

/-- a change that adds no type adds references, markers and bodies at most -/
theorem apply_settled (m : Module) {change : Change} (hadds : change.addsType = false) :
    Settled m (change.apply m) :=
  Change.apply_keeps hadds (fun m' name hm => hm.trans (importType_extends m' name).settled)
    (fun m' member hm => hm.trans (importMethod_extends m' member).settled)
    (fun m' tag hm => hm.trans (addMarker_settled m' tag)) (fun m' token b hm => hm.trans (setBody_settled m' token b))
    (Settled.refl m)

/-- **No change takes anything out of a table.** -/
theorem apply_grows (m : Module) (change : Change) : Grows m (change.apply m) := by
  cases hadds : change.addsType with
  | false => exact (apply_settled m hadds).toGrows
  | true =>
    cases change with
    | addType type methods => exact addType_grows m type methods
    | _ => cases hadds

theorem after_settled (m : Module) {changes : List Change} (h : ∀ change ∈ changes, change.addsType = false) :
    Settled m (m.after changes) :=
  after_keeps (fun m' change hmem hm => hm.trans (apply_settled m' (h change hmem))) (Settled.refl m)

theorem after_grows (m : Module) (changes : List Change) : Grows m (m.after changes) :=
  after_keeps (fun m' change _ hm => hm.trans (apply_grows m' change)) (Grows.refl m)

end Module

end CilGraft

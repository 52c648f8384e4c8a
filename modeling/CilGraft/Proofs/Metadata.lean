/-
Metadata tables and the tokens of their rows.

- `Token.ofIndex_table?`, `Token.ofIndex_row`, `Token.ofIndex_index?`: a token tells its table and, as long as row
  numbers fit in 24 bits, its row.
- `Module.Built`: the modules that can be built. `Built.bodies`: every body in them can be built.
- `Module.Grows`: types, declarations of methods and references stay in their places. What a token stood for it goes on
  standing for (`Grows.resolve`), and a known type stays known (`Grows.resolvesType`).
- `Module.Extends`: definitions, bodies, name and markers are the same, only references are added, as by an import.
- `importMethod_resolve`: the token of an imported method resolves to that method.
- `setBody_*`: giving a method another body changes nothing else.
-/
import CilGraft.Proofs.BodyInvariant
import CilGraft.Graft.Members

namespace CilGraft

/-! ## Tokens -/

namespace Token

variable {table : Table} {n : Nat}

theorem ofIndex_toNat : (ofIndex table n).value.toNat = 2 ^ 24 * table.number.toNat + (n + 1) % 2 ^ 24 := by
  have hrow : (UInt32.ofNat (n + 1) &&& 0xFFFFFF).toNat = (n + 1) % 2 ^ 24 := by
    rw [UInt32.toNat_and, UInt32.toNat_ofNat']
    change ((n + 1) % 2 ^ 32) &&& (2 ^ 24 - 1) = _
    rw [Nat.and_two_pow_sub_one_eq_mod]
    omega
  have htable : (table.number.toUInt32 <<< (24 : UInt32)).toNat = 2 ^ 24 * table.number.toNat := by
    cases table <;> rfl
  change (table.number.toUInt32 <<< (24 : UInt32) ||| (UInt32.ofNat (n + 1) &&& 0xFFFFFF)).toNat = _
  rw [UInt32.toNat_or, htable, hrow, Nat.two_pow_add_eq_or_of_lt (Nat.mod_lt _ (by norm_num))]

@[simp] theorem ofIndex_table? : (ofIndex table n).table? = some table := by
  have hnumber : (ofIndex table n).tableNumber = table.number := by
    have hlt : table.number.toNat < 256 := table.number.toNat_lt
    apply UInt8.toNat_inj.1
    change ((ofIndex table n).value >>> (24 : UInt32)).toUInt8.toNat = _
    rw [UInt32.toNat_toUInt8, UInt32.toNat_shiftRight, ofIndex_toNat]
    change (_ >>> 24) % 2 ^ 8 = _
    rw [Nat.shiftRight_eq_div_pow]
    omega
  rw [table?, hnumber]
  cases table <;> rfl

theorem ofIndex_row (h : n + 1 < 2 ^ 24) : (ofIndex table n).row = n + 1 := by
  change ((ofIndex table n).value &&& 0xFFFFFF).toNat = n + 1
  rw [UInt32.toNat_and, ofIndex_toNat]
  change _ &&& (2 ^ 24 - 1) = _
  rw [Nat.and_two_pow_sub_one_eq_mod]
  omega

theorem ofIndex_index? (h : n + 1 < 2 ^ 24) : (ofIndex table n).index? = some n := by
  simp [index?, ofIndex_row h]

end Token

namespace Module

/-- every row number fits in a token -/
structure Addressable (m : Module) : Prop where
  types : m.types.size < 2 ^ 24
  methods : m.methods.size < 2 ^ 24
  typeRefs : m.typeRefs.size < 2 ^ 24
  memberRefs : m.memberRefs.size < 2 ^ 24

theorem methodIndex?_ofIndex {n : Nat} (h : n + 1 < 2 ^ 24) : methodIndex? (.ofIndex .methodDef n) = some n := by
  simp [methodIndex?, Token.ofIndex_index? h]

theorem method?_ofIndex {m : Module} (ha : m.Addressable) {n : Nat} (h : n < m.methods.size) :
    m.method? (.ofIndex .methodDef n) = some m.methods[n] := by
  have hmethods := ha.methods
  rw [method?, methodIndex?_ofIndex (by omega)]
  simp [h]

/-! ## Modules that can be built -/

/-- a method with other contents in its row; what declares it cannot be changed -/
def setMethod (m : Module) (token : Token) (method : Method) : Module :=
  match methodIndex? token with
  | some index => { m with methods := m.methods.modify index fun row => { method with owner := row.owner } }
  | none => m

/-- modules that the operations build, from an empty one on, in any order -/
inductive Built : Module → Prop where
  | empty (name : String) : Built { name }
  | addType {m : Module} (h : Built m) (type : TypeDef) (methods : List Method)
      (hbodies : ∀ method ∈ methods, ∀ b ∈ method.body, b.Reachable) : Built (m.addType type methods).1
  | setMethod {m : Module} (h : Built m) (token : Token) (method : Method) (hbody : ∀ b ∈ method.body, b.Reachable) :
      Built (m.setMethod token method)
  | importType {m : Module} (h : Built m) (name : TypeName) : Built (m.importType name).1
  | importMethod {m : Module} (h : Built m) (member : Member) : Built (m.importMethod member).1
  | addMarker {m : Module} (h : Built m) (tag : String) : Built (m.addMarker tag).1

/-! ## Tables that only grow -/

theorem getElem?_of_prefix {α : Type} {table table' : Array α} (h : table.toList <+: table'.toList) {n : Nat} {x : α}
    (hx : table[n]? = some x) : table'[n]? = some x := by
  rw [← Array.getElem?_toList] at hx ⊢
  obtain ⟨more, hmore⟩ := h
  rw [← hmore, List.getElem?_append_left (List.getElem?_eq_some_iff.1 hx).1]
  exact hx

/-- the rows of the method table without the bodies -/
def declarations (m : Module) : List MethodRow := m.methods.toList.map fun row => { row with body := none }

/-- `m'` has all rows that `m` has, in the same places; bodies may differ -/
structure Grows (m m' : Module) : Prop where
  name : m'.name = m.name
  types : m.types.toList <+: m'.types.toList
  declarations : m.declarations <+: m'.declarations
  typeRefs : m.typeRefs.toList <+: m'.typeRefs.toList
  memberRefs : m.memberRefs.toList <+: m'.memberRefs.toList
  markers : ∀ tag, m.hasMarker tag = true → m'.hasMarker tag = true

theorem Grows.refl (m : Module) : Grows m m :=
  ⟨rfl, List.prefix_refl _, List.prefix_refl _, List.prefix_refl _, List.prefix_refl _, fun _ h => h⟩

theorem Grows.trans {m m' m'' : Module} (h : Grows m m') (h' : Grows m' m'') : Grows m m'' :=
  ⟨h'.name.trans h.name, h.types.trans h'.types, h.declarations.trans h'.declarations, h.typeRefs.trans h'.typeRefs,
    h.memberRefs.trans h'.memberRefs, fun tag hm => h'.markers tag (h.markers tag hm)⟩

namespace Grows

variable {m m' : Module} (h : Grows m m')
include h

/-- a row of the method table is still there, with its body or another one -/
theorem methods {index : Nat} {row : MethodRow} (hrow : m.methods[index]? = some row) :
    ∃ b, m'.methods[index]? = some { row with body := b } := by
  have hold : m.declarations[index]? = some { row with body := none } := by
    rw [Module.declarations, List.getElem?_map, Array.getElem?_toList, hrow, Option.map_some]
  obtain ⟨more, hmore⟩ := h.declarations
  have hnew : m'.declarations[index]? = some { row with body := none } := by
    rw [← hmore, List.getElem?_append_left (List.getElem?_eq_some_iff.1 hold).1]
    exact hold
  rw [Module.declarations, List.getElem?_map, Array.getElem?_toList] at hnew
  obtain ⟨row', hrow', heq⟩ := Option.map_eq_some_iff.1 hnew
  refine ⟨row'.body, hrow'.trans (congrArg some ?_)⟩
  obtain ⟨⟨name, flags, signature, b⟩, owner⟩ := row'
  cases heq
  rfl

theorem typeAt {owner : Nat} {type : TypeDef} (ht : m.types[owner]? = some type) : m'.types[owner]? = some type :=
  getElem?_of_prefix h.types ht

theorem memberRefAt {index : Nat} {member : Member} (hm : m.memberRefs[index]? = some member) :
    m'.memberRefs[index]? = some member :=
  getElem?_of_prefix h.memberRefs hm

theorem member? {row : MethodRow} {member : Member} (hm : m.member? row = some member) (b : Option Body) :
    m'.member? { row with body := b } = some member := by
  obtain ⟨declaring, hdeclaring, rfl⟩ := Option.map_eq_some_iff.1 hm
  obtain ⟨type, htype, rfl⟩ := Option.map_eq_some_iff.1 hdeclaring
  simp only [Module.member?, declaring?, h.typeAt htype, Option.map_some]

/-- **What a token stands for it goes on standing for.** -/
theorem resolve {token : Token} {member : Member} (hr : m.resolve token = some member) :
    m'.resolve token = some member := by
  simp only [Module.resolve] at hr ⊢
  split at hr
  · obtain ⟨row, hrow, hmember⟩ := Option.bind_eq_some_iff.1 hr
    obtain ⟨index, hindex, hrow⟩ := Option.bind_eq_some_iff.1 hrow
    obtain ⟨b, hb⟩ := h.methods hrow
    rw [method?, hindex, Option.bind_some, hb, Option.bind_some]
    exact h.member? hmember b
  · obtain ⟨index, hindex, hmember⟩ := Option.bind_eq_some_iff.1 hr
    rw [hindex, Option.bind_some]
    exact h.memberRefAt hmember
  · cases hr

/-- **A type that is known stays known.** -/
theorem resolvesType {type : TypeSig} (hr : m.resolvesType type = true) : m'.resolvesType type = true := by
  simp only [Module.resolvesType] at hr ⊢
  split
  · rfl
  · rename_i name hname
    rw [hname] at hr
    simp only [Bool.or_eq_true, Array.any_eq_true'] at hr ⊢
    rcases hr with ⟨t, ht, heq⟩ | ⟨t, ht, heq⟩
    · exact Or.inl ⟨t, Array.mem_toList_iff.1 (h.types.subset (Array.mem_toList_iff.2 ht)), heq⟩
    · exact Or.inr ⟨t, Array.mem_toList_iff.1 (h.typeRefs.subset (Array.mem_toList_iff.2 ht)), heq⟩

/-- if the tables are addressable in the end they have been so before -/
theorem addressable (ha : m'.Addressable) : m.Addressable := by
  have htypes := h.types.length_le
  have hmethods := h.declarations.length_le
  have htypeRefs := h.typeRefs.length_le
  have hmemberRefs := h.memberRefs.length_le
  simp only [Module.declarations, List.length_map, Array.length_toList] at htypes hmethods htypeRefs hmemberRefs
  exact ⟨htypes.trans_lt ha.types, hmethods.trans_lt ha.methods, htypeRefs.trans_lt ha.typeRefs,
    hmemberRefs.trans_lt ha.memberRefs⟩

end Grows

/-- `m'` has all that `m` has, and more references at most -/
structure Extends (m m' : Module) : Prop where
  name : m'.name = m.name
  types : m'.types = m.types
  methods : m'.methods = m.methods
  markers : m'.markers = m.markers
  typeRefs : m.typeRefs.toList <+: m'.typeRefs.toList
  memberRefs : m.memberRefs.toList <+: m'.memberRefs.toList

namespace Extends

variable {m m' m'' : Module}

theorem refl (m : Module) : Extends m m := ⟨rfl, rfl, rfl, rfl, List.prefix_refl _, List.prefix_refl _⟩

theorem trans (h : Extends m m') (h' : Extends m' m'') : Extends m m'' :=
  ⟨h'.name.trans h.name, h'.types.trans h.types, h'.methods.trans h.methods, h'.markers.trans h.markers,
    h.typeRefs.trans h'.typeRefs, h.memberRefs.trans h'.memberRefs⟩

theorem declarations (h : Extends m m') : m'.declarations = m.declarations := by
  rw [Module.declarations, h.methods, Module.declarations]

theorem grows (h : Extends m m') : Grows m m' :=
  ⟨h.name, h.types ▸ List.prefix_refl _, h.declarations ▸ List.prefix_refl _, h.typeRefs, h.memberRefs,
    fun tag hm => by rwa [hasMarker, h.markers]⟩

theorem member? (h : Extends m m') (row : MethodRow) : m'.member? row = m.member? row := by
  simp only [Module.member?, declaring?, h.types]

theorem method? (h : Extends m m') (token : Token) : m'.method? token = m.method? token := by
  simp only [Module.method?, h.methods]

theorem body? (h : Extends m m') (token : Token) : m'.body? token = m.body? token := by
  simp only [Module.body?, h.method?]

theorem resolve (h : Extends m m') {token : Token} {member : Member} (hr : m.resolve token = some member) :
    m'.resolve token = some member := h.grows.resolve hr

theorem resolvesType (h : Extends m m') {type : TypeSig} (hr : m.resolvesType type = true) :
    m'.resolvesType type = true := h.grows.resolvesType hr

theorem addressable (h : Extends m m') (ha : m'.Addressable) : m.Addressable := h.grows.addressable ha

end Extends

/-! ## Imports -/

section

variable {α : Type} [BEq α] (table : Array α) (entry : α)

theorem intern_prefix : table.toList <+: (intern table entry).1.toList := by
  simp only [intern]
  split
  · exact List.prefix_refl _
  · rw [Array.toList_push]
    exact List.prefix_append _ _

/-- the place that `intern` gives is that of the entry -/
theorem intern_getElem? [LawfulBEq α] : (intern table entry).1[(intern table entry).2]? = some entry := by
  simp only [intern]
  split
  · rename_i index hfound
    obtain ⟨hlt, heq, -⟩ := Array.findIdx?_eq_some_iff_getElem.1 hfound
    rw [Array.getElem?_eq_getElem hlt]
    exact congrArg some (eq_of_beq heq)
  · exact Array.getElem?_push_size

end

theorem importType_extends (m : Module) (name : TypeName) : Extends m (m.importType name).1 := by
  simp only [importType]
  split
  · exact Extends.refl m
  · exact ⟨rfl, rfl, rfl, rfl, intern_prefix _ _, List.prefix_refl _⟩

/-- an imported type is known -/
theorem importType_resolvesType (m : Module) {name : TypeName} {type : TypeSig} (h : type.typeName? = some name) :
    (m.importType name).1.resolvesType type = true := by
  simp only [importType, resolvesType, h]
  split
  · rename_i index hfound
    obtain ⟨hlt, heq, -⟩ := Array.findIdx?_eq_some_iff_getElem.1 hfound
    rw [Bool.or_eq_true, Array.any_eq_true']
    exact Or.inl ⟨_, Array.getElem_mem hlt, heq⟩
  · rw [Bool.or_eq_true, Array.any_eq_true', Array.any_eq_true']
    exact Or.inr ⟨name, Array.mem_of_getElem? (intern_getElem? m.typeRefs name), beq_self_eq_true name⟩

theorem importTypes_extends (m : Module) (names : List TypeName) :
    Extends m (names.foldl (fun m name => (m.importType name).1) m) := by
  induction names generalizing m with
  | nil => exact Extends.refl m
  | cons name names ih => exact (importType_extends m name).trans (ih _)

theorem importMethod_extends (m : Module) (member : Member) : Extends m (m.importMethod member).1 := by
  simp only [importMethod]
  split
  · exact Extends.refl m
  · exact (importTypes_extends m _).trans
      ⟨rfl, rfl, rfl, rfl, List.prefix_refl _, intern_prefix _ _⟩

/-- **An imported method is what its token stands for**, as long as the tables stay addressable. -/
theorem importMethod_resolve (m : Module) (member : Member) (ha : (m.importMethod member).1.Addressable) :
    (m.importMethod member).1.resolve (m.importMethod member).2 = some member := by
  simp only [importMethod] at ha ⊢
  split at ha
  · rename_i index hfound
    obtain ⟨hlt, heq, -⟩ := Array.findIdx?_eq_some_iff_getElem.1 hfound
    simp only [resolve, Token.ofIndex_table?, method?_ofIndex ha hlt, Option.bind_some]
    exact eq_of_beq heq
  · rename_i hfound
    have hget := intern_getElem?
      ((member.declaring :: member.signature.typeNames).foldl (fun m name => (m.importType name).1) m).memberRefs member
    have hlt := (Array.getElem?_eq_some_iff.1 hget).1
    have hrefs := ha.memberRefs
    simp only [resolve, Token.ofIndex_table?]
    rw [Token.ofIndex_index? (by simp only at hrefs; omega), Option.bind_some]
    exact hget

theorem importMethods_extends (m : Module) (members : List Member) :
    Extends m (members.foldl (fun m member => (m.importMethod member).1) m) := by
  induction members generalizing m with
  | nil => exact Extends.refl m
  | cons member members ih => exact (importMethod_extends m member).trans (ih _)

/-- what an import has linked stays linked whatever is imported afterwards -/
theorem importMethod_linked {m m' : Module} {member : Member} (h : Extends (m.importMethod member).1 m')
    (ha : m'.Addressable) : m'.resolve (m.importMethod member).2 = some member :=
  h.resolve (importMethod_resolve m member (h.addressable ha))

theorem importMethod_isMethod (m : Module) (member : Member) : (m.importMethod member).2.isMethod = true := by
  simp only [importMethod]
  split <;> simp [Token.isMethod]

/-! ## How much tables grow -/

theorem intern_size {α : Type} [BEq α] (table : Array α) (entry : α) :
    (intern table entry).1.size ≤ table.size + 1 := by
  simp only [intern]
  split
  · exact Nat.le_succ _
  · exact (Array.size_push _).le

theorem importType_size (m : Module) (name : TypeName) :
    (m.importType name).1.typeRefs.size ≤ m.typeRefs.size + 1 ∧
      (m.importType name).1.memberRefs.size = m.memberRefs.size := by
  simp only [importType]
  split
  · exact ⟨Nat.le_succ _, rfl⟩
  · exact ⟨intern_size _ _, rfl⟩

theorem importTypes_size (m : Module) (names : List TypeName) :
    (names.foldl (fun m name => (m.importType name).1) m).typeRefs.size ≤ m.typeRefs.size + names.length ∧
      (names.foldl (fun m name => (m.importType name).1) m).memberRefs.size = m.memberRefs.size := by
  induction names generalizing m with
  | nil => exact ⟨le_rfl, rfl⟩
  | cons name names ih =>
    obtain ⟨htypes, hmembers⟩ := importType_size m name
    obtain ⟨htypes', hmembers'⟩ := ih (m.importType name).1
    rw [List.foldl_cons, List.length_cons]
    exact ⟨by omega, hmembers'.trans hmembers⟩

/-- an imported method adds at most one row for itself, and one for each type that it names -/
theorem importMethod_size (m : Module) (member : Member) :
    (m.importMethod member).1.typeRefs.size ≤ m.typeRefs.size + (member.signature.typeNames.length + 1) ∧
      (m.importMethod member).1.memberRefs.size ≤ m.memberRefs.size + 1 := by
  simp only [importMethod]
  split
  · exact ⟨Nat.le_add_right _ _, Nat.le_succ _⟩
  · obtain ⟨htypes, hmembers⟩ := importTypes_size m (member.declaring :: member.signature.typeNames)
    rw [List.length_cons] at htypes
    refine ⟨htypes, (intern_size _ _).trans ?_⟩
    rw [hmembers]

theorem importMethods_size (m : Module) (members : List Member) :
    (members.foldl (fun m member => (m.importMethod member).1) m).typeRefs.size ≤
        m.typeRefs.size + (members.map (·.signature.typeNames.length + 1)).sum ∧
      (members.foldl (fun m member => (m.importMethod member).1) m).memberRefs.size ≤
        m.memberRefs.size + members.length := by
  induction members generalizing m with
  | nil => exact ⟨le_rfl, le_rfl⟩
  | cons member members ih =>
    obtain ⟨htypes, hmembers⟩ := importMethod_size m member
    obtain ⟨htypes', hmembers'⟩ := ih (m.importMethod member).1
    rw [List.foldl_cons, List.map_cons, List.sum_cons, List.length_cons]
    exact ⟨by omega, by omega⟩

/-! ## Bodies -/

/-- a row of a table of which one row was changed: an old row, or the changed one -/
theorem mem_modify {α : Type} {table : Array α} {index : Nat} {f : α → α} {x : α} (h : x ∈ table.modify index f) :
    x ∈ table ∨ ∃ y ∈ table, x = f y := by
  obtain ⟨j, hj, rfl⟩ := Array.getElem_of_mem h
  have hlt : j < table.size := by simpa using hj
  rw [Array.getElem_modify]
  split_ifs
  · exact Or.inr ⟨_, Array.getElem_mem hlt, rfl⟩
  · exact Or.inl (Array.getElem_mem hlt)

/-- **Every body in a module that can be built can be built.** -/
theorem Built.bodies {m : Module} (h : m.Built) : ∀ row ∈ m.methods, ∀ b ∈ row.body, b.Reachable := by
  induction h with
  | empty name => intro row hrow; cases Array.mem_toList_iff.2 hrow
  | addType _ type methods hbodies ih =>
    intro row hrow
    rcases Array.mem_append.1 hrow with hrow | hrow
    · exact ih row hrow
    · obtain ⟨method, hmethod, rfl⟩ := List.mem_map.1 (List.mem_toArray.1 hrow)
      exact hbodies method hmethod
  | @setMethod m _ token method hbody ih =>
    intro row hrow
    simp only [Module.setMethod] at hrow
    split at hrow
    · dsimp only at hrow
      rcases mem_modify hrow with hrow | ⟨old, -, rfl⟩
      · exact ih row hrow
      · exact hbody
    · exact ih row hrow
  | importType _ name ih => rwa [(importType_extends _ name).methods]
  | importMethod _ member ih => rwa [(importMethod_extends _ member).methods]
  | addMarker _ tag ih => exact ih

theorem Built.body {m : Module} (h : m.Built) {token : Token} {b : Body} (hb : m.body? token = some b) :
    b.Reachable := by
  obtain ⟨row, hrow, hb⟩ := Option.bind_eq_some_iff.1 hb
  obtain ⟨index, -, hrow⟩ := Option.bind_eq_some_iff.1 hrow
  exact h.bodies row (Array.mem_of_getElem? hrow) b hb

section

variable (m : Module) (token : Token) (b : Option Body)

/-- nothing but the method table is touched -/
theorem setBody_eq : m.setBody token b = { m with methods := (m.setBody token b).methods } := by
  simp only [setBody]
  split <;> rfl

theorem setBody_size : (m.setBody token b).methods.size = m.methods.size := by
  simp only [setBody]
  split
  · exact Array.size_modify
  · rfl

/-- the rows after a method got another body: its row has the body, the others are as they were -/
theorem setBody_getElem? (index : Nat) : (m.setBody token b).methods[index]? =
    if methodIndex? token = some index then m.methods[index]?.map fun row => { row with body := b }
    else m.methods[index]? := by
  simp only [setBody]
  cases h : methodIndex? token with
  | none => simp
  | some index' => simp only [Array.getElem?_modify, Option.some.injEq]

theorem setBody_method? :
    (m.setBody token b).method? token = (m.method? token).map fun row => { row with body := b } := by
  simp only [method?]
  cases h : methodIndex? token with
  | none => rfl
  | some index => simp only [Option.bind_some, setBody_getElem?, h, if_true]

theorem setBody_body? (h : (m.method? token).isSome = true) : (m.setBody token b).body? token = b := by
  obtain ⟨row, hrow⟩ := Option.isSome_iff_exists.1 h
  simp only [body?, setBody_method?, hrow, Option.map_some, Option.bind_some]

/-- bodies do not matter for what tokens stand for -/
theorem setBody_resolve : (m.setBody token b).resolve = m.resolve := by
  funext t
  have hmember : ∀ row : MethodRow, (m.setBody token b).member? row = m.member? row := fun row => by
    rw [setBody_eq]
    rfl
  have hrefs : (m.setBody token b).memberRefs = m.memberRefs := by rw [setBody_eq]
  simp only [resolve, hrefs]
  split
  · simp only [method?]
    cases h : methodIndex? t with
    | none => rfl
    | some index =>
      simp only [Option.bind_some, setBody_getElem?]
      split_ifs
      · cases m.methods[index]? with
        | none => rfl
        | some row => exact hmember _
      · exact Option.bind_congr fun row _ => hmember row
  · rfl
  · rfl

theorem setBody_setBody (b' : Option Body) : (m.setBody token b).setBody token b' = m.setBody token b' := by
  simp only [setBody]
  cases methodIndex? token with
  | none => rfl
  | some index =>
    simp only [Module.mk.injEq, true_and, and_true]
    refine Array.ext_getElem? fun j => ?_
    simp only [Array.getElem?_modify]
    split_ifs
    · rw [Option.map_map]
      rfl
    · rfl

theorem setBody_addressable : (m.setBody token b).Addressable ↔ m.Addressable := by
  have hsize := setBody_size m token b
  rw [setBody_eq] at hsize ⊢
  constructor
  · exact fun h => ⟨h.types, hsize ▸ h.methods, h.typeRefs, h.memberRefs⟩
  · exact fun h => ⟨h.types, hsize.symm ▸ h.methods, h.typeRefs, h.memberRefs⟩

end

end Module

end CilGraft

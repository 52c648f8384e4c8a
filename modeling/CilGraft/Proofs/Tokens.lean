/-
Tokens are unambiguous and permanent.

- `importType_again`, `importMethod_again`: an import that is repeated gives the same token and changes nothing, as long
  as no type was added in between.
- `recorded`: a history with the tokens that it gives out for types and methods.
- `Numbered`: these tokens count the rows of their tables, and no reference is there twice. `record_numbered` for one
  change, `recorded_numbered` for a history.
- `Unambiguous`: what this means for the tokens, by `Numbered.unambiguous`.
- `tokens_unambiguous_permanent`: all of it after any history, and what a further history leaves of it.
-/
import CilGraft.Proofs.ModuleHistories

namespace CilGraft.Module

/-! ## Imports that are repeated -/

theorem findIdx?_toList {α : Type} (table : Array α) (test : α → Bool) :
    table.toList.findIdx? test = table.findIdx? test := by
  rw [← List.findIdx?_toArray]

section

variable {α : Type} [BEq α] [LawfulBEq α] {table table' : Array α} {entry : α}

/-- the place that `intern` gives is the first one with the entry -/
theorem intern_findIdx? : (intern table entry).1.findIdx? (· == entry) = some (intern table entry).2 := by
  unfold intern
  split
  · rename_i index hfound
    exact hfound
  · rename_i hnone
    rw [Array.findIdx?_push, hnone]
    simp

/-- an entry is not added twice, however much the table has grown since -/
theorem intern_again (h : (intern table entry).1.toList <+: table'.toList) :
    intern table' entry = (table', (intern table entry).2) := by
  have hfound : (intern table entry).1.toList.findIdx? (· == entry) = some (intern table entry).2 := by
    rw [findIdx?_toList]
    exact intern_findIdx?
  have hagain : table'.findIdx? (· == entry) = some (intern table entry).2 := by
    rw [← findIdx?_toList]
    exact h.findIdx?_eq_some hfound
  rw [intern, hagain]

theorem intern_nodup (h : table.toList.Nodup) : (intern table entry).1.toList.Nodup := by
  unfold intern
  split
  · exact h
  · rename_i hnone
    have hnot : entry ∉ table.toList := by
      intro hmem
      have hne := Array.findIdx?_eq_none_iff.1 hnone entry (Array.mem_toList_iff.1 hmem)
      rw [beq_self_eq_true] at hne
      cases hne
    rw [Array.toList_push]
    exact h.append (List.nodup_singleton _) (by simpa using hnot)

/-- in a table without repetition the place of a row is where the row is -/
theorem intern_getElem (h : table.toList.Nodup) {n : Nat} (hn : table[n]? = some entry) :
    intern table entry = (table, n) := by
  have hfound : table.findIdx? (· == entry) = some n := by
    obtain ⟨hlt, rfl⟩ := Array.getElem?_eq_some_iff.1 hn
    refine Array.findIdx?_eq_some_iff_getElem.2 ⟨hlt, beq_self_eq_true _, fun j hj heq => ?_⟩
    have hne := List.pairwise_iff_getElem.1 h j n (by simpa using hj.trans hlt) (by simpa using hlt) hj
    simp only [Array.getElem_toList] at hne
    exact hne (eq_of_beq heq)
  rw [intern, hfound]

end

variable {m m' : Module}

theorem importType_again {name : TypeName} (h : Settled (m.importType name).1 m') :
    m'.importType name = (m', (m.importType name).2) := by
  have htypes : m'.types = m.types := h.same_types.trans (importType_extends m name).types
  have hrefs := h.typeRefs
  simp only [importType] at hrefs ⊢
  rw [htypes]
  split at hrefs
  · rfl
  · simp only [intern_again hrefs, ← htypes]

/-- types that are known are not imported again -/
theorem importTypes_again {names : List TypeName} (h : ∀ name ∈ names, ∃ m, Settled (importType m name).1 m') :
    names.foldl (fun m name => (m.importType name).1) m' = m' := by
  induction names with
  | nil => rfl
  | cons name names ih =>
    obtain ⟨m, hm⟩ := h name List.mem_cons_self
    rw [List.foldl_cons, importType_again hm]
    exact ih fun name hname => h name (List.mem_cons_of_mem _ hname)

theorem importTypes_settled (m : Module) (names : List TypeName) : ∀ name ∈ names, ∃ m', Settled (importType m' name).1
    (names.foldl (fun m name => (m.importType name).1) m) := by
  induction names generalizing m with
  | nil => exact fun name hname => absurd hname List.not_mem_nil
  | cons head names ih =>
    intro name hname
    rcases List.mem_cons.1 hname with rfl | hname
    · exact ⟨m, (importTypes_extends _ names).settled⟩
    · exact ih _ name hname

/-- whether a method is one of the module's own does not depend on bodies and references -/
theorem Settled.own (h : Settled m m') (member : Member) :
    m'.methods.findIdx? (m'.member? · == some member) = m.methods.findIdx? (m.member? · == some member) := by
  have hmember : ∀ row, m'.member? row = m.member? row := by
    intro row
    simp only [member?, declaring?, h.same_types]
  have hold : m.declarations.findIdx? (m.member? · == some member) =
      m.methods.findIdx? (m.member? · == some member) := by
    rw [declarations, List.findIdx?_map, ← findIdx?_toList]
    rfl
  have hnew : m'.declarations.findIdx? (m.member? · == some member) =
      m'.methods.findIdx? (m.member? · == some member) := by
    rw [declarations, List.findIdx?_map, ← findIdx?_toList]
    rfl
  simp only [hmember]
  rw [← hnew, h.same_declarations, hold]

theorem importMethod_again {member : Member} (h : Settled (m.importMethod member).1 m') :
    m'.importMethod member = (m', (m.importMethod member).2) := by
  have hown := ((importMethod_extends m member).settled.trans h).own member
  simp only [importMethod] at h ⊢
  rw [hown]
  split at h
  · rfl
  · have hnames := importTypes_settled m (member.declaring :: member.signature.typeNames)
    set imported := (member.declaring :: member.signature.typeNames).foldl (fun m name => (m.importType name).1) m
    have hrow : Settled imported { imported with memberRefs := (intern imported.memberRefs member).1 } :=
      Extends.settled ⟨rfl, rfl, rfl, rfl, List.prefix_refl _, intern_prefix _ _⟩
    have hsame := importTypes_again fun name hname =>
      (hnames name hname).imp fun m hm => hm.trans (hrow.trans h)
    simp only [hsame, intern_again h.memberRefs]

/-! ## Tokens of types -/

/-- the type that a token names, as `resolve` has it for methods -/
def typeName? (m : Module) (token : Token) : Option TypeName :=
  match token.table? with
  | some .typeDef => (token.index?.bind (m.types[·]?)).map (·.name)
  | some .typeRef => token.index?.bind (m.typeRefs[·]?)
  | _ => none

theorem Grows.typeName? (h : Grows m m') {token : Token} {name : TypeName} (hn : m.typeName? token = some name) :
    m'.typeName? token = some name := by
  simp only [Module.typeName?] at hn ⊢
  split at hn
  · obtain ⟨type, htype, rfl⟩ := Option.map_eq_some_iff.1 hn
    obtain ⟨index, hindex, htype⟩ := Option.bind_eq_some_iff.1 htype
    rw [hindex, Option.bind_some, h.typeAt htype, Option.map_some]
  · obtain ⟨index, hindex, hname⟩ := Option.bind_eq_some_iff.1 hn
    rw [hindex, Option.bind_some]
    exact getElem?_of_prefix h.typeRefs hname
  · cases hn

theorem typeName?_typeDef (ha : m.Addressable) {n : Nat} {type : TypeDef} (h : m.types[n]? = some type) :
    m.typeName? (.ofIndex .typeDef n) = some type.name := by
  have hlt := (Array.getElem?_eq_some_iff.1 h).1
  have htypes := ha.types
  simp only [typeName?, Token.ofIndex_table?]
  rw [Token.ofIndex_index? (by omega), Option.bind_some, h, Option.map_some]

theorem typeName?_typeRef (ha : m.Addressable) {n : Nat} {name : TypeName} (h : m.typeRefs[n]? = some name) :
    m.typeName? (.ofIndex .typeRef n) = some name := by
  have hlt := (Array.getElem?_eq_some_iff.1 h).1
  have htypeRefs := ha.typeRefs
  simp only [typeName?, Token.ofIndex_table?]
  rw [Token.ofIndex_index? (by omega), Option.bind_some, h]

theorem importType_typeName? (m : Module) (name : TypeName) (ha : (m.importType name).1.Addressable) :
    (m.importType name).1.typeName? (m.importType name).2 = some name := by
  simp only [importType] at ha ⊢
  split at ha
  · rename_i index hfound
    obtain ⟨hlt, heq, -⟩ := Array.findIdx?_eq_some_iff_getElem.1 hfound
    rw [typeName?_typeDef ha (Array.getElem?_eq_getElem hlt), eq_of_beq heq]
  · exact typeName?_typeRef ha (intern_getElem? m.typeRefs name)

/-! ## What a history gives out -/

/-- the tokens given out for types and for their methods, in the order of adding -/
structure Ledger where
  types : List Token := []
  methods : List Token := []

/-- one change, with the tokens that it gives out -/
def record : Module × Ledger → Change → Module × Ledger
  | (m, given), .addType type methods =>
    let (m, token, tokens) := m.addType type methods
    (m, { types := given.types ++ [token], methods := given.methods ++ tokens })
  | (m, given), change => (change.apply m, given)

/-- a history that starts with an empty module -/
def recorded (name : String) (changes : List Change) : Module × Ledger := changes.foldl record ({ name }, {})

/-- the tokens given out count the rows of their tables, methods belong to types, and references are not repeated -/
structure Numbered (m : Module) (given : Ledger) : Prop where
  types : given.types = (List.range m.types.size).map (.ofIndex .typeDef)
  methods : given.methods = (List.range m.declarations.length).map (.ofIndex .methodDef)
  owners : ∀ row ∈ m.declarations, row.owner < m.types.size
  typeRefs : m.typeRefs.toList.Nodup
  memberRefs : m.memberRefs.toList.Nodup

theorem numbered_empty (name : String) : Numbered { name } {} :=
  ⟨rfl, rfl, fun _ hrow => absurd hrow List.not_mem_nil, List.nodup_nil, List.nodup_nil⟩

namespace Numbered

variable {given : Ledger} (h : Numbered m given)
include h

theorem settled (hm : Settled m m') (htypeRefs : m'.typeRefs.toList.Nodup) (hmemberRefs : m'.memberRefs.toList.Nodup) :
    Numbered m' given :=
  ⟨hm.same_types.symm ▸ h.types, hm.same_declarations.symm ▸ h.methods,
    hm.same_types.symm ▸ hm.same_declarations.symm ▸ h.owners, htypeRefs, hmemberRefs⟩

theorem importType (name : TypeName) : Numbered (m.importType name).1 given := by
  refine h.settled (importType_extends m name).settled ?_ ?_
  · simp only [Module.importType]
    split
    · exact h.typeRefs
    · exact intern_nodup h.typeRefs
  · simp only [Module.importType]
    split
    · exact h.memberRefs
    · exact h.memberRefs

theorem importTypes (names : List TypeName) :
    Numbered (names.foldl (fun m name => (m.importType name).1) m) given := by
  induction names generalizing m with
  | nil => exact h
  | cons name names ih => exact ih (h.importType name)

theorem importMethod (member : Member) : Numbered (m.importMethod member).1 given := by
  simp only [Module.importMethod]
  split
  · exact h
  · have htypes := h.importTypes (member.declaring :: member.signature.typeNames)
    exact ⟨htypes.types, htypes.methods, htypes.owners, htypes.typeRefs, intern_nodup htypes.memberRefs⟩

theorem addMarker (tag : String) : Numbered (m.addMarker tag).1 given :=
  h.settled (addMarker_settled m tag) h.typeRefs h.memberRefs

theorem setBody (token : Token) (b : Option Body) : Numbered (m.setBody token b) given := by
  have htypeRefs : (m.setBody token b).typeRefs = m.typeRefs := by rw [setBody_eq]
  have hmemberRefs : (m.setBody token b).memberRefs = m.memberRefs := by rw [setBody_eq]
  exact h.settled (setBody_settled m token b) (htypeRefs ▸ h.typeRefs) (hmemberRefs ▸ h.memberRefs)

theorem addType (type : TypeDef) (methods : List Method) :
    Numbered (m.addType type methods).1
      { types := given.types ++ [(m.addType type methods).2.1]
        methods := given.methods ++ (m.addType type methods).2.2 } := by
  have htypes : (m.addType type methods).1.types.size = m.types.size + 1 := Array.size_push _
  have hdeclarations : (m.addType type methods).1.declarations =
      m.declarations ++ methods.map fun method => { method with owner := m.types.size, body := none } := by
    simp only [Module.addType, declarations, Array.toList_append, List.map_append, List.map_map]
    rfl
  have hlength : m.methods.size = m.declarations.length := by
    rw [declarations, List.length_map, Array.length_toList]
  refine ⟨?_, ?_, fun row hrow => ?_, h.typeRefs, h.memberRefs⟩
  · rw [htypes, List.range_succ, List.map_append, h.types]
    rfl
  · rw [hdeclarations, List.length_append, List.length_map, List.range_add, List.map_append, List.map_map, h.methods,
      ← hlength]
    rfl
  · rw [htypes]
    rw [hdeclarations, List.mem_append] at hrow
    rcases hrow with hrow | hrow
    · exact (h.owners row hrow).trans (Nat.lt_succ_self _)
    · obtain ⟨method, -, rfl⟩ := List.mem_map.1 hrow
      exact Nat.lt_succ_self _

end Numbered

/-- **Every change keeps the numbering.** -/
theorem record_numbered {given : Ledger} (h : Numbered m given) (change : Change) :
    Numbered (record (m, given) change).1 (record (m, given) change).2 := by
  have hkeeps : change.addsType = false → Numbered (change.apply m) given := fun hadds =>
    Change.apply_keeps (P := fun m => Numbered m given) hadds (fun _ name h => h.importType name)
      (fun _ member h => h.importMethod member) (fun _ tag h => h.addMarker tag)
      (fun _ token b h => h.setBody token b) h
  cases change with
  | addType type methods => exact h.addType type methods
  | _ => exact hkeeps rfl

theorem recorded_numbered (name : String) (changes : List Change) :
    Numbered (recorded name changes).1 (recorded name changes).2 := by
  have hfold : ∀ (changes : List Change) (s : Module × Ledger), Numbered s.1 s.2 →
      Numbered (changes.foldl record s).1 (changes.foldl record s).2 := by
    intro changes
    induction changes with
    | nil => exact fun _ h => h
    | cons change changes ih => exact fun s h => ih _ (record_numbered h change)
  exact hfold changes _ (numbered_empty name)

/-- the ledger is only kept beside the module -/
theorem recorded_module (name : String) (changes : List Change) :
    (recorded name changes).1 = Module.after { name } changes := by
  have hstep : ∀ (s : Module × Ledger) (change : Change), (record s change).1 = change.apply s.1 := by
    intro s change
    cases change <;> rfl
  have hfold : ∀ (changes : List Change) (s : Module × Ledger), (changes.foldl record s).1 = s.1.after changes := by
    intro changes
    induction changes with
    | nil => exact fun _ => rfl
    | cons change changes ih =>
      intro s
      rw [List.foldl_cons, ih, hstep]
      rfl
  exact hfold changes _

/-! ## What tokens mean -/

/-- the rows of a module and the tokens given out for them belong to each other -/
structure Unambiguous (m : Module) (given : Ledger) : Prop where
  types_length : given.types.length = m.types.size
  types_nodup : given.types.Nodup
  type_token : ∀ n token, given.types[n]? = some token → token.table? = some .typeDef ∧ token.row = n + 1 ∧
    ∃ type, m.types[n]? = some type ∧ m.typeName? token = some type.name
  methods_length : given.methods.length = m.methods.size
  methods_nodup : given.methods.Nodup
  method_token : ∀ n token, given.methods[n]? = some token → token.table? = some .methodDef ∧ token.row = n + 1 ∧
    ∃ row type, m.methods[n]? = some row ∧ m.types[row.owner]? = some type ∧
      m.resolve token = some ⟨type.name, row.name, row.signature⟩
  typeRefs_nodup : m.typeRefs.toList.Nodup
  /-- the n-th reference is what importing gives, if the module does not define the type -/
  typeRef_token : ∀ n name, m.typeRefs[n]? = some name → ∃ token : Token, token.table? = some .typeRef ∧
    token.row = n + 1 ∧ m.typeName? token = some name ∧
      ((∀ type ∈ m.types, type.name ≠ name) → m.importType name = (m, token))
  memberRefs_nodup : m.memberRefs.toList.Nodup
  memberRef_token : ∀ n member, m.memberRefs[n]? = some member → ∃ token : Token, token.table? = some .memberRef ∧
    token.row = n + 1 ∧ m.resolve token = some member ∧
      ((∀ row ∈ m.methods, m.member? row ≠ some member) → (m.importMethod member).2 = token)

/-- tokens of rows that can be numbered are different -/
theorem ofIndex_nodup (table : Table) {size : Nat} (h : size < 2 ^ 24) :
    ((List.range size).map (Token.ofIndex table)).Nodup := by
  refine List.nodup_range.map_on fun n hn n' hn' heq => ?_
  have hlt := List.mem_range.1 hn
  have hlt' := List.mem_range.1 hn'
  have hrow := congrArg Token.row heq
  rw [Token.ofIndex_row (by omega), Token.ofIndex_row (by omega)] at hrow
  omega

/-- the n-th of the tokens that count the rows of a table -/
theorem ofIndex_of_getElem? {table : Table} {size n : Nat} {token : Token}
    (h : ((List.range size).map (Token.ofIndex table))[n]? = some token) : n < size ∧ token = .ofIndex table n := by
  rw [List.getElem?_map] at h
  obtain ⟨i, hi, rfl⟩ := Option.map_eq_some_iff.1 h
  obtain ⟨hlt, rfl⟩ := List.getElem?_eq_some_iff.1 hi
  exact ⟨by simpa using hlt, by rw [List.getElem_range]⟩

theorem importTypes_memberRefs (m : Module) (names : List TypeName) :
    (names.foldl (fun m name => (m.importType name).1) m).memberRefs = m.memberRefs := by
  induction names generalizing m with
  | nil => rfl
  | cons name names ih =>
    rw [List.foldl_cons, ih]
    simp only [importType]
    split <;> rfl

theorem Numbered.unambiguous {given : Ledger} (h : Numbered m given) (ha : m.Addressable) : Unambiguous m given := by
  have hlength : m.declarations.length = m.methods.size := by
    rw [declarations, List.length_map, Array.length_toList]
  have htypes := ha.types
  have hmethods := ha.methods
  have htypeRefs := ha.typeRefs
  have hmemberRefs := ha.memberRefs
  refine
    { types_length := by rw [h.types, List.length_map, List.length_range]
      types_nodup := h.types ▸ ofIndex_nodup _ htypes
      type_token := fun n token htoken => ?_
      methods_length := by rw [h.methods, List.length_map, List.length_range, hlength]
      methods_nodup := h.methods ▸ ofIndex_nodup _ (hlength.symm ▸ hmethods)
      method_token := fun n token htoken => ?_
      typeRefs_nodup := h.typeRefs
      typeRef_token := fun n name hn => ?_
      memberRefs_nodup := h.memberRefs
      memberRef_token := fun n member hn => ?_ }
  · rw [h.types] at htoken
    obtain ⟨hlt, rfl⟩ := ofIndex_of_getElem? htoken
    have htype := Array.getElem?_eq_getElem hlt
    exact ⟨Token.ofIndex_table?, Token.ofIndex_row (by omega), _, htype, typeName?_typeDef ha htype⟩
  · rw [h.methods] at htoken
    obtain ⟨hlt, rfl⟩ := ofIndex_of_getElem? htoken
    rw [hlength] at hlt
    -- the row belongs to a type, so there is a member that the token stands for
    have howner : m.methods[n].owner < m.types.size :=
      h.owners { m.methods[n] with body := none }
        (List.mem_map.2 ⟨m.methods[n], Array.mem_toList_iff.2 (Array.getElem_mem hlt), rfl⟩)
    refine ⟨Token.ofIndex_table?, Token.ofIndex_row (by omega), m.methods[n], m.types[m.methods[n].owner],
      Array.getElem?_eq_getElem hlt, Array.getElem?_eq_getElem howner, ?_⟩
    simp only [resolve, Token.ofIndex_table?, method?_ofIndex ha hlt, Option.bind_some, member?, declaring?,
      Array.getElem?_eq_getElem howner, Option.map_some]
  · have hlt := (Array.getElem?_eq_some_iff.1 hn).1
    refine ⟨.ofIndex .typeRef n, Token.ofIndex_table?, Token.ofIndex_row (by omega), typeName?_typeRef ha hn,
      fun hown => ?_⟩
    have hnone : m.types.findIdx? (·.name == name) = none := by
      refine Array.findIdx?_eq_none_iff.2 fun type htype => ?_
      exact beq_false_of_ne (hown type htype)
    simp only [Module.importType, hnone, intern_getElem h.typeRefs hn]
  · have hlt := (Array.getElem?_eq_some_iff.1 hn).1
    refine ⟨.ofIndex .memberRef n, Token.ofIndex_table?, Token.ofIndex_row (by omega), ?_, fun hown => ?_⟩
    · simp only [resolve, Token.ofIndex_table?]
      rw [Token.ofIndex_index? (by omega), Option.bind_some]
      exact hn
    · have hnone : m.methods.findIdx? (m.member? · == some member) = none := by
        refine Array.findIdx?_eq_none_iff.2 fun row hrow => ?_
        exact beq_false_of_ne (hown row hrow)
      have hrefs := importTypes_memberRefs m (member.declaring :: member.signature.typeNames)
      simp only [Module.importMethod, hnone, hrefs, intern_getElem h.memberRefs hn]

/-- what tokens and types mean in a module, they mean in another one -/
structure Preserved (m m' : Module) : Prop where
  resolve : ∀ token member, m.resolve token = some member → m'.resolve token = some member
  typeName? : ∀ token name, m.typeName? token = some name → m'.typeName? token = some name
  resolvesType : ∀ type, m.resolvesType type = true → m'.resolvesType type = true

theorem Grows.preserved (h : Grows m m') : Preserved m m' :=
  ⟨fun _ _ => h.resolve, fun _ _ => h.typeName?, fun _ => h.resolvesType⟩

/-- **Tokens are unambiguous and permanent.** Whatever is done to a module from its beginning on: the tokens of its rows
are all different and count them, what is imported is what its token stands for, a token goes on standing for it
whatever is done next, and an import that is repeated before a type is added gives the same token and changes
nothing. -/
theorem tokens_unambiguous_permanent (name : String) (changes more : List Change)
    (ha : (Module.after { name } changes).Addressable) :
    let m := Module.after { name } changes
    Unambiguous m (recorded name changes).2 ∧ Preserved m (m.after more) ∧
      (∀ type, (m.importType type).1.Addressable →
        (m.importType type).1.typeName? (m.importType type).2 = some type) ∧
      (∀ member, (m.importMethod member).1.Addressable → (m.importMethod member).2.isMethod = true ∧
        (m.importMethod member).1.resolve (m.importMethod member).2 = some member) ∧
      ((∀ change ∈ more, change.addsType = false) →
        (∀ type, ((m.importType type).1.after more).importType type =
          ((m.importType type).1.after more, (m.importType type).2)) ∧
        ∀ member, ((m.importMethod member).1.after more).importMethod member =
          ((m.importMethod member).1.after more, (m.importMethod member).2)) := by
  intro m
  have hnumbered := recorded_numbered name changes
  rw [recorded_module] at hnumbered
  refine ⟨hnumbered.unambiguous ha, (after_grows m more).preserved, importType_typeName? m,
    fun member hm => ?_, fun hmore => ⟨fun type => ?_, fun member => ?_⟩⟩
  · exact ⟨importMethod_isMethod m member, importMethod_resolve m member hm⟩
  · exact importType_again (after_settled _ hmore)
  · exact importMethod_again (after_settled _ hmore)

/-- a type with a method, a method of another module that names one type, and a marker -/
def sampleHistory : List Change := [
  .addType ⟨⟨"", "TBody"⟩, .reference⟩ [{ name := "MulTexProc", flags := 0x0006, signature := .instanceOf .void [] }],
  .importMethod (MemberKey.vectorScale.member {}), .addMarker "TEST"]

theorem tokens_unambiguous_permanent_sample :
    let m := Module.after { name := "Assembly-CSharp" } sampleHistory
    m.Addressable ∧ m.memberRefs.size = 1 ∧ Unambiguous m ⟨[.ofIndex .typeDef 0], [.ofIndex .methodDef 0]⟩ ∧
      Preserved m (m.after [.resolveMembers {} engine, .graft ⟨{}⟩ engine]) := by
  have htypes : (Module.after { name := "Assembly-CSharp" } sampleHistory).types.size = 1 := by cbv
  have hmethods : (Module.after { name := "Assembly-CSharp" } sampleHistory).methods.size = 1 := by cbv
  have htypeRefs : (Module.after { name := "Assembly-CSharp" } sampleHistory).typeRefs.size = 1 := by cbv
  have hmemberRefs : (Module.after { name := "Assembly-CSharp" } sampleHistory).memberRefs.size = 1 := by cbv
  have ha : (Module.after { name := "Assembly-CSharp" } sampleHistory).Addressable :=
    ⟨by omega, by omega, by omega, by omega⟩
  obtain ⟨hunambiguous, hpreserved, -⟩ := tokens_unambiguous_permanent "Assembly-CSharp" sampleHistory
    [.resolveMembers {} engine, .graft ⟨{}⟩ engine] ha
  exact ⟨ha, hmemberRefs, hunambiguous, hpreserved⟩

end CilGraft.Module

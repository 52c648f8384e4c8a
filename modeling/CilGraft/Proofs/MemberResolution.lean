/-
Resolving members is exact, atomic and idempotent.

- `resolveByKey`: resolution with everything that could go wrong: the members are imported one after the other, and then
  their tokens are looked up by key in a module that is changed by then.
- `resolveByKey_eq`: no lookup fails, so it is as if the tokens were never looked up.
- `Provides`, `Lacks`: a library has a member, or it does not and this is the error that says so.
- `verifyMembers_eq_error`: the first member that is missing decides about the error.
- `importMembers_again`: members that are imported are not imported again.
- `resolveByKey_exact`: all of it.
-/
import CilGraft.Proofs.Tokens

namespace CilGraft

open Graft (FirstType)

namespace Config

/-! ## Step by step -/

/-- imports members one after the other; their tokens come with the keys -/
def importKeys (c : Config) : List MemberKey → Module → Module × List (MemberKey × Token)
  | [], m => (m, [])
  | key :: keys, m =>
    let (m, token) := m.importMethod (key.member c)
    let (m, tokens) := importKeys c keys m
    (m, (key, token) :: tokens)

/-- the token of a key, if the key is there -/
def tokenOf (tokens : List (MemberKey × Token)) (key : MemberKey) : Except Error Token :=
  match tokens.find? (·.1 = key) with
  | some (_, token) => .ok token
  | none => .error (.raised s!"Member {key.name} was not declared")

/-- all members by their keys -/
def collect (vector : TypeSig) (tokens : List (MemberKey × Token)) : Except Error ImportedMembers := do
  let getActive ← tokenOf tokens .getActive
  let setActive ← tokenOf tokens .setActive
  let getWidth ← tokenOf tokens .getWidth
  let getHeight ← tokenOf tokens .getHeight
  let vectorCtor ← tokenOf tokens .vectorCtor
  let vectorScale ← tokenOf tokens .vectorScale
  let mathMin ← tokenOf tokens .mathMin
  return { getActive, setActive, getWidth, getHeight, vectorCtor, vectorScale, mathMin, vector }

/-- Resolves members in all steps. A failure leaves the module as it is by then. -/
def resolveByKey (c : Config) (m dependency : Module) : Except (Failure Module) (Module × ImportedMembers) := do
  let vector ← leaving m (c.verifyMembers dependency)
  let (m, tokens) := c.importKeys MemberKey.all (importVector vector m)
  let members ← leaving m (collect vector tokens)
  return (m, members)

/-- all keys are declared, so no token is missing -/
theorem collect_importKeys (c : Config) (vector : TypeSig) (m : Module) :
    collect vector (c.importKeys MemberKey.all (importVector vector m)).2 = .ok (c.importMembers vector m).2 := rfl

/-- **Members are resolved as a whole or not at all.** -/
theorem resolveByKey_eq (c : Config) (m dependency : Module) :
    c.resolveByKey m dependency = leaving m (c.resolveMembers m dependency) := by
  cases hverify : c.verifyMembers dependency with
  | error e => simp only [resolveByKey, resolveMembers, hverify, leaving_error, bind, Except.bind]
  | ok vector =>
    simp only [resolveByKey, resolveMembers, hverify, collect_importKeys, leaving_ok, bind, Except.bind]
    rfl

/-! ## What a library has to have -/

/-- the first type with the full name of the declaring type has a method with this name and signature -/
def Provides (dependency : Module) (member : Member) : Prop :=
  ∃ owner, FirstType dependency member.declaring.fullName owner ∧
    ∃ row ∈ dependency.methods, row.owner = owner ∧ row.name = member.name ∧ row.signature = member.signature

/-- a library does not have a member, and what is said about it -/
inductive Lacks (dependency : Module) (member : Member) : Error → Prop where
  | type (h : ∀ type ∈ dependency.types, type.name.fullName ≠ member.declaring.fullName) :
    Lacks dependency member (.unresolvedType s!"{member.declaring.fullName} (in dependency '{dependency.name}')")
  | method (owner : Nat) (howner : FirstType dependency member.declaring.fullName owner)
      (h : ∀ row ∈ dependency.methods, row.owner = owner → row.name = member.name → row.signature ≠ member.signature) :
    Lacks dependency member (.methodNotFound member.declaring.fullName s!"{member.name} {member.signature.text}")

theorem findMethod?_isSome {m : Module} {owner : Nat} {name : String} {signature : MethodSig} :
    (m.findMethod? owner name signature).isSome = true ↔
      ∃ row ∈ m.methods, row.owner = owner ∧ row.name = name ∧ row.signature = signature := by
  simp only [Module.findMethod?, Option.isSome_map, List.find?_isSome, Module.methodsNamed, Module.methodsOf,
    List.mem_filter, beq_iff_eq]
  constructor
  · rintro ⟨⟨row, i⟩, ⟨⟨hmem, howner⟩, hname⟩, hsignature⟩
    have hrow := List.mem_of_getElem? (List.mem_zipIdx_iff_getElem?.1 hmem)
    exact ⟨row, Array.mem_toList_iff.1 hrow, howner, hname, hsignature⟩
  · rintro ⟨row, hrow, howner, hname, hsignature⟩
    obtain ⟨i, hi, heq⟩ := List.getElem_of_mem (Array.mem_toList_iff.2 hrow)
    have hmem : (row, i) ∈ m.methods.toList.zipIdx :=
      List.mem_zipIdx_iff_getElem?.2 (List.getElem?_eq_some_iff.2 ⟨hi, heq⟩)
    exact ⟨(row, i), ⟨⟨hmem, howner⟩, hname⟩, hsignature⟩

theorem findType?_eq_none {m : Module} {fullName : String} :
    m.findType? fullName = none ↔ ∀ type ∈ m.types, type.name.fullName ≠ fullName := by
  simp only [Module.findType?, Array.findIdx?_eq_none_iff, beq_eq_false_iff_ne]

variable {dependency : Module} {member : Member}

theorem checkMember_iff_provides : checkMember dependency member = .ok () ↔ Provides dependency member := by
  rw [checkMember_eq_ok]
  simp only [Graft.findType?_eq_some, findMethod?_isSome]
  rfl

theorem checkMember_eq_error {e : Error} : checkMember dependency member = .error e ↔ Lacks dependency member e := by
  constructor
  · intro h
    unfold checkMember at h
    split at h
    · rename_i hnone
      injection h with h
      subst h
      exact .type (findType?_eq_none.1 hnone)
    · rename_i owner howner
      split at h
      · cases h
      · rename_i hnone
        injection h with h
        subst h
        refine .method owner (Graft.findType?_eq_some.1 howner) fun row hrow hrowner hname hsignature => ?_
        have hsome := findMethod?_isSome.2 ⟨row, hrow, hrowner, hname, hsignature⟩
        rw [hnone] at hsome
        cases hsome
  · rintro (h | ⟨owner, howner, h⟩)
    · rw [checkMember, findType?_eq_none.2 h]
    · have hnone : dependency.findMethod? owner member.name member.signature = none := by
        refine Option.not_isSome_iff_eq_none.1 fun hsome => ?_
        obtain ⟨row, hrow, hrowner, hname, hsignature⟩ := findMethod?_isSome.1 hsome
        exact h row hrow hrowner hname hsignature
      rw [checkMember, Graft.findType?_eq_some.2 howner]
      dsimp only
      rw [hnone]

variable {c : Config}

/-- a library with all members has the type of a vector, which declares two of them -/
theorem verifyMembers_isOk_iff : (∃ vector, c.verifyMembers dependency = .ok vector) ↔
    ∀ key : MemberKey, key.inDependency = true → Provides dependency (key.member c) := by
  simp only [verifyMembers_eq_ok, checkMember_iff_provides]
  constructor
  · rintro ⟨vector, h, -⟩
    exact h
  · intro h
    obtain ⟨owner, howner, -⟩ := h .vectorCtor rfl
    obtain ⟨type, htype, -⟩ := howner.name
    exact ⟨type.signature, h, owner, type, Graft.findType?_eq_some.2 howner, htype, rfl⟩

/-- **The first member that is missing decides about the error.** -/
theorem verifyMembers_eq_error {e : Error} : c.verifyMembers dependency = .error e ↔
    ∃ before key after, MemberKey.all.filter (·.inDependency) = before ++ key :: after ∧
      (∀ earlier ∈ before, Provides dependency (earlier.member c)) ∧ Lacks dependency (key.member c) e := by
  have hforM : ∀ e', forM (MemberKey.all.filter (·.inDependency)) (fun key => checkMember dependency (key.member c)) =
      .error e' ↔ ∃ before key after, MemberKey.all.filter (·.inDependency) = before ++ key :: after ∧
        (∀ earlier ∈ before, Provides dependency (earlier.member c)) ∧ Lacks dependency (key.member c) e' := by
    intro e'
    simp only [forM_eq_error, checkMember_iff_provides, checkMember_eq_error]
  rw [← hforM, verifyMembers, bind_eq_error]
  refine or_iff_left ?_
  rintro ⟨_, hchecked, hvector⟩
  -- the constructor of the vector is there, so its type is
  have hctor := forM_eq_ok.1 hchecked .vectorCtor (by decide)
  obtain ⟨owner, howner, -⟩ := checkMember_iff_provides.1 hctor
  obtain ⟨type, htype, -⟩ := howner.name
  have hfound : dependency.findType? c.vector.fullName = some owner := Graft.findType?_eq_some.2 howner
  rw [hfound, Option.bind_some, htype] at hvector
  cases hvector

/-! ## What is imported -/

theorem importKeys_extends (c : Config) (keys : List MemberKey) (m : Module) : m.Extends (c.importKeys keys m).1 := by
  induction keys generalizing m with
  | nil => exact Module.Extends.refl m
  | cons key keys ih => exact (Module.importMethod_extends m _).trans (ih _)

variable {m m' : Module} {vector : TypeSig}

theorem importKeys_again {keys : List MemberKey} (h : (c.importKeys keys m).1.Settled m') :
    c.importKeys keys m' = (m', (c.importKeys keys m).2) := by
  induction keys generalizing m with
  | nil => rfl
  | cons key keys ih =>
    have hfirst : m'.importMethod (key.member c) = (m', (m.importMethod (key.member c)).2) :=
      Module.importMethod_again ((importKeys_extends c keys _).settled.trans h)
    have hrest : c.importKeys keys m' = (m', (c.importKeys keys (m.importMethod (key.member c)).1).2) := ih h
    simp only [importKeys, hfirst, hrest]

theorem importVector_again (h : (importVector vector m).Settled m') : importVector vector m' = m' := by
  unfold importVector at h ⊢
  split at h
  · rw [Module.importType_again h]
  · rfl

/-- **Members that are there are not imported again.** -/
theorem importMembers_again (h : (c.importMembers vector m).1.Settled m') :
    c.importMembers vector m' = (m', (c.importMembers vector m).2) := by
  have hvector : importVector vector m' = m' :=
    importVector_again ((importKeys_extends c MemberKey.all _).settled.trans h)
  have hkeys : c.importKeys MemberKey.all m' = (m', (c.importKeys MemberKey.all (importVector vector m)).2) :=
    importKeys_again h
  have hcollect := collect_importKeys c vector m'
  rw [hvector, hkeys] at hcollect
  have hmembers : (c.importMembers vector m).2 = (c.importMembers vector m').2 :=
    Except.ok.inj ((collect_importKeys c vector m).symm.trans hcollect)
  have hmodule : (c.importMembers vector m').1 = (c.importKeys MemberKey.all (importVector vector m')).1 := rfl
  rw [hvector, hkeys] at hmodule
  exact Prod.ext hmodule hmembers.symm

/-- what declares an imported method is known afterwards, whether the method is an own one or not -/
theorem importMethod_resolvesType (m : Module) (member : Member) {type : TypeSig}
    (h : type.typeName? = some member.declaring) : (m.importMethod member).1.resolvesType type = true := by
  simp only [Module.importMethod]
  split
  · rename_i index hfound
    obtain ⟨hlt, heq, -⟩ := Array.findIdx?_eq_some_iff_getElem.1 hfound
    obtain ⟨declaring, hdeclaring, hmember⟩ := Option.map_eq_some_iff.1 (eq_of_beq heq)
    obtain ⟨own, hown, rfl⟩ := Option.map_eq_some_iff.1 hdeclaring
    rw [← hmember] at h
    simp only [Module.resolvesType, h, Bool.or_eq_true, Array.any_eq_true']
    exact Or.inl ⟨own, Array.mem_of_getElem? hown, beq_self_eq_true _⟩
  · have htype := Module.importType_resolvesType m h
    exact (Module.importTypes_extends (m.importType member.declaring).1 member.signature.typeNames).resolvesType htype

/-- each type that the signature of a member names is the one that declares it -/
theorem typeName?_member (key : MemberKey) :
    ∀ type ∈ (key.member c).signature.result :: (key.member c).signature.params, ∀ name ∈ type.typeName?,
      name = (key.member c).declaring := by
  cases key <;> simp [MemberKey.member, MethodSig.static, MethodSig.instanceOf, TypeSig.typeName?]

/-- members have names of their own -/
theorem member_injective {key key' : MemberKey} (h : key.member c = key'.member c) : key = key' := by
  have hname := congrArg Member.name h
  cases key <;> cases key' <;> first | rfl | (simp [MemberKey.member, constructorName] at hname)

theorem importMembers_declaring (key : MemberKey) {type : TypeSig}
    (h : type.typeName? = some (key.member c).declaring) : (c.importMembers vector m).1.resolvesType type = true := by
  have hkeys : ∀ (keys : List MemberKey) (m : Module), key ∈ keys →
      (c.importKeys keys m).1.resolvesType type = true := by
    intro keys
    induction keys with
    | nil => exact fun _ hkey => absurd hkey List.not_mem_nil
    | cons head keys ih =>
      intro m hkey
      rcases List.mem_cons.1 hkey with rfl | hkey
      · exact (importKeys_extends c keys _).resolvesType (importMethod_resolvesType m _ h)
      · exact ih _ hkey
  exact hkeys MemberKey.all _ (by cases key <;> decide)

/-! ## Resolution -/

/-- `m'` is `m` with the members in it that a configuration declares and a library has -/
structure Imported (c : Config) (m dependency m' : Module) (members : ImportedMembers) : Prop where
  linked : members.Linked c m'.resolve
  distinct : ∀ key key', members.token key = members.token key' → key = key'
  vector : ∃ owner type, FirstType dependency c.vector.fullName owner ∧ dependency.types[owner]? = some type ∧
    members.vector = type.signature
  vector_known : m'.resolvesType members.vector = true
  declaring_known : ∀ key type, type.typeName? = some (MemberKey.member c key).declaring → m'.resolvesType type = true
  signature_known : ∀ key, ∀ type ∈ (MemberKey.member c key).signature.result :: (key.member c).signature.params,
    m'.resolvesType type = true
  unchanged : m.Extends m'
  again : c.resolveByKey m' dependency = .ok (m', members)

theorem importMembers_imported (hverify : c.verifyMembers dependency = .ok vector)
    (ha : (c.importMembers vector m).1.Addressable) :
    Imported c m dependency (c.importMembers vector m).1 (c.importMembers vector m).2 := by
  have hlinked := importMembers_linked c vector m ha
  obtain ⟨-, owner, type, howner, htype, hvector⟩ := verifyMembers_eq_ok.1 hverify
  refine
    { linked := hlinked
      distinct := fun key key' heq => ?_
      vector := ⟨owner, type, Graft.findType?_eq_some.1 howner, htype, hvector⟩
      vector_known := importMembers_resolvesType c vector m
      declaring_known := fun key type h => importMembers_declaring key h
      signature_known := fun key type htype => ?_
      unchanged := importMembers_extends c vector m
      again := ?_ }
  · have hkey := hlinked.resolve key
    rw [heq, hlinked.resolve key'] at hkey
    exact (member_injective (Option.some_injective _ hkey)).symm
  · cases hname : type.typeName? with
    | none => simp only [Module.resolvesType, hname]
    | some name =>
      have hdeclaring := typeName?_member key type htype name hname
      exact importMembers_declaring key (hdeclaring ▸ hname)
  · rw [resolveByKey_eq, leaving_eq_ok, resolveMembers_eq_ok]
    exact ⟨vector, hverify, (importMembers_again (Module.Settled.refl _)).symm⟩

/-- **Members are resolved exactly, as a whole and once.** It succeeds if the library has all members, with the first
type of each name; otherwise the first one that is missing decides about the error, and the module is untouched. After a
success every token stands for its member, all types are known, and to resolve again changes nothing. -/
theorem resolveByKey_exact (c : Config) (m dependency : Module) :
    c.resolveByKey m dependency = leaving m (c.resolveMembers m dependency) ∧
      ((∃ out, c.resolveByKey m dependency = .ok out) ↔
        ∀ key : MemberKey, key.inDependency = true → Provides dependency (key.member c)) ∧
      (∀ f, c.resolveByKey m dependency = .error f ↔ f.state = m ∧ ∃ before key after,
        MemberKey.all.filter (·.inDependency) = before ++ key :: after ∧
          (∀ earlier ∈ before, Provides dependency (earlier.member c)) ∧
            Lacks dependency (key.member c) f.error) ∧
      ∀ m' members, c.resolveByKey m dependency = .ok (m', members) → m'.Addressable →
        Imported c m dependency m' members := by
  refine ⟨resolveByKey_eq c m dependency, ?_, fun f => ?_, fun m' members hok ha => ?_⟩
  · rw [← verifyMembers_isOk_iff]
    simp only [resolveByKey_eq, leaving_eq_ok, resolveMembers_eq_ok]
    exact ⟨fun ⟨_, vector, hvector, _⟩ => ⟨vector, hvector⟩, fun ⟨vector, hvector⟩ => ⟨_, vector, hvector, rfl⟩⟩
  · rw [resolveByKey_eq, leaving_eq_error, and_comm, ← verifyMembers_eq_error, resolveMembers, bind_eq_error]
    refine and_congr_right fun _ => or_iff_left ?_
    rintro ⟨_, -, h⟩
    cases h
  · rw [resolveByKey_eq, leaving_eq_ok, resolveMembers_eq_ok] at hok
    obtain ⟨vector, hverify, hout⟩ := hok
    cases hout
    exact importMembers_imported hverify ha

/-- a library that is resolved against itself, so that it has all members but one already, and against an empty one -/
theorem resolveByKey_exact_engine :
    (∃ m' members, Config.resolveByKey {} engine engine = .ok (m', members) ∧ m'.Addressable ∧
      Imported {} engine engine m' members) ∧
    ∃ type, Config.resolveByKey {} engine { name := "UnityEngine" } = .error ⟨.unresolvedType type, engine⟩ := by
  obtain ⟨heq, -, -, himported⟩ := resolveByKey_exact {} engine engine
  obtain ⟨-, -, herror, -⟩ := resolveByKey_exact {} engine { name := "UnityEngine" }
  have hok := heq.trans (leaving_eq_ok.2 (resolveMembers_engine engine))
  have hengine : engine.Addressable := ⟨by decide, by decide, by decide, by decide⟩
  have ha : (Config.importMembers {} (.valueType ⟨"UnityEngine", "Vector3"⟩) engine).1.Addressable :=
    importMembers_addressable _ _ _ hengine (by decide) (by decide)
  have hnothing : ∀ earlier ∈ ([] : List MemberKey), Provides { name := "UnityEngine" } (earlier.member {}) :=
    fun _ hearlier => absurd hearlier List.not_mem_nil
  obtain ⟨type, hlacks⟩ : ∃ type, Lacks { name := "UnityEngine" } (MemberKey.getActive.member {})
      (.unresolvedType type) :=
    ⟨_, .type fun type htype => absurd (Array.mem_toList_iff.2 htype) List.not_mem_nil⟩
  exact ⟨⟨_, _, hok, ha, himported _ _ hok ha⟩, type, (herror ⟨_, _⟩).2 ⟨rfl, [], .getActive, _, rfl, hnothing, hlacks⟩⟩

end Config

end CilGraft

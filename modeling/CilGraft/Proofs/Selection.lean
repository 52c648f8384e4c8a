/-
What a graft picks out of a module, said without the search for it.

- `targetMethod_eq_ok`: the method is the first one of the first type with the full name of the target that has the
  target's name, a parameter and a body.
- `vectorLocals_eq_ok`: the two slots are the first and the last one whose type has the name of the vector type, and the
  first is before the last.
- `locate_contains`: an anchor that is located is an instruction of the body.
-/
import CilGraft.Graft.Pass
import CilGraft.Proofs.Metadata

namespace CilGraft

/-! ## Anchors -/

theorem Anchor.Pattern.locate_contains {pattern : Anchor.Pattern} {b : Body} {resolve : Resolver} {h : Handle}
    (hb : b.WellFormed) (hl : pattern.locate b resolve = .ok h) : b.contains h = true := by
  simp only [locate] at hl
  split at hl
  · rename_i handle hhandle
    injection hl with hl
    subst hl
    obtain ⟨p, -, hp⟩ := Option.bind_eq_some_iff.1 hhandle
    exact hb.contains_of_handleAt? hp
  · cases hl

namespace Graft

/-! ## The method -/

/-- a type is the first one of its module with a full name -/
structure FirstType (m : Module) (fullName : String) (owner : Nat) : Prop where
  name : ∃ t, m.types[owner]? = some t ∧ t.name.fullName = fullName
  first : ∀ j < owner, ∀ t, m.types[j]? = some t → t.name.fullName ≠ fullName

/-- a method that the graft could change: it has the name of the target, a parameter and a body -/
structure Candidate (g : Graft) (owner : Nat) (row : MethodRow) : Prop where
  owner : row.owner = owner
  name : row.name = g.config.targetMethod
  params : row.signature.params ≠ []
  body : row.body.isSome = true

/-- the method is the first candidate of the target type -/
structure IsTarget (g : Graft) (m : Module) (index : Nat) (row : MethodRow) : Prop where
  at_index : m.methods[index]? = some row
  first : ∃ owner, FirstType m g.config.targetType owner ∧ g.Candidate owner row ∧
    ∀ j < index, ∀ other, m.methods[j]? = some other → ¬ g.Candidate owner other

theorem findType?_eq_some {m : Module} {fullName : String} {owner : Nat} :
    m.findType? fullName = some owner ↔ FirstType m fullName owner := by
  simp only [Module.findType?, Array.findIdx?_eq_some_iff_getElem, beq_iff_eq]
  constructor
  · rintro ⟨hlt, hname, hfirst⟩
    refine ⟨⟨_, Array.getElem?_eq_getElem hlt, hname⟩, fun j hj t ht => ?_⟩
    obtain ⟨-, rfl⟩ := Array.getElem?_eq_some_iff.1 ht
    exact hfirst j hj
  · rintro ⟨⟨t, ht, hname⟩, hfirst⟩
    obtain ⟨hlt, rfl⟩ := Array.getElem?_eq_some_iff.1 ht
    exact ⟨hlt, hname, fun j hj => hfirst j hj _ (Array.getElem?_eq_getElem (hj.trans hlt))⟩

/-- what a search through the rows of a table finds, with its place -/
theorem first_of_zipIdx {α : Type} {P : α → Prop} {test : α × Nat → Bool} (htest : ∀ x n, test (x, n) = true ↔ P x)
    {table : Array α} {x : α} {n : Nat} (h : table.toList.zipIdx.find? test = some (x, n)) :
    table[n]? = some x ∧ P x ∧ ∀ j < n, ∀ y, table[j]? = some y → ¬ P y := by
  obtain ⟨hx, i, hi, hget, hbefore⟩ := List.find?_eq_some_iff_getElem.1 h
  simp only [List.getElem_zipIdx, Array.getElem_toList, Nat.zero_add, Prod.mk.injEq] at hget hbefore
  obtain ⟨hget, rfl⟩ := hget
  have hlt : i < table.size := by simpa using hi
  refine ⟨by rw [Array.getElem?_eq_getElem hlt, hget], (htest x i).1 hx, fun j hj y hy hP => ?_⟩
  obtain ⟨hjlt, rfl⟩ := Array.getElem?_eq_some_iff.1 hy
  have hfalse := hbefore j hj
  rw [(htest _ j).2 hP] at hfalse
  cases hfalse

theorem targetMethod_eq_ok {g : Graft} {m : Module} {method : Token} {row : MethodRow}
    (h : g.targetMethod m = .ok (method, row)) :
    ∃ index, method = .ofIndex .methodDef index ∧ g.IsTarget m index row := by
  simp only [targetMethod] at h
  split at h
  · rename_i row' index hfound
    injection h with h
    injection h with h1 h2
    subst h1 h2
    obtain ⟨owner, howner, hfind⟩ := Option.bind_eq_some_iff.1 hfound
    simp only [Module.methodsNamed, Module.methodsOf, List.find?_filter] at hfind
    obtain ⟨hget, hcandidate, hbefore⟩ := first_of_zipIdx (fun r n => by
      simp only [beq_iff_eq, Bool.and_eq_true, Bool.not_eq_true', List.isEmpty_eq_false_iff, decide_eq_true_eq]
      exact ⟨fun ⟨h1, h2, h3, h4⟩ => (⟨h1, h2, h3, h4⟩ : g.Candidate owner r),
        fun ⟨h1, h2, h3, h4⟩ => ⟨h1, h2, h3, h4⟩⟩) hfind
    exact ⟨index, rfl, hget, owner, findType?_eq_some.1 howner, hcandidate, hbefore⟩
  · cases h

theorem IsTarget.method? {g : Graft} {m : Module} {index : Nat} {row : MethodRow} (h : g.IsTarget m index row)
    (ha : m.Addressable) : m.method? (.ofIndex .methodDef index) = some row := by
  obtain ⟨hlt, hrow⟩ := Array.getElem?_eq_some_iff.1 h.at_index
  rw [Module.method?_ofIndex ha hlt, hrow]

theorem FirstType.unique {m : Module} {fullName : String} {owner owner' : Nat} (h : FirstType m fullName owner)
    (h' : FirstType m fullName owner') : owner = owner' :=
  Option.some_injective _ ((findType?_eq_some.2 h).symm.trans (findType?_eq_some.2 h'))

/-- there is one method that is the target -/
theorem IsTarget.unique {g : Graft} {m : Module} {index index' : Nat} {row row' : MethodRow}
    (h : g.IsTarget m index row) (h' : g.IsTarget m index' row') : index = index' ∧ row = row' := by
  obtain ⟨owner, howner, hcandidate, hfirst⟩ := h.first
  obtain ⟨owner', howner', hcandidate', hfirst'⟩ := h'.first
  obtain rfl := howner.unique howner'
  have hindex : index = index' := by
    rcases lt_trichotomy index index' with hlt | heq | hlt
    · exact absurd hcandidate (hfirst' index hlt row h.at_index)
    · exact heq
    · exact absurd hcandidate' (hfirst index' hlt row' h'.at_index)
  subst hindex
  exact ⟨rfl, Option.some_injective _ (h.at_index.symm.trans h'.at_index)⟩

/-! ## The slots -/

/-- the type of a slot has the name of the vector type -/
def IsVector (b : Body) (vector : TypeSig) (n : Nat) : Prop :=
  ∃ type, b.locals[n]? = some type ∧ type.typeName? = vector.typeName?

theorem mem_vectorSlots {b : Body} {vector : TypeSig} {slot : Local} :
    slot ∈ vectorSlots b vector ↔ ∃ n, IsVector b vector n ∧ slot = ⟨.ofNat n⟩ := by
  simp only [vectorSlots, List.mem_map, List.mem_filter, List.mem_range, IsVector, Option.any_eq_true, beq_iff_eq]
  constructor
  · rintro ⟨n, ⟨-, htype⟩, rfl⟩
    exact ⟨n, htype, rfl⟩
  · rintro ⟨n, ⟨type, htype, hname⟩, rfl⟩
    exact ⟨n, ⟨(Array.getElem?_eq_some_iff.1 htype).1, type, htype, hname⟩, rfl⟩

/-- the first and the last of the slots with a vector -/
structure VectorSlots (b : Body) (vector : TypeSig) (position scale : Local) : Prop where
  position_vector : IsVector b vector position.index.toNat
  scale_vector : IsVector b vector scale.index.toNat
  first : ∀ n, IsVector b vector n → position.index.toNat ≤ n
  last : ∀ n, IsVector b vector n → n ≤ scale.index.toNat
  lt : position.index.toNat < scale.index.toNat

theorem IsVector.lt_size {b : Body} {vector : TypeSig} {n : Nat} (h : IsVector b vector n) : n < b.locals.size := by
  obtain ⟨type, htype, -⟩ := h
  exact (Array.getElem?_eq_some_iff.1 htype).1

/-- slots are numbered in 16 bits, which is enough for all that a body can have -/
theorem IsVector.toNat_ofNat {b : Body} (hb : b.WellFormed) {vector : TypeSig} {n : Nat} (h : IsVector b vector n) :
    (UInt16.ofNat n).toNat = n := by
  have hlt := h.lt_size
  have hlocals := hb.locals
  rw [UInt16.toNat_ofNat']
  exact Nat.mod_eq_of_lt (by omega)

theorem vectorSlots_ascending {b : Body} (hb : b.WellFormed) (vector : TypeSig) :
    (vectorSlots b vector).Pairwise fun s s' => s.index.toNat < s'.index.toNat := by
  have hbound : ∀ n ∈ (List.range b.locals.size).filter
      fun n => b.locals[n]?.any (·.typeName? == vector.typeName?), (UInt16.ofNat n).toNat = n := by
    intro n hn
    obtain ⟨-, htype⟩ := List.mem_filter.1 hn
    simp only [Option.any_eq_true, beq_iff_eq] at htype
    exact IsVector.toNat_ofNat hb htype
  refine List.pairwise_map.2 ((List.pairwise_lt_range.filter _).imp_of_mem fun hn hn' hlt => ?_)
  simp only [hbound _ hn, hbound _ hn']
  exact hlt

theorem vectorLocals_eq_ok {b : Body} (hb : b.WellFormed) {vector : TypeSig} {position scale : Local}
    (h : vectorLocals b vector = .ok (position, scale)) : VectorSlots b vector position scale := by
  have hascending := vectorSlots_ascending hb vector
  have hvector : ∀ slot ∈ vectorSlots b vector, IsVector b vector slot.index.toNat := by
    intro slot hslot
    obtain ⟨n, hn, rfl⟩ := mem_vectorSlots.1 hslot
    rw [hn.toNat_ofNat hb]
    exact hn
  have hslot : ∀ n, IsVector b vector n → ∃ slot ∈ vectorSlots b vector, slot.index.toNat = n := by
    intro n hn
    exact ⟨⟨.ofNat n⟩, mem_vectorSlots.2 ⟨n, hn, rfl⟩, hn.toNat_ofNat hb⟩
  simp only [vectorLocals] at h
  split at h
  · rename_i first second rest hslots
    injection h with h
    injection h with h1 h2
    subst h1 h2
    rw [hslots] at hascending hvector hslot
    have htail := List.pairwise_cons.1 hascending
    have hlast_mem : (second :: rest).getLast (by simp) ∈ second :: rest := List.getLast_mem _
    have hlt := htail.1 _ hlast_mem
    -- every slot of the tail is the last one or before it
    have hle : ∀ slot ∈ second :: rest, slot.index.toNat ≤ ((second :: rest).getLast (by simp)).index.toNat := by
      intro slot hmem
      rw [← List.dropLast_concat_getLast (List.cons_ne_nil second rest)] at hmem
      rcases List.mem_append.1 hmem with hmem | hmem
      · exact (htail.2.rel_dropLast_getLast hmem).le
      · exact (List.mem_singleton.1 hmem) ▸ le_rfl
    refine ⟨hvector _ List.mem_cons_self, hvector _ (List.mem_cons_of_mem _ hlast_mem), fun n hn => ?_, fun n hn => ?_,
      hlt⟩
    · obtain ⟨slot, hmem, rfl⟩ := hslot n hn
      rcases List.mem_cons.1 hmem with rfl | hmem
      · exact le_rfl
      · exact (htail.1 _ hmem).le
    · obtain ⟨slot, hmem, rfl⟩ := hslot n hn
      rcases List.mem_cons.1 hmem with rfl | hmem
      · exact hlt.le
      · exact hle _ hmem
  · cases h

end Graft

end CilGraft

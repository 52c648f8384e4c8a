/-
Full names of types, and what they are parsed to.

- `Simple`: a text without a dot.
- `parse_of_simple`, `parse_join`: what a text is parsed to that has no dot, and one that is cut at its last dot.
  `simple_or_join`: every text is one of the two.
- `parse_fullName_iff`, `fullName_parse_iff`: when parsing and writing undo each other.
- `fullName_injective`: so full names tell apart types with simple names, and `findType?_fullName`: a search for the
  full name is a search for the name.
- `names_round_trip`: all of this, with what an import of the type gives.
-/
import CilGraft.Proofs.MemberResolution

namespace CilGraft

namespace TypeName

/-- a text without a dot -/
def Simple (s : String) : Prop := '.' ∉ s.toList

instance (s : String) : Decidable (Simple s) := inferInstanceAs (Decidable ('.' ∉ s.toList))

/-! ## Parsing -/

theorem toList_join (scope name : String) : (scope ++ "." ++ name).toList = scope.toList ++ '.' :: name.toList := by
  simp [String.toList_append]

/-- in what is turned around, no dot stops the search -/
theorem Simple.reverse {s : String} (h : Simple s) : ∀ c ∈ s.toList.reverse, (decide (c ≠ '.')) = true := by
  intro c hc
  have hne : c ≠ '.' := fun heq => h (heq ▸ List.mem_reverse.1 hc)
  exact decide_eq_true hne

theorem parse_of_simple {s : String} (h : Simple s) : parse s = ⟨"", s⟩ := by
  have hname : s.toList.reverse.takeWhile (· ≠ '.') = s.toList.reverse := List.takeWhile_eq_self_iff.2 h.reverse
  have hrest : s.toList.reverse.dropWhile (· ≠ '.') = [] := List.dropWhile_eq_nil_iff.2 h.reverse
  simp only [parse, hname, hrest, List.reverse_reverse, String.ofList_toList]

/-- **A full name is cut at its last dot.** -/
theorem parse_join (scope : String) {name : String} (h : Simple name) :
    parse (scope ++ "." ++ name) = ⟨scope, name⟩ := by
  have hback : (scope ++ "." ++ name).toList.reverse = name.toList.reverse ++ '.' :: scope.toList.reverse := by
    rw [toList_join, List.reverse_append, List.reverse_cons, List.append_assoc, List.singleton_append]
  have hname : (scope ++ "." ++ name).toList.reverse.takeWhile (· ≠ '.') = name.toList.reverse := by
    rw [hback, List.takeWhile_append_of_pos h.reverse]
    simp
  have hrest : (scope ++ "." ++ name).toList.reverse.dropWhile (· ≠ '.') = '.' :: scope.toList.reverse := by
    rw [hback, List.dropWhile_append_of_pos h.reverse]
    simp
  simp only [parse, hname, hrest, List.reverse_reverse, String.ofList_toList]

/-- a text has no dot, or it has a last one -/
theorem simple_or_join (s : String) : Simple s ∨ ∃ scope name, Simple name ∧ s = scope ++ "." ++ name := by
  by_cases h : Simple s
  · exact Or.inl h
  · -- the last dot is the first one from behind
    have hmem : '.' ∈ s.toList.reverse := List.mem_reverse.2 (not_not.1 h)
    obtain ⟨name, scope, heq, hname⟩ := List.eq_append_cons_of_mem hmem
    refine Or.inr ⟨String.ofList scope.reverse, String.ofList name.reverse, ?_, ?_⟩
    · simpa [Simple] using hname
    · apply String.toList_inj.1
      rw [toList_join, String.toList_ofList, String.toList_ofList, ← List.reverse_reverse s.toList, heq]
      simp

/-- what a text is parsed to has a simple name -/
theorem parse_simple (s : String) : Simple (parse s).name := by
  rcases simple_or_join s with h | ⟨scope, name, h, rfl⟩
  · rw [parse_of_simple h]
    exact h
  · rw [parse_join scope h]
    exact h

/-! ## Parsing and writing -/

theorem fullName_of_scope {t : TypeName} (h : t.scope ≠ "") : t.fullName = t.scope ++ "." ++ t.name := by
  simp [fullName, String.isEmpty_iff, h]

theorem fullName_of_no_scope {t : TypeName} (h : t.scope = "") : t.fullName = t.name := by
  simp [fullName, h]

/-- **A name is read back from its full name** if and only if its simple name has no dot. -/
theorem parse_fullName_iff {t : TypeName} : parse t.fullName = t ↔ Simple t.name := by
  constructor
  · intro h
    rw [← h]
    exact parse_simple t.fullName
  · intro h
    by_cases hscope : t.scope = ""
    · rw [fullName_of_no_scope hscope, parse_of_simple h, ← hscope]
    · rw [fullName_of_scope hscope, parse_join t.scope h]

/-- **A text is written back as it was parsed**, unless nothing but simple text stands behind a dot at its start. -/
theorem fullName_parse_iff {s : String} : (parse s).fullName = s ↔ ¬ ∃ rest, Simple rest ∧ s = "." ++ rest := by
  have hempty : ∀ name : String, "" ++ "." ++ name = "." ++ name := fun name => by rw [String.empty_append]
  rcases simple_or_join s with h | ⟨scope, name, h, rfl⟩
  · rw [parse_of_simple h]
    refine iff_of_true rfl ?_
    rintro ⟨rest, -, rfl⟩
    exact h (by simp)
  · rw [parse_join scope h]
    by_cases hscope : scope = ""
    · subst hscope
      refine iff_of_false ?_ (not_not.2 ⟨name, h, hempty name⟩)
      -- the dot is lost
      intro heq
      have hlength := congrArg String.length heq
      simp [fullName] at hlength
    · refine iff_of_true (fullName_of_scope hscope) ?_
      rintro ⟨rest, hrest, heq⟩
      have hparse : parse (scope ++ "." ++ name) = ⟨"", rest⟩ := by rw [heq, ← hempty, parse_join "" hrest]
      rw [parse_join scope h] at hparse
      exact hscope (congrArg TypeName.scope hparse)

/-- full names tell apart names whose simple names have no dot -/
theorem fullName_injective {t t' : TypeName} (h : Simple t.name) (h' : Simple t'.name)
    (heq : t.fullName = t'.fullName) : t = t' := by
  calc
    t = parse t.fullName := (parse_fullName_iff.2 h).symm
    _ = parse t'.fullName := by rw [heq]
    _ = t' := parse_fullName_iff.2 h'

/-- without that they do not -/
example : (⟨"Game", "Screen.Mode"⟩ : TypeName).fullName = (⟨"Game.Screen", "Mode"⟩ : TypeName).fullName := by decide

end TypeName

namespace Module

variable {m : Module} {t : TypeName}

/-- a type is the first one of its module with a name -/
structure FirstNamed (m : Module) (t : TypeName) (n : Nat) : Prop where
  name : ∃ type, m.types[n]? = some type ∧ type.name = t
  first : ∀ j < n, ∀ type, m.types[j]? = some type → type.name ≠ t

/-- **A search for the full name is a search for the name**, where simple names have no dots. -/
theorem findType?_fullName (hm : ∀ type ∈ m.types, TypeName.Simple type.name.name) (ht : TypeName.Simple t.name)
    {n : Nat} : m.findType? t.fullName = some n ↔ m.FirstNamed t n := by
  have hsame : ∀ {j : Nat} {type : TypeDef}, m.types[j]? = some type →
      (type.name.fullName = t.fullName ↔ type.name = t) := by
    intro j type htype
    have hsimple := hm type (Array.mem_of_getElem? htype)
    exact ⟨TypeName.fullName_injective hsimple ht, fun heq => heq ▸ rfl⟩
  rw [Graft.findType?_eq_some]
  constructor
  · rintro ⟨⟨type, htype, hname⟩, hfirst⟩
    refine ⟨⟨type, htype, (hsame htype).1 hname⟩, fun j hj other hother heq => ?_⟩
    exact hfirst j hj other hother ((hsame hother).2 heq)
  · rintro ⟨⟨type, htype, hname⟩, hfirst⟩
    refine ⟨⟨type, htype, (hsame htype).2 hname⟩, fun j hj other hother heq => ?_⟩
    exact hfirst j hj other hother ((hsame hother).1 heq)

/-- an import finds the first type with the name -/
theorem FirstNamed.importType {n : Nat} (h : m.FirstNamed t n) : m.importType t = (m, .ofIndex .typeDef n) := by
  obtain ⟨⟨type, htype, hname⟩, hfirst⟩ := h
  obtain ⟨hlt, rfl⟩ := Array.getElem?_eq_some_iff.1 htype
  have hfound : m.types.findIdx? (·.name == t) = some n := by
    refine Array.findIdx?_eq_some_iff_getElem.2 ⟨hlt, beq_iff_eq.2 hname, fun j hj => ?_⟩
    have hne := hfirst j hj _ (Array.getElem?_eq_getElem (hj.trans hlt))
    simpa using hne
  simp only [Module.importType, hfound]

/-- a type that is not defined is imported as a reference -/
theorem importType_foreign (h : ∀ type ∈ m.types, type.name ≠ t) : (m.importType t).2.table? = some .typeRef := by
  have hnone : m.types.findIdx? (·.name == t) = none :=
    Array.findIdx?_eq_none_iff.2 fun type htype => beq_false_of_ne (h type htype)
  simp only [Module.importType, hnone, Token.ofIndex_table?]

end Module

namespace TypeName

/-- **Names and their full names.** A name is read back from its full name if and only if its simple name has no dot; a
text is written back as it was parsed if and only if it is not a dot with no other dot behind it. So full names tell
names apart whose simple names have no dot. In every module whose types have such names, the search for the full name of
one gives the first type of that name, which is what an import of the name gives, and nothing if there is none, and then
an import gives a reference. -/
theorem names_round_trip :
    (∀ t : TypeName, parse t.fullName = t ↔ Simple t.name) ∧
      (∀ s : String, (parse s).fullName = s ↔ ¬ ∃ rest : String, Simple rest ∧ s = "." ++ rest) ∧
      (∀ t t' : TypeName, Simple t.name → Simple t'.name → t.fullName = t'.fullName → t = t') ∧
      ∀ m : Module, (∀ type ∈ m.types, Simple type.name.name) → ∀ t : TypeName, Simple t.name →
        (∀ n, m.findType? t.fullName = some n ↔ m.FirstNamed t n) ∧
          (∀ n, m.findType? t.fullName = some n → m.importType t = (m, .ofIndex .typeDef n)) ∧
          (m.findType? t.fullName = none →
            (∀ type ∈ m.types, type.name ≠ t) ∧ (m.importType t).2.table? = some .typeRef) := by
  refine ⟨fun t => parse_fullName_iff, fun s => fullName_parse_iff, fun t t' => fullName_injective, fun m hm t ht => ?_⟩
  have hfirst : ∀ n, m.findType? t.fullName = some n ↔ m.FirstNamed t n := fun n => Module.findType?_fullName hm ht
  refine ⟨hfirst, fun n hn => ((hfirst n).1 hn).importType, fun hnone => ?_⟩
  have hforeign : ∀ type ∈ m.types, type.name ≠ t := by
    intro type htype heq
    exact Config.findType?_eq_none.1 hnone type htype (heq ▸ rfl)
  exact ⟨hforeign, Module.importType_foreign hforeign⟩

/-- two types of one name, behind one of another scope -/
def twoTexts : Module :=
  { name := "Assembly-CSharp"
    types := #[⟨⟨"UnityEngine.UI", "Text"⟩, .reference⟩, ⟨⟨"UnityEngine", "Text"⟩, .reference⟩,
      ⟨⟨"UnityEngine", "Text"⟩, .valueType⟩] }

/-- the first of the two is found, and a name that is in no scope is not -/
theorem names_round_trip_twoTexts :
    let text : TypeName := ⟨"UnityEngine", "Text"⟩
    (∀ type ∈ twoTexts.types, Simple type.name.name) ∧ Simple text.name ∧
      (parse "UnityEngine.Text").fullName = text.fullName ∧ parse "UnityEngine.Text" = text ∧
      twoTexts.findType? "UnityEngine.Text" = some 1 ∧ twoTexts.FirstNamed text 1 ∧
      twoTexts.importType text = (twoTexts, .ofIndex .typeDef 1) ∧
      twoTexts.findType? "Text" = none ∧ (twoTexts.importType ⟨"", "Text"⟩).2.table? = some .typeRef := by
  intro text
  have htypes : ∀ type ∈ twoTexts.types, Simple type.name.name := by decide
  have htext : Simple text.name := by decide
  have hwritten : text.fullName = "UnityEngine.Text" := by decide
  have hfull : (parse "UnityEngine.Text").fullName = text.fullName := by decide
  have hsimple : Simple (parse "UnityEngine.Text").name := by decide
  have hnamed : twoTexts.FirstNamed text 1 := by
    refine ⟨⟨_, rfl, rfl⟩, ?_⟩
    intro j hj type htype
    obtain rfl : j = 0 := by omega
    cases htype
    decide
  have hnone : twoTexts.findType? "Text" = none := Config.findType?_eq_none.2 (by decide)
  obtain ⟨-, -, hinjective, hmodule⟩ := names_round_trip
  have hsame : parse "UnityEngine.Text" = text := hinjective _ text hsimple htext hfull
  obtain ⟨hfirst, himport, -⟩ := hmodule twoTexts htypes text htext
  obtain ⟨-, -, hforeign⟩ := hmodule twoTexts htypes ⟨"", "Text"⟩ htext
  have hfound : twoTexts.findType? text.fullName = some 1 := (hfirst 1).2 hnamed
  have himported : twoTexts.importType text = (twoTexts, .ofIndex .typeDef 1) := himport 1 hfound
  rw [hwritten] at hfound
  exact ⟨htypes, htext, hfull, hsame, hfound, hnamed, himported, hnone, (hforeign hnone).2⟩

end TypeName

end CilGraft

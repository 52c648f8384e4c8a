/-
What the walk of the stack analysis sees of a body: the table of positions is the search for them, the walk starts where
control enters, and the successors of an arrival that passes are the moves from it.
-/
import CilGraft.Proofs.StackDiscipline

namespace CilGraft.Stack

/-! ## The table of positions -/

theorem foldl_set_of_not_mem {l : List (Placed × Nat)} {table : Array (Option Nat)} {s : Nat}
    (h : s ∉ l.map (·.1.slot)) :
    (l.foldl (fun table (placed, position) => table.setIfInBounds placed.slot (some position)) table)[s]? =
      table[s]? := by
  induction l generalizing table with
  | nil => rfl
  | cons x l ih =>
    simp only [List.map_cons, List.mem_cons, not_or] at h
    rw [List.foldl_cons, ih h.2, Array.getElem?_setIfInBounds_ne (Ne.symm h.1)]

theorem foldl_set_of_mem {l : List (Placed × Nat)} {table : Array (Option Nat)} (hl : (l.map (·.1.slot)).Nodup)
    {x : Placed × Nat} (hx : x ∈ l) (hs : x.1.slot < table.size) :
    (l.foldl (fun table (placed, position) => table.setIfInBounds placed.slot (some position)) table)[x.1.slot]? =
      some (some x.2) := by
  induction l generalizing table with
  | nil => cases hx
  | cons y l ih =>
    simp only [List.map_cons, List.nodup_cons] at hl
    rw [List.foldl_cons]
    rcases List.mem_cons.1 hx with rfl | hx
    · rw [foldl_set_of_not_mem hl.1]
      exact Array.getElem?_setIfInBounds_self_of_lt hs
    · exact ih hl.2 hx (by simpa using hs)

theorem positionTable_eq (b : Body) :
    positionTable b = b.code.toList.zipIdx.foldl
      (fun table (placed, position) => table.setIfInBounds placed.slot (some position))
      (Array.replicate b.size none) := by
  simp only [positionTable, ← Array.foldl_toList, Array.toList_zipIdx]

/-- **The table of positions is the search for them.** -/
theorem ofBody_position? {b : Body} (hb : b.WellFormed) (h : Handle) :
    (Code.ofBody b).position? h = b.positionOf? h := by
  have hmap : b.code.toList.zipIdx.map (·.1.slot) = b.code.toList.map (·.slot) := by
    rw [← Function.comp_def (fun x : Placed => x.slot), ← List.map_map, List.zipIdx_map_fst]
  have hnodup : (b.code.toList.zipIdx.map (·.1.slot)).Nodup := hmap ▸ hb.slots_nodup
  simp only [Code.ofBody]
  cases hp : b.positionOf? h with
  | some p =>
    obtain ⟨hn, hs⟩ := Body.handleAt?_eq_some.1 (hb.positionOf?_eq_some.1 hp)
    obtain ⟨placed, hplaced, hslot⟩ := Option.map_eq_some_iff.1 (List.getElem?_map ▸ hs)
    have hmem : (placed, p) ∈ b.code.toList.zipIdx := List.mk_mem_zipIdx_iff_getElem?.2 hplaced
    have hlt : placed.slot < (Array.replicate b.size (none : Option Nat)).size := by
      rw [Array.size_replicate, hslot]
      exact ((b.contains_iff h).1 (hb.contains_of_handleAt? (hb.positionOf?_eq_some.1 hp))).2
    rw [if_pos hn, positionTable_eq, ← hslot, foldl_set_of_mem hnodup hmem hlt]
    rfl
  | none =>
    split
    · rename_i hn
      have hge : ¬ h.slot < b.size := fun hlt => by
        have := hb.positionOf?_isSome.2 ((b.contains_iff h).2 ⟨hn, hlt⟩)
        rw [hp] at this; cases this
      have hout : h.slot ∉ b.code.toList.zipIdx.map (·.1.slot) := by
        rw [hmap, hb.slots.mem_iff, List.mem_range]
        exact hge
      rw [positionTable_eq, foldl_set_of_not_mem hout, Array.getElem?_eq_none (by simpa using hge)]
      rfl
    · rfl

section Code

variable {b : Body} (hb : b.WellFormed) {c : Context}
include hb

theorem locate_eq_ok {h : Handle} {p : Nat} : (Code.ofBody b).locate h = .ok p ↔ b.positionOf? h = some p := by
  simp only [Code.locate, ofBody_position? hb]
  cases b.positionOf? h <;> simp

theorem locate_eq_error {h : Handle} {e : Error} (he : (Code.ofBody b).locate h = .error e) :
    b.contains h = false := by
  simp only [Code.locate, ofBody_position? hb] at he
  rw [← Bool.not_eq_true, ← hb.positionOf?_isSome]
  cases hp : b.positionOf? h with
  | none => simp
  | some p => rw [hp] at he; cases he

theorem clauseEntries_eq_ok {cl : Clause} {es : List Arrival} (hes : (Code.ofBody b).clauseEntries cl = .ok es)
    (a : Arrival) : a ∈ es ↔
      (∃ p, b.positionOf? cl.handlerStart = some p ∧ a = ⟨p, if cl.pushesException then 1 else 0⟩) ∨
        ∃ f p, cl.filterStart = some f ∧ b.positionOf? f = some p ∧ a = ⟨p, 1⟩ := by
  obtain ⟨p, hp, hes⟩ := bind_eq_ok.1 hes
  rw [locate_eq_ok hb] at hp
  cases hf : cl.filterStart with
  | none =>
    simp only [hf, pure, Except.pure, Except.ok.injEq] at hes
    subst hes
    simp [hp]
  | some f =>
    simp only [hf] at hes
    obtain ⟨q, hq, hes⟩ := bind_eq_ok.1 hes
    rw [locate_eq_ok hb] at hq
    simp only [pure, Except.pure, Except.ok.injEq] at hes
    subst hes
    simp [hp, hq]

theorem clauseEntries_ne_error {cl : Clause} (hc : cl ∈ b.clauses) (e : Error) :
    (Code.ofBody b).clauseEntries cl ≠ .error e := by
  obtain ⟨hstart, hfilter⟩ := starts_of_wellFormed hb cl hc
  intro he
  rcases bind_eq_error.1 he with he | ⟨p, -, he⟩
  · rw [locate_eq_error hb he] at hstart; cases hstart
  · cases hf : cl.filterStart with
    | none => simp [hf, pure, Except.pure] at he
    | some f =>
      simp only [hf] at he
      rcases bind_eq_error.1 he with he | ⟨q, -, he⟩
      · have := hfilter f (Option.mem_def.2 hf)
        rw [locate_eq_error hb he] at this; cases this
      · simp [pure, Except.pure] at he

/-- **The walk starts where control enters.** -/
theorem entries_eq_ok : ∃ es, (Code.ofBody b).entries = .ok es ∧ ∀ a, a ∈ es ↔ Entry b a := by
  have hsize : (Code.ofBody b).instructions.isEmpty = false ↔ 0 < b.size := by
    simp [Code.ofBody, Body.size, Nat.pos_iff_ne_zero]
  cases hm : (Code.ofBody b).clauses.mapM (Code.ofBody b).clauseEntries with
  | error e =>
    obtain ⟨cl, hc, he⟩ := mapM_eq_error hm
    exact absurd he (clauseEntries_ne_error hb (by simpa [Code.ofBody] using hc) e)
  | ok ess =>
    refine ⟨_, by simp only [Code.entries, hm]; rfl, fun a => ?_⟩
    have hclauses : a ∈ ess.flatten ↔ ∃ cl ∈ b.clauses, ∃ es, (Code.ofBody b).clauseEntries cl = .ok es ∧ a ∈ es := by
      rw [List.mem_flatten]
      constructor
      · rintro ⟨es, hes, ha⟩
        obtain ⟨cl, hc, hok⟩ := mem_of_mapM hm hes
        exact ⟨cl, by simpa [Code.ofBody] using hc, es, hok, ha⟩
      · rintro ⟨cl, hc, es, hok, ha⟩
        obtain ⟨es', hes', hok'⟩ := result_of_mapM hm (x := cl) (by simpa [Code.ofBody] using hc)
        rw [hok] at hok'; cases hok'
        exact ⟨es, hes', ha⟩
    rw [List.mem_append, hclauses]
    constructor
    · rintro (ha | ⟨cl, hc, es, hok, ha⟩)
      · split at ha
        · cases ha
        · rename_i hne
          obtain rfl := List.mem_singleton.1 ha
          exact .start (hsize.1 (by simpa using hne))
      · rcases (clauseEntries_eq_ok hb hok a).1 ha with ⟨p, hp, rfl⟩ | ⟨f, p, hf, hp, rfl⟩
        · exact .handler hc hp
        · exact .filter hc hf hp
    · intro ha
      have hok : ∀ cl ∈ b.clauses, ∃ es, (Code.ofBody b).clauseEntries cl = .ok es := fun cl hc => by
        cases hes : (Code.ofBody b).clauseEntries cl with
        | error e => exact absurd hes (clauseEntries_ne_error hb hc e)
        | ok es => exact ⟨es, rfl⟩
      cases ha with
      | start h =>
        left
        rw [if_neg (by rw [hsize.2 h]; decide)]
        exact List.mem_singleton_self _
      | handler hc hp =>
        obtain ⟨es, hes⟩ := hok _ hc
        exact Or.inr ⟨_, hc, es, hes, (clauseEntries_eq_ok hb hes _).2 (Or.inl ⟨_, hp, rfl⟩)⟩
      | filter hc hf hp =>
        obtain ⟨es, hes⟩ := hok _ hc
        exact Or.inr ⟨_, hc, es, hes, (clauseEntries_eq_ok hb hes _).2 (Or.inr ⟨_, _, hf, hp, rfl⟩)⟩

omit hb in
theorem fallThrough_eq_ok {i : Instruction} {p n : Nat} {next : List Arrival}
    (h : (Code.ofBody b).fallThrough p i n = .ok next) :
    (i.flow.isTerminal = false → p + 1 < b.size) ∧
      ∀ a, a ∈ next ↔ i.flow.isTerminal = false ∧ a = ⟨p + 1, n⟩ := by
  have hsize : (Code.ofBody b).instructions.size = b.size := by simp [Code.ofBody, Body.size]
  simp only [Code.fallThrough, hsize] at h
  split_ifs at h with ht hlt
  · injection h with h
    subst h
    simp [ht]
  · injection h with h
    subst h
    simp [ht, hlt]

omit hb in
theorem fallThrough_eq_error {i : Instruction} {p n : Nat} {e : Error}
    (h : (Code.ofBody b).fallThrough p i n = .error e) : i.flow.isTerminal = false ∧ ¬ p + 1 < b.size := by
  have hsize : (Code.ofBody b).instructions.size = b.size := by simp [Code.ofBody, Body.size]
  simp only [Code.fallThrough, hsize] at h
  split_ifs at h with ht hlt
  exact ⟨by simpa using ht, hlt⟩

/-- **An arrival that is looked at without an error** is admissible, and its successors are the moves from it. -/
theorem visit_eq_ok {i : Instruction} {a : Arrival} {after : Nat} {next : List Arrival}
    (hi : b.instructionAt? a.position = some i) (h : (Code.ofBody b).visit c i a = .ok (after, next)) :
    Admissible c b a ∧ (∃ e, c.effect i = .ok e ∧ after = e.after a.depth) ∧ ∀ a', a' ∈ next ↔ Moves c b a a' := by
  obtain ⟨p, d⟩ := a
  obtain ⟨e, he, h⟩ := bind_eq_ok.1 h
  obtain ⟨n, hn, h⟩ := bind_eq_ok.1 h
  obtain ⟨hpops, rfl⟩ := depthAfter_eq_ok.1 hn
  split_ifs at h with hret
  · cases h
  obtain ⟨ps, hps, h⟩ := bind_eq_ok.1 h
  obtain ⟨next', hnext, h⟩ := bind_eq_ok.1 h
  obtain ⟨hlast, hnext⟩ := fallThrough_eq_ok hnext
  injection h with h
  injection h with h1 h2
  subst h1; subst h2
  refine ⟨⟨i, e, hi, he, hpops, fun hr => ?_, fun t ht => ?_, hlast⟩, ⟨e, he, rfl⟩, fun a' => ?_⟩
  · by_contra hne
    exact hret ⟨hr, hne⟩
  · obtain ⟨q, -, hq⟩ := result_of_mapM hps ht
    exact hb.positionOf?_isSome.1 (by rw [(locate_eq_ok hb).1 hq]; rfl)
  · rw [List.mem_append, hnext, List.mem_map]
    constructor
    · rintro (⟨q, hq, rfl⟩ | ⟨hterm, rfl⟩)
      · obtain ⟨t, ht, hloc⟩ := mem_of_mapM hps hq
        exact .jump hi he ht ((locate_eq_ok hb).1 hloc)
      · exact .next hi he hterm
    · intro hm
      cases hm with
      | jump hi' he' ht hq =>
        rw [hi] at hi'; cases hi'
        rw [he] at he'; cases he'
        obtain ⟨q', hq', hloc⟩ := result_of_mapM hps ht
        rw [(locate_eq_ok hb).1 hloc] at hq; cases hq
        exact Or.inl ⟨_, hq', rfl⟩
      | next hi' he' hterm =>
        rw [hi] at hi'; cases hi'
        rw [he] at he'; cases he'
        exact Or.inr ⟨hterm, rfl⟩

theorem visit_eq_error {i : Instruction} {a : Arrival} {e : Error} (hi : b.instructionAt? a.position = some i)
    (h : (Code.ofBody b).visit c i a = .error e) : ¬ Admissible c b a := by
  rintro ⟨i', e', hi', he', hpops, hret, htargets, hlast⟩
  rw [hi] at hi'; cases hi'
  rcases bind_eq_error.1 h with h | ⟨e₁, he₁, h⟩
  · rw [he'] at h; cases h
  rw [he'] at he₁; cases he₁
  rcases bind_eq_error.1 h with h | ⟨n, -, h⟩
  · rw [depthAfter_eq_ok.2 ⟨hpops, rfl⟩] at h; cases h
  split_ifs at h with hr
  · exact hr.2 (hret hr.1)
  rcases bind_eq_error.1 h with h | ⟨ps, -, h⟩
  · obtain ⟨t, ht, hloc⟩ := mapM_eq_error h
    have := htargets t ht
    rw [locate_eq_error hb hloc] at this; cases this
  rcases bind_eq_error.1 h with h | ⟨next, -, h⟩
  · obtain ⟨hterm, hnot⟩ := fallThrough_eq_error h
    exact hnot (hlast hterm)
  · cases h

end Code

end CilGraft.Stack

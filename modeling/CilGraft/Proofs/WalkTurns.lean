/-
The turns of the loop in the stack analysis: how many there are, and that each stays in range.

- `Walk.Turns`: the loop from a walk until it returns, with the walk at the start of each turn. `turns_run`: from every
  walk on it returns, and with the result of `run`.
- `Walk.records`: the arrivals that the turns record. `Turns.records_nodup`: no position is recorded twice;
  `Turns.recorded_iff`: the table holds what the turns before have recorded.
- `Walk.due`: the pending arrivals and all that positions without a depth can still make pending. `step_due`: each turn
  takes one of them away, so no more are taken than are due at the start (`Turns.taken_le`).
- `step_subtracts`: operands are taken off a depth only where there are enough of them.
- `Turns.bounded`, `analyze_turns`: all this of the analysis of every body that can be built.
-/
import CilGraft.Proofs.WalkExact

namespace CilGraft.Stack

/-- the most arrivals that the visit of a position makes pending: one at each target and one at the next instruction -/
def Code.outgoing (code : Code) (position : Nat) : Nat :=
  code.instructions[position]?.elim 0 fun i => i.targets.length + 1

theorem Code.visit_length {code : Code} {c : Context} {i : Instruction} {a : Arrival} {after : Nat}
    {next : List Arrival} (h : code.visit c i a = .ok (after, next)) : next.length ≤ i.targets.length + 1 := by
  obtain ⟨e, -, h⟩ := bind_eq_ok.1 h
  obtain ⟨n, -, h⟩ := bind_eq_ok.1 h
  split_ifs at h with hret
  · cases h
  obtain ⟨ps, hps, h⟩ := bind_eq_ok.1 h
  obtain ⟨behind, hbehind, h⟩ := bind_eq_ok.1 h
  have htargets : i.targets.length = ps.length := (mapM_eq_ok.1 hps).length_eq
  have hnext : behind.length ≤ 1 := by
    simp only [fallThrough] at hbehind
    split_ifs at hbehind with hterm hlast
    · cases hbehind
      exact Nat.zero_le 1
    · cases hbehind
      exact le_rfl
  cases h
  rw [List.length_append, List.length_map]
  omega

theorem Code.clauseEntries_length {code : Code} {cl : Clause} {es : List Arrival} (h : code.clauseEntries cl = .ok es) :
    es.length ≤ 2 := by
  obtain ⟨p, -, h⟩ := bind_eq_ok.1 h
  cases hf : cl.filterStart with
  | none =>
    simp only [hf] at h
    cases h
    exact Nat.le_succ 1
  | some f =>
    simp only [hf] at h
    obtain ⟨q, -, h⟩ := bind_eq_ok.1 h
    cases h
    exact le_rfl

/-- the walk starts with one arrival at the first instruction and at most two for each clause -/
theorem Code.entries_length {code : Code} {es : List Arrival} (h : code.entries = .ok es) :
    es.length ≤ 1 + 2 * code.clauses.length := by
  obtain ⟨ess, hess, h⟩ := bind_eq_ok.1 h
  cases h
  have hstart : (if code.instructions.isEmpty then [] else [Arrival.mk 0 0]).length ≤ 1 := by
    split <;> simp
  have hclauses : code.clauses.length = ess.length := (mapM_eq_ok.1 hess).length_eq
  have hsum : (ess.map List.length).sum ≤ (ess.map List.length).length • 2 :=
    List.sum_le_card_nsmul _ 2 (List.forall_mem_map.2 fun es hes => by
      obtain ⟨cl, -, hcl⟩ := mem_of_mapM hess hes
      exact clauseEntries_length hcl)
  rw [List.length_map, smul_eq_mul] at hsum
  rw [List.length_append, List.length_flatten]
  omega

theorem sum_range_outgoing (l : List Instruction) :
    ∑ p ∈ Finset.range l.length, (l[p]?.elim 0 fun i => i.targets.length + 1) =
      (l.map fun i => i.targets.length + 1).sum := by
  induction l with
  | nil => rfl
  | cons i l ih =>
    rw [List.length_cons, Finset.sum_range_succ', List.map_cons, List.sum_cons, ← ih, Nat.add_comm]
    rfl

namespace Walk

variable {code : Code} {c : Context} {w w' : Walk} {ws : List Walk} {r : Except Error Walk}

/-! ## The loop, turn by turn -/

/-- the loop from a walk until it returns: the walks at the start of its turns, and the result -/
inductive Turns (code : Code) (c : Context) : Walk → List Walk → Except Error Walk → Prop where
  | done {w w' : Walk} (h : w.step code c = .done w') : Turns code c w [w] (.ok w')
  | failed {w : Walk} {e : Error} (h : w.step code c = .failed e) : Turns code c w [w] (.error e)
  | more {w w' : Walk} {ws : List Walk} {r : Except Error Walk} (h : w.step code c = .more w')
      (hrest : Turns code c w' ws r) : Turns code c w (w :: ws) r

/-- **The loop returns**, from every walk on. -/
theorem turns_run (code : Code) (c : Context) (w : Walk) : ∃ ws, Turns code c w ws (w.run code c) := by
  fun_induction run code c w with
  | case1 w w' h => exact ⟨[w], .done h⟩
  | case2 w e h => exact ⟨[w], .failed h⟩
  | case3 w w' h ih =>
    obtain ⟨ws, hws⟩ := ih
    exact ⟨w :: ws, .more h hws⟩

/-- the arrivals that the turns take off; the turn that finds none pending is the last one -/
def taken (ws : List Walk) : List Arrival := ws.filterMap (·.pending.head?)

/-- the arrival that the next turn records: the one to be looked at, if its position has no depth yet -/
def fresh? (w : Walk) : Option Arrival := w.pending.head?.filter fun a => w.depths[a.position]? = some none

/-- the arrivals that the turns record, one that is then found faulty included -/
def records (ws : List Walk) : List Arrival := ws.filterMap fresh?

theorem fresh?_eq_some {a : Arrival} :
    w.fresh? = some a ↔ w.pending.head? = some a ∧ w.depths[a.position]? = some none := by
  simp [fresh?, Option.filter_eq_some_iff]

/-- **What a turn that goes on does**: it takes an arrival off, and either it leaves the table as it is, or it records
the arrival and puts the successors of the instruction in its place. -/
theorem step_more (h : w.step code c = .more w') : ∃ a rest, w.pending = a :: rest ∧
    ((w.fresh? = none ∧ w'.depths = w.depths ∧ w'.pending = rest) ∨
      (w.fresh? = some a ∧ (∃ hlt, w'.depths = w.depths.set a.position (some a.depth) hlt) ∧
        ∃ next, next.length ≤ code.outgoing a.position ∧ w'.pending = next ++ rest)) := by
  obtain ⟨depths, pending, peak⟩ := w
  cases pending with
  | nil => simp [step] at h
  | cons a rest =>
    refine ⟨a, rest, rfl, ?_⟩
    simp only [step] at h
    split at h
    · rename_i hlt
      split at h
      · rename_i recorded hrecorded
        split_ifs at h
        cases h
        exact Or.inl ⟨by simp [fresh?, Array.getElem?_eq_getElem hlt, hrecorded], rfl, rfl⟩
      · rename_i hnone
        have hfresh : fresh? ⟨depths, a :: rest, peak⟩ = some a :=
          fresh?_eq_some.2 ⟨rfl, by rw [Array.getElem?_eq_getElem hlt, hnone]⟩
        split at h
        · cases h
          exact Or.inr ⟨hfresh, ⟨hlt, rfl⟩, [], Nat.zero_le _, rfl⟩
        · rename_i i hi
          split at h
          · cases h
          · rename_i after next hvisit
            cases h
            refine Or.inr ⟨hfresh, ⟨hlt, rfl⟩, next.reverse, ?_, rfl⟩
            rw [List.length_reverse, Code.outgoing, hi]
            exact Code.visit_length hvisit
    · rename_i hge
      cases h
      exact Or.inl ⟨by simp [fresh?, Array.getElem?_eq_none (Nat.le_of_not_lt hge)], rfl, rfl⟩

/-! ## What is recorded -/

/-- a turn records the fresh arrival, and nothing that was recorded is lost -/
theorem step_recorded (h : w.step code c = .more w') (a : Arrival) :
    w'.Recorded a ↔ w.Recorded a ∨ w.fresh? = some a := by
  obtain ⟨a', rest, hpending, ⟨hfresh, hdepths, -⟩ | ⟨hfresh, ⟨hlt, hdepths⟩, -⟩⟩ := step_more h
  · rw [hfresh, Recorded, hdepths]
    simp [Recorded]
  · have hnone := (Array.getElem?_eq_some_iff.1 (fresh?_eq_some.1 hfresh).2).2
    obtain ⟨depths', pending', peak'⟩ := w'
    subst hdepths
    rw [recorded_set hlt hnone pending' peak' a, hfresh, Option.some.injEq, or_comm, eq_comm]

/-- a position that has no depth behind a turn had none before, and is not the one that the turn records -/
theorem step_unrecorded (h : w.step code c = .more w') {p : Nat} (hp : w'.depths[p]? = some none) :
    w.depths[p]? = some none ∧ ∀ a, w.fresh? = some a → a.position ≠ p := by
  obtain ⟨a, rest, -, ⟨hfresh, hdepths, -⟩ | ⟨hfresh, ⟨hlt, hdepths⟩, -⟩⟩ := step_more h
  · rw [hdepths] at hp
    exact ⟨hp, by simp [hfresh]⟩
  · rw [hdepths, Array.getElem?_set] at hp
    split_ifs at hp with heq
    · simp at hp
    · refine ⟨hp, fun a' ha' => ?_⟩
      cases hfresh.symm.trans ha'
      exact heq

theorem records_cons (w : Walk) (ws : List Walk) : records (w :: ws) = w.fresh?.toList ++ records ws := by
  cases h : w.fresh? <;> simp [records, h]

theorem mem_records_cons {a : Arrival} : a ∈ records (w :: ws) ↔ w.fresh? = some a ∨ a ∈ records ws := by
  rw [records_cons, List.mem_append, Option.mem_toList]

/-- what the turns record had no depth when the loop began -/
theorem Turns.unrecorded (h : Turns code c w ws r) : ∀ a ∈ records ws, w.depths[a.position]? = some none := by
  induction h with
  | done h | failed h =>
    intro a ha
    exact (fresh?_eq_some.1 ((mem_records_cons.1 ha).resolve_right List.not_mem_nil)).2
  | more hstep _ ih =>
    intro a ha
    rcases mem_records_cons.1 ha with ha | ha
    · exact (fresh?_eq_some.1 ha).2
    · exact (step_unrecorded hstep (ih a ha)).1

/-- **No position is recorded twice.** -/
theorem Turns.records_nodup (h : Turns code c w ws r) : ((records ws).map (·.position)).Nodup := by
  have hsingle : ∀ w : Walk, ((records [w]).map (·.position)).Nodup := fun w => by
    rw [records_cons]
    cases w.fresh? <;> simp [records]
  induction h with
  | done h => exact hsingle _
  | failed h => exact hsingle _
  | @more w w' ws r hstep hrest ih =>
    rw [records_cons, List.map_append]
    cases hfresh : w.fresh? with
    | none => exact ih
    | some a =>
      -- what the rest of the loop records had no depth behind this turn, and the fresh arrival has one then
      refine List.nodup_cons.2 ⟨fun hmem => ?_, ih⟩
      obtain ⟨a', ha', hposition⟩ := List.mem_map.1 hmem
      exact (step_unrecorded hstep (hrest.unrecorded a' ha')).2 a hfresh hposition.symm

/-- **The table holds what the turns before have recorded**, besides what it held when the loop began. -/
theorem Turns.recorded_iff (h : Turns code c w ws r) {k : Nat} (hk : ws[k]? = some w') (a : Arrival) :
    w'.Recorded a ↔ w.Recorded a ∨ a ∈ records (ws.take k) := by
  induction h generalizing k with
  | done h | failed h =>
    obtain ⟨hlt, rfl⟩ := List.getElem?_eq_some_iff.1 hk
    obtain rfl : k = 0 := by simpa using hlt
    simp [records]
  | more hstep _ ih =>
    cases k with
    | zero =>
      cases hk
      simp [records]
    | succ k =>
      rw [ih hk, step_recorded hstep, List.take_succ_cons, mem_records_cons, or_assoc]

/-! ## How many arrivals are taken -/

/-- the arrivals that are pending, and those that positions without a depth can still make pending -/
def due (code : Code) (w : Walk) : Nat :=
  w.pending.length + ∑ p ∈ Finset.range w.depths.size with w.depths[p]? = some none, code.outgoing p

/-- **A turn that goes on takes one of the arrivals that are due.** What the visit of a position makes pending was due
while the position had no depth. -/
theorem step_due (h : w.step code c = .more w') : w'.due code < w.due code := by
  obtain ⟨a, rest, hpending, ⟨-, hdepths, hrest⟩ | ⟨hfresh, ⟨hlt, hdepths⟩, next, hnext, hrest⟩⟩ := step_more h
  · simp only [due, hpending, hdepths, hrest, List.length_cons]
    omega
  · have hmem : a.position ∈ (Finset.range w.depths.size).filter fun p => w.depths[p]? = some none :=
      Finset.mem_filter.2 ⟨Finset.mem_range.2 hlt, (fresh?_eq_some.1 hfresh).2⟩
    have herase : ((Finset.range w'.depths.size).filter fun p => w'.depths[p]? = some none) =
        ((Finset.range w.depths.size).filter fun p => w.depths[p]? = some none).erase a.position := by
      ext p
      rw [hdepths, Array.size_set, Finset.mem_erase, Finset.mem_filter, Finset.mem_filter, Array.getElem?_set]
      by_cases hp : a.position = p
      · simp [hp]
      · simp [hp, Ne.symm hp]
    -- the position leaves the sum with all that its visit could make pending
    have hsum := Finset.add_sum_erase _ code.outgoing hmem
    simp only [due, herase, hpending, hrest, List.length_cons, List.length_append]
    omega

/-- a turn that goes on has taken one arrival -/
theorem taken_cons (h : w.step code c = .more w') (ws : List Walk) :
    (taken (w :: ws)).length = (taken ws).length + 1 := by
  obtain ⟨a, rest, hpending, -⟩ := step_more h
  simp [taken, hpending]

/-- a loop that goes on takes one arrival more than the rest of it -/
theorem turns_more (h : w.step code c = .more w') {n : Nat}
    (hrest : ∃ ws r, Turns code c w' ws r ∧ (taken ws).length = n) :
    ∃ ws r, Turns code c w ws r ∧ (taken ws).length = n + 1 := by
  obtain ⟨ws, r, hws, rfl⟩ := hrest
  exact ⟨w :: ws, r, .more h hws, taken_cons h ws⟩

/-- **No more arrivals are taken than are due**, also if the last one is found faulty. -/
theorem Turns.taken_le (h : Turns code c w ws r) : (taken ws).length ≤ w.due code := by
  have hsingle : ∀ w : Walk, (taken [w]).length ≤ w.due code := fun w => by
    cases hpending : w.pending with
    | nil => simp [taken, hpending]
    | cons a rest =>
      simp only [taken, due, hpending, List.filterMap_cons, List.head?_cons, List.filterMap_nil, List.length_cons,
        List.length_nil]
      omega
  induction h with
  | done h => exact hsingle _
  | failed h => exact hsingle _
  | @more w w' ws r hstep _ ih =>
    have htaken := taken_cons hstep ws
    have hdue := step_due hstep
    omega

/-! ## The loop over a body -/

/-- at the start nothing has a depth, so everything that the code can make pending is due -/
theorem due_start (b : Body) (es : List Arrival) :
    due (Code.ofBody b) ⟨Array.replicate b.size none, es, 0⟩ =
      es.length + (b.instructions.map fun i => i.targets.length + 1).sum := by
  have hall : ((Finset.range (Array.replicate b.size (none : Option Nat)).size).filter
      fun p => (Array.replicate b.size (none : Option Nat))[p]? = some none) = Finset.range b.size := by
    rw [Array.size_replicate]
    refine Finset.filter_true_of_mem fun p hp => ?_
    rw [Array.getElem?_replicate, if_pos (Finset.mem_range.1 hp)]
  have houtgoing : ∀ p, (Code.ofBody b).outgoing p = b.instructions[p]?.elim 0 fun i => i.targets.length + 1 :=
    fun p => by rw [Code.outgoing, ofBody_instructions, Body.instructions_getElem?]
  simp only [due, hall, houtgoing]
  rw [← Body.instructions_length, sum_range_outgoing]

/-- The turn that records an arrival fails at once if the instruction takes more operands than there are. Otherwise, if
it goes on, it is with the difference of whole numbers, which is then not negative. -/
def Subtracts (c : Context) (b : Body) (w : Walk) (a : Arrival) (i : Instruction) (e : StackEffect) : Prop :=
  (a.depth < e.pops.toNat ∧ w.step (Code.ofBody b) c = .failed (.stackUnderflow a.position e.pops.toNat a.depth)) ∨
    (e.pops.toNat ≤ a.depth ∧ ∀ w', w.step (Code.ofBody b) c = .more w' →
      ∃ n : ℕ, (n : ℤ) = a.depth - e.pops.toNat + e.pushes.toNat ∧ w'.peak = max (max w.peak a.depth) n ∧
        ∀ a' ∈ w'.pending, a' ∈ w.pending ∨ a'.depth = n ∨ (i.flow = .leave ∧ a'.depth = 0))

variable {b : Body} (hb : b.WellFormed)
include hb

/-- the invariant of the walk holds at every turn -/
theorem Turns.inv (h : Turns (Code.ofBody b) c w ws r) (hw : Inv c b w) : ∀ w' ∈ ws, Inv c b w' := by
  induction h with
  | done h | failed h => exact List.forall_mem_singleton.2 hw
  | more hstep _ ih => exact List.forall_mem_cons.2 ⟨hw, ih (step_inv hb hw hstep)⟩

/-- **Operands are taken off a depth only where there are enough of them.** -/
theorem step_subtracts {a : Arrival} {i : Instruction} {e : StackEffect} (ha : w.fresh? = some a)
    (hi : b.instructionAt? a.position = some i) (he : c.effect i = .ok e) : Subtracts c b w a i e := by
  obtain ⟨depths, pending, peak⟩ := w
  obtain ⟨hhead, hnone⟩ := fresh?_eq_some.1 ha
  obtain ⟨rest, rfl⟩ := List.head?_eq_some_iff.1 hhead
  obtain ⟨hlt, hfresh⟩ := Array.getElem?_eq_some_iff.1 hnone
  have hcode : (Code.ofBody b).instructions[a.position]? = some i := (ofBody_instructions b _).trans hi
  rcases Nat.lt_or_ge a.depth e.pops.toNat with hlack | henough
  · have hvisit : (Code.ofBody b).visit c i a = .error (.stackUnderflow a.position e.pops.toNat a.depth) :=
      bind_eq_error.2 (Or.inr ⟨e, he, bind_eq_error.2 (Or.inl (if_pos hlack))⟩)
    exact Or.inl ⟨hlack, step_visit_error hlt hfresh hcode hvisit⟩
  · refine Or.inr ⟨henough, fun w' hstep => ?_⟩
    cases hvisit : (Code.ofBody b).visit c i a with
    | error err =>
      rw [step_visit_error hlt hfresh hcode hvisit] at hstep
      cases hstep
    | ok visited =>
      obtain ⟨after, next⟩ := visited
      rw [step_visit hlt hfresh hcode hvisit] at hstep
      cases hstep
      obtain ⟨-, ⟨e', he', rfl⟩, hnext⟩ := visit_eq_ok hb hi hvisit
      cases he.symm.trans he'
      refine ⟨e.after a.depth, ?_, rfl, fun a' ha' => ?_⟩
      · rw [StackEffect.after]
        omega
      · rcases List.mem_append.1 ha' with ha' | ha'
        · refine Or.inr ?_
          cases (hnext a').1 (List.mem_reverse.1 ha') with
          | jump hi' he' ht hq =>
            cases hi.symm.trans hi'
            cases he.symm.trans he'
            split_ifs with hleave
            · exact Or.inr ⟨hleave, rfl⟩
            · exact Or.inl rfl
          | next hi' he' hn =>
            cases hi.symm.trans hi'
            cases he.symm.trans he'
            exact Or.inl rfl
        · exact Or.inl (List.mem_cons_of_mem a ha')

/-- what the loop over a body keeps to in all its turns -/
structure Bounded (c : Context) (b : Body) (ws : List Walk) : Prop where
  /-- each position is recorded at most once -/
  once : ((records ws).map (·.position)).Nodup
  /-- the table holds what was recorded in the turns before -/
  table : ∀ k w, ws[k]? = some w → ∀ a, w.Recorded a ↔ a ∈ records (ws.take k)
  /-- every pending arrival has a place in the table -/
  inRange : ∀ w ∈ ws, w.depths.size = b.size ∧ ∀ a ∈ w.pending, a.position < b.size
  /-- operands are taken off a depth only where there are enough of them -/
  subtracts : ∀ w ∈ ws, ∀ a i e, w.fresh? = some a → b.instructionAt? a.position = some i → c.effect i = .ok e →
    Subtracts c b w a i e
  /-- the arrivals that are taken, the one at which the loop fails included -/
  taken : (taken ws).length ≤ 1 + 2 * b.clauses.size + (b.instructions.map fun i => i.targets.length + 1).sum

theorem Turns.bounded {es : List Arrival} (hes : (Code.ofBody b).entries = .ok es)
    (h : Turns (Code.ofBody b) c ⟨Array.replicate b.size none, es.reverse, 0⟩ ws r) : Bounded c b ws := by
  have hentry : ∀ a, a ∈ es.reverse ↔ Entry b a := by
    obtain ⟨es', hes', hentry⟩ := entries_eq_ok hb
    cases hes.symm.trans hes'
    exact fun a => List.mem_reverse.trans (hentry a)
  refine ⟨h.records_nodup, fun k w hk a => ?_, fun w hw => ?_, fun w _ a i e => step_subtracts hb, ?_⟩
  · have hnone : ¬ Recorded ⟨Array.replicate b.size none, es.reverse, 0⟩ a := by
      simp [Recorded, Array.getElem?_replicate]
    rw [h.recorded_iff hk a]
    exact or_iff_right hnone
  · have hinv := h.inv hb (inv_start hb hentry) w hw
    exact ⟨hinv.size, fun a ha => (hinv.pending a ha).2⟩
  · have hlength := Code.entries_length hes
    have hclauses : (Code.ofBody b).clauses.length = b.clauses.size := by simp [Code.ofBody]
    have htaken := h.taken_le
    rw [due_start, List.length_reverse] at htaken
    omega

end Walk

/-- **The loop of the analysis returns and stays in range.** For every body that can be built, every resolver and every
signature: the arrivals to start with are found, targets are found only at positions of the body, the loop returns what
the analysis tells, and all its turns are `Bounded`. -/
theorem analyze_turns (resolve : Resolver) (signature : MethodSig) (b : Body) (hb : b.Reachable) :
    let c := Context.ofSignature resolve signature
    let code := Code.ofBody b
    ∃ es, code.entries = .ok es ∧ (∀ h p, code.locate h = .ok p → p < b.size) ∧
      let start : Walk := ⟨Array.replicate b.size none, es.reverse, 0⟩
      (∃ ws r, start.Turns code c ws r ∧ analyze c b = r.map fun w => ⟨w.depths, w.peak⟩) ∧
        ∀ ws r, start.Turns code c ws r → Walk.Bounded c b ws := by
  intro c code
  have hwf := hb.wellFormed
  obtain ⟨es, hes, -⟩ := entries_eq_ok hwf
  refine ⟨es, hes, fun h p hp => hwf.lt_size_of_positionOf? ((locate_eq_ok hwf).1 hp), ?_, fun ws r h => ?_⟩
  · obtain ⟨ws, hws⟩ := Walk.turns_run code c ⟨Array.replicate b.size none, es.reverse, 0⟩
    exact ⟨ws, _, hws, analyze_eq_run hes⟩
  · exact h.bounded hwf hes

/-- a switch that names one instruction twice, a branch operand on an instruction that does not branch, a loop of one
instruction, and two regions that overlap and have one handler, which is a filter too -/
def tangle : Body :=
  { number := 1
    code := #[⟨0, { opcode := .ldcI40 }⟩, ⟨1, ⟨.switch, .switch [⟨1, 0⟩, ⟨1, 0⟩]⟩⟩, ⟨2, ⟨.nop, .target ⟨1, 0⟩⟩⟩,
      ⟨3, ⟨.br, .target ⟨1, 3⟩⟩⟩, ⟨4, { opcode := .pop }⟩, ⟨5, { opcode := .endfinally }⟩]
    clauses := #[{ flags := 0, tryStart := ⟨1, 0⟩, tryEnd := some ⟨1, 2⟩, handlerStart := ⟨1, 4⟩ },
      { flags := 1, tryStart := ⟨1, 1⟩, tryEnd := some ⟨1, 3⟩, handlerStart := ⟨1, 4⟩, filterStart := some ⟨1, 4⟩ }] }

theorem tangle_reachable : tangle.Reachable := by
  have h0 := (Body.Reachable.empty 1).push { opcode := .ldcI40 } (by simp [Instruction.targets])
  have h1 := h0.push ⟨.switch, .switch [⟨1, 0⟩, ⟨1, 0⟩]⟩
    (by simp [Instruction.targets, Body.Issued, Body.size, Body.push])
  have h2 := h1.push ⟨.nop, .target ⟨1, 0⟩⟩ (by simp [Instruction.targets, Body.Issued, Body.size, Body.push])
  have h3 := @Body.Reachable.appendDraft _ _ { items := #[.jump .br "self"], labels := [("self", 0)] } _ h2 (by simp)
    (by cbv)
  have h4 := h3.push { opcode := .pop } (by simp [Instruction.targets])
  have h5 := h4.push { opcode := .endfinally } (by simp [Instruction.targets])
  have h6 := @Body.Reachable.addClause _ _
    { flags := 0, tryStart := ⟨1, 0⟩, tryEnd := some ⟨1, 2⟩, handlerStart := ⟨1, 4⟩ } h5 (by cbv)
  exact @Body.Reachable.addClause _ _
    { flags := 1, tryStart := ⟨1, 1⟩, tryEnd := some ⟨1, 3⟩, handlerStart := ⟨1, 4⟩, filterStart := some ⟨1, 4⟩ } h6
    (by cbv)

/-- of the 15 arrivals that the bound allows for, 12 are taken -/
theorem analyze_turns_tangle :
    let c := Context.ofSignature (fun _ => none) (.static .void [])
    let start : Walk := ⟨Array.replicate 6 none, [⟨4, 1⟩, ⟨4, 1⟩, ⟨4, 1⟩, ⟨0, 0⟩], 0⟩
    tangle.Reachable ∧ 1 + 2 * tangle.clauses.size + (tangle.instructions.map fun i => i.targets.length + 1).sum = 15 ∧
      ∃ ws r, start.Turns (Code.ofBody tangle) c ws r ∧ (Walk.taken ws).length = 12 ∧ Walk.Bounded c tangle ws := by
  intro c start
  have hentries : (Code.ofBody tangle).entries = .ok [⟨0, 0⟩, ⟨4, 1⟩, ⟨4, 1⟩, ⟨4, 1⟩] := by cbv
  obtain ⟨es, hes, -, -, hbounded⟩ := analyze_turns (fun _ => none) (.static .void []) tangle tangle_reachable
  cases hentries.symm.trans hes
  obtain ⟨ws, r, hws, htaken⟩ : ∃ ws r, start.Turns (Code.ofBody tangle) c ws r ∧ (Walk.taken ws).length = 12 := by
    iterate 12 refine Walk.turns_more (by cbv) ?_
    exact ⟨_, _, .done rfl, rfl⟩
  exact ⟨tangle_reachable, rfl, ws, r, hws, htaken, hbounded ws r hws⟩

end CilGraft.Stack

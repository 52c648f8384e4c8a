/-
The stack analysis decides the stack discipline.

- `Walk.Inv`: the invariant of the walk. What is recorded is reached and admissible, what is pending is reached, and
  what is reached in one move from a recorded arrival is recorded or pending.
- `Walk.step_inv`, `Walk.step_failed`: a step keeps it, and a step that fails has come upon a breach of the discipline.
- `analyze_ok`, `analyze_error`: a report holds exactly the configurations that are reached, and their greatest depth;
  a body that is rejected is not disciplined.
- `analyze_decides`: both together, for every body that can be built.
-/
import CilGraft.Proofs.WalkView

namespace CilGraft.Stack

/-! ## The invariant of the walk -/

namespace Walk

/-- the walk has recorded this depth for this position -/
def Recorded (w : Walk) (a : Arrival) : Prop := w.depths[a.position]? = some (some a.depth)

structure Inv (c : Context) (b : Body) (w : Walk) : Prop where
  size : w.depths.size = b.size
  recorded : ∀ a, w.Recorded a → Reaches c b a ∧ Admissible c b a
  pending : ∀ a ∈ w.pending, Reaches c b a ∧ a.position < b.size
  entries : ∀ a, Entry b a → w.Recorded a ∨ a ∈ w.pending
  moves : ∀ a a', w.Recorded a → Moves c b a a' → w.Recorded a' ∨ a' ∈ w.pending
  peak : IsLUB { n | ∃ a, w.Recorded a ∧ n ∈ depthsAt c b a } w.peak

theorem Recorded.inj {w : Walk} {a a' : Arrival} (h : w.Recorded a) (h' : w.Recorded a')
    (hp : a.position = a'.position) : a.depth = a'.depth := by
  simp only [Recorded] at h h'
  rw [hp, h'] at h
  simpa using h.symm

variable {b : Body} {c : Context} {w w' : Walk}

theorem inv_start (hb : b.WellFormed) {es : List Arrival} (hes : ∀ a, a ∈ es ↔ Entry b a) :
    Inv c b ⟨Array.replicate b.size none, es, 0⟩ := by
  have hnone : ∀ a, ¬ Recorded ⟨Array.replicate b.size none, es, 0⟩ a := fun a h => by
    simp [Recorded, Array.getElem?_replicate] at h
  refine ⟨by simp, fun a h => absurd h (hnone a), fun a ha => ?_, fun a ha => Or.inr ((hes a).2 ha),
    fun a a' h => absurd h (hnone a), ?_⟩
  · have := (hes a).1 ha
    exact ⟨.entry this, this.lt_size hb⟩
  · simp [hnone]

variable {depths : Array (Option Nat)} {pending next : List Arrival} {peak : Nat} {a : Arrival} {i : Instruction}
  {e : StackEffect}

/-- an arrival that agrees with the record is dropped -/
theorem Inv.drop (h : Inv c b ⟨depths, a :: pending, peak⟩) (ha : depths[a.position]? = some (some a.depth)) :
    Inv c b ⟨depths, pending, peak⟩ := by
  have hkeep : ∀ a', Recorded ⟨depths, a :: pending, peak⟩ a' ∨ a' ∈ a :: pending →
      Recorded ⟨depths, pending, peak⟩ a' ∨ a' ∈ pending := by
    intro a' h'
    rcases h' with h' | h'
    · exact Or.inl h'
    · rcases List.mem_cons.1 h' with rfl | h'
      · exact Or.inl ha
      · exact Or.inr h'
  exact ⟨h.size, h.recorded, fun a' h' => h.pending a' (List.mem_cons_of_mem a h'),
    fun a' h' => hkeep a' (h.entries a' h'), fun a₁ a₂ h₁ h₂ => hkeep a₂ (h.moves a₁ a₂ h₁ h₂), h.peak⟩

theorem recorded_set (hlt : a.position < depths.size) (hnone : depths[a.position] = none) (pending' : List Arrival)
    (peak' : Nat) (a' : Arrival) : Recorded ⟨depths.set a.position (some a.depth), pending', peak'⟩ a' ↔
      a' = a ∨ Recorded ⟨depths, pending, peak⟩ a' := by
  obtain ⟨p, d⟩ := a
  obtain ⟨p', d'⟩ := a'
  simp only [Recorded, Array.getElem?_set, Arrival.mk.injEq]
  split_ifs with hp
  · subst hp
    simp [Array.getElem?_eq_getElem hlt, hnone, eq_comm]
  · simp [Ne.symm hp]

/-- an arrival at a position without a depth is recorded, and the moves from it become pending -/
theorem Inv.record (hb : b.WellFormed) (h : Inv c b ⟨depths, a :: pending, peak⟩) (hlt : a.position < depths.size)
    (hnone : depths[a.position] = none) (hi : b.instructionAt? a.position = some i) (he : c.effect i = .ok e)
    (hadm : Admissible c b a) (hnext : ∀ a', a' ∈ next ↔ Moves c b a a') :
    Inv c b ⟨depths.set a.position (some a.depth), next.reverse ++ pending,
      max (max peak a.depth) (e.after a.depth)⟩ := by
  have hrec : ∀ a', Recorded ⟨depths.set a.position (some a.depth), next.reverse ++ pending,
      max (max peak a.depth) (e.after a.depth)⟩ a' ↔ a' = a ∨ Recorded ⟨depths, a :: pending, peak⟩ a' :=
    recorded_set hlt hnone _ _
  have hreach : Reaches c b a := (h.pending a List.mem_cons_self).1
  have hkeep : ∀ a', Recorded ⟨depths, a :: pending, peak⟩ a' ∨ a' ∈ a :: pending →
      Recorded ⟨depths.set a.position (some a.depth), next.reverse ++ pending,
        max (max peak a.depth) (e.after a.depth)⟩ a' ∨ a' ∈ next.reverse ++ pending := by
    intro a' h'
    rcases h' with h' | h'
    · exact Or.inl ((hrec a').2 (Or.inr h'))
    · rcases List.mem_cons.1 h' with rfl | h'
      · exact Or.inl ((hrec a').2 (Or.inl rfl))
      · exact Or.inr (List.mem_append_right _ h')
  refine ⟨by rw [Array.size_set]; exact h.size, fun a' h' => ?_, fun a' h' => ?_,
    fun a' h' => hkeep a' (h.entries a' h'), fun a₁ a₂ h₁ h₂ => ?_, ?_⟩
  · rcases (hrec a').1 h' with rfl | h'
    · exact ⟨hreach, hadm⟩
    · exact h.recorded a' h'
  · rcases List.mem_append.1 h' with h' | h'
    · have hm := (hnext a').1 (List.mem_reverse.1 h')
      exact ⟨.move hreach hm, hm.lt_size hb hadm⟩
    · exact h.pending a' (List.mem_cons_of_mem a h')
  · rcases (hrec a₁).1 h₁ with rfl | h₁
    · exact Or.inr (List.mem_append_left _ (List.mem_reverse.2 ((hnext a₂).2 h₂)))
    · exact hkeep a₂ (h.moves a₁ a₂ h₁ h₂)
  · -- the depths of the new record join those seen before
    have hset : { n | ∃ a', Recorded ⟨depths.set a.position (some a.depth), next.reverse ++ pending,
        max (max peak a.depth) (e.after a.depth)⟩ a' ∧ n ∈ depthsAt c b a' } =
        ({ n | ∃ a', Recorded ⟨depths, a :: pending, peak⟩ a' ∧ n ∈ depthsAt c b a' } ∪ {a.depth}) ∪
          {e.after a.depth} := by
      ext n
      simp only [hrec, Set.mem_ofPred_eq, Set.mem_union, Set.mem_singleton_iff, depthsAt]
      constructor
      · rintro ⟨a', rfl | h', hn⟩
        · rcases hn with rfl | ⟨i', e', hi', he', rfl⟩
          · exact Or.inl (Or.inr rfl)
          · rw [hi] at hi'; cases hi'
            rw [he] at he'; cases he'
            exact Or.inr rfl
        · exact Or.inl (Or.inl ⟨a', h', hn⟩)
      · rintro ((⟨a', h', hn⟩ | rfl) | rfl)
        · exact ⟨a', Or.inr h', hn⟩
        · exact ⟨a, Or.inl rfl, Or.inl rfl⟩
        · exact ⟨a, Or.inl rfl, Or.inr ⟨i, e, hi, he, rfl⟩⟩
    rw [hset]
    exact (h.peak.union isLUB_singleton).union isLUB_singleton

theorem ofBody_instructions (b : Body) (p : Nat) : (Code.ofBody b).instructions[p]? = b.instructionAt? p := by
  simp [Code.ofBody, Body.instructionAt?]

/-- **One step keeps the invariant.** -/
theorem step_inv (hb : b.WellFormed) (h : Inv c b w) (hs : w.step (Code.ofBody b) c = .more w') : Inv c b w' := by
  obtain ⟨depths, pending, peak⟩ := w
  cases pending with
  | nil => simp [step] at hs
  | cons a pending =>
    have hin := (h.pending a List.mem_cons_self).2
    have hlt : a.position < depths.size := h.size ▸ hin
    simp only [step, hlt, dite_true] at hs
    split at hs
    · rename_i recorded hrecorded
      split_ifs at hs with heq
      injection hs with hs
      subst hs
      exact h.drop (by rw [Array.getElem?_eq_getElem hlt, hrecorded, heq])
    · rename_i hnone
      obtain ⟨i, hi⟩ := Body.instructionAt?_of_lt hin
      simp only [ofBody_instructions, hi] at hs
      split at hs
      · cases hs
      · rename_i after next hvisit
        injection hs with hs
        subst hs
        obtain ⟨hadm, ⟨e, he, rfl⟩, hnext⟩ := visit_eq_ok hb hi hvisit
        exact h.record hb hlt hnone hi he hadm hnext

/-- **A step that fails** has come upon a configuration that breaks the discipline. -/
theorem step_failed (hb : b.WellFormed) (h : Inv c b w) {err : Error} (hs : w.step (Code.ofBody b) c = .failed err) :
    ¬ Disciplined c b := by
  obtain ⟨depths, pending, peak⟩ := w
  intro hd
  cases pending with
  | nil => simp [step] at hs
  | cons a pending =>
    obtain ⟨hreach, hin⟩ := h.pending a List.mem_cons_self
    have hlt : a.position < depths.size := h.size ▸ hin
    simp only [step, hlt, dite_true] at hs
    split at hs
    · rename_i recorded hrecorded
      split_ifs at hs with heq
      have hrec : Recorded ⟨depths, a :: pending, peak⟩ ⟨a.position, recorded⟩ := by
        simp [Recorded, Array.getElem?_eq_getElem hlt, hrecorded]
      exact heq (hd.consistent _ a (h.recorded _ hrec).1 hreach rfl)
    · obtain ⟨i, hi⟩ := Body.instructionAt?_of_lt hin
      simp only [ofBody_instructions, hi] at hs
      split at hs
      · rename_i e hvisit
        exact visit_eq_error hb hi hvisit (hd.admissible a hreach)
      · cases hs

theorem step_done (hs : w.step (Code.ofBody b) c = .done w') : w' = w ∧ w.pending = [] := by
  obtain ⟨depths, pending, peak⟩ := w
  cases pending with
  | nil =>
    simp only [step] at hs
    injection hs with hs
    exact ⟨hs.symm, rfl⟩
  | cons a pending =>
    simp only [step] at hs
    split at hs
    · split at hs
      · split_ifs at hs
      · split at hs
        · cases hs
        · split at hs <;> cases hs
    · cases hs

section Visit

variable {code : Code} (hlt : a.position < depths.size) (hfresh : depths[a.position] = none)
  (hi : code.instructions[a.position]? = some i)
include hfresh hi

/-- an arrival at a position without a depth is visited -/
theorem step_visit {after : Nat} (hvisit : code.visit c i a = .ok (after, next)) :
    step code c ⟨depths, a :: pending, peak⟩ =
      .more ⟨depths.set a.position (some a.depth), next.reverse ++ pending, max (max peak a.depth) after⟩ := by
  simp only [step, hlt, dite_true, hi, hvisit]
  split
  · rename_i recorded hrecorded
    rw [hfresh] at hrecorded
    cases hrecorded
  · rfl

theorem step_visit_error {err : Error} (hvisit : code.visit c i a = .error err) :
    step code c ⟨depths, a :: pending, peak⟩ = .failed err := by
  simp only [step, hlt, dite_true, hi, hvisit]
  split
  · rename_i recorded hrecorded
    rw [hfresh] at hrecorded
    cases hrecorded
  · rfl

end Visit

theorem run_of_more {code : Code} {r : Except Error Walk} (hs : w.step code c = .more w') (hr : w'.run code c = r) :
    w.run code c = r := by
  rw [run]
  split
  · rename_i h; rw [hs] at h; cases h
  · rename_i h; rw [hs] at h; cases h
  · rename_i h; rw [hs] at h; cases h; exact hr

theorem run_of_done {code : Code} (hs : w.step code c = .done w') : w.run code c = .ok w' := by
  rw [run]
  split
  · rename_i h; rw [hs] at h; cases h; rfl
  · rename_i h; rw [hs] at h; cases h
  · rename_i h; rw [hs] at h; cases h

theorem run_of_failed {code : Code} {e : Error} (hs : w.step code c = .failed e) : w.run code c = .error e := by
  rw [run]
  split
  · rename_i h; rw [hs] at h; cases h
  · rename_i h; rw [hs] at h; cases h; rfl
  · rename_i h; rw [hs] at h; cases h

/-- what a whole run keeps, and where it stops -/
theorem run_inv (hb : b.WellFormed) (h : Inv c b w) :
    match run (Code.ofBody b) c w with
    | .ok w' => Inv c b w' ∧ w'.pending = []
    | .error _ => ¬ Disciplined c b := by
  fun_induction run (Code.ofBody b) c w with
  | case1 w w' hs =>
    obtain ⟨rfl, hnil⟩ := step_done hs
    exact ⟨h, hnil⟩
  | case2 w err hs => exact step_failed hb h hs
  | case3 w w' hs ih => exact ih (step_inv hb h hs)

/-- when nothing is pending, what is recorded is what is reached -/
theorem Inv.recorded_iff (h : Inv c b w) (hnil : w.pending = []) (a : Arrival) : w.Recorded a ↔ Reaches c b a := by
  constructor
  · exact fun ha => (h.recorded a ha).1
  · intro ha
    induction ha with
    | entry he => exact (h.entries _ he).resolve_right (by simp [hnil])
    | move _ hm ih => exact (h.moves _ _ ih hm).resolve_right (by simp [hnil])

end Walk

/-! ## The analysis decides the discipline -/

variable {b : Body} {c : Context}

theorem depthAt?_eq_some {r : Report} {p d : Nat} : r.depthAt? p = some d ↔ r.depths[p]? = some (some d) := by
  simp [Report.depthAt?, Option.join_eq_some_iff]

theorem analyze_eq_run {es : List Arrival} (hes : (Code.ofBody b).entries = .ok es) :
    analyze c b =
      (Walk.run (Code.ofBody b) c ⟨Array.replicate b.size none, es.reverse, 0⟩).map fun w => ⟨w.depths, w.peak⟩ := by
  have hsize : (Code.ofBody b).instructions.size = b.size := by simp [Code.ofBody, Body.size]
  simp only [analyze, Code.analyze, hes, hsize]
  cases hrun : Walk.run (Code.ofBody b) c ⟨Array.replicate b.size none, es.reverse, 0⟩ with
  | error e => simp [bind, Except.bind, Except.map, hrun]
  | ok w => simp [bind, Except.bind, Except.map, hrun, pure, Except.pure]

theorem analyze_start (hb : b.WellFormed) : ∃ es, (∀ a, a ∈ es ↔ Entry b a) ∧
    analyze c b =
      (Walk.run (Code.ofBody b) c ⟨Array.replicate b.size none, es, 0⟩).map fun w => ⟨w.depths, w.peak⟩ := by
  obtain ⟨es, hes, hentry⟩ := entries_eq_ok hb
  exact ⟨es.reverse, fun a => by rw [List.mem_reverse, hentry], analyze_eq_run hes⟩

/-- **A body that is accepted is disciplined**, and the report holds what is reached and how deep it gets. -/
theorem analyze_ok (hb : b.WellFormed) {r : Report} (h : analyze c b = .ok r) :
    Disciplined c b ∧ (∀ p d, r.depthAt? p = some d ↔ Reaches c b ⟨p, d⟩) ∧ IsLUB (reachedDepths c b) r.maxDepth := by
  obtain ⟨es, hes, hrun⟩ := analyze_start (c := c) hb
  rw [h] at hrun
  have hinv := Walk.run_inv hb (Walk.inv_start (c := c) hb hes)
  cases hw : Walk.run (Code.ofBody b) c ⟨Array.replicate b.size none, es, 0⟩ with
  | error e => rw [hw] at hrun; cases hrun
  | ok w =>
    rw [hw] at hrun hinv
    cases hrun
    obtain ⟨hinv, hnil⟩ := hinv
    have hrec := hinv.recorded_iff hnil
    refine ⟨⟨starts_of_wellFormed hb, fun a a' ha ha' hp => ?_, fun a ha => ?_⟩, fun p d => ?_, ?_⟩
    · exact ((hrec a).2 ha).inj ((hrec a').2 ha') hp
    · exact (hinv.recorded a ((hrec a).2 ha)).2
    · rw [depthAt?_eq_some, ← hrec ⟨p, d⟩]
      rfl
    · have hpeak := hinv.peak
      simp only [hrec] at hpeak
      exact hpeak

theorem analyze_error (hb : b.WellFormed) {e : Error} (h : analyze c b = .error e) : ¬ Disciplined c b := by
  obtain ⟨es, hes, hrun⟩ := analyze_start (c := c) hb
  rw [h] at hrun
  have hinv := Walk.run_inv hb (Walk.inv_start (c := c) hb hes)
  cases hw : Walk.run (Code.ofBody b) c ⟨Array.replicate b.size none, es, 0⟩ with
  | error e => rw [hw] at hinv; exact hinv
  | ok w => rw [hw] at hrun; cases hrun

theorem analyze_isOk_iff (hb : b.WellFormed) : (∃ r, analyze c b = .ok r) ↔ Disciplined c b := by
  constructor
  · rintro ⟨r, hr⟩
    exact (analyze_ok hb hr).1
  · intro hd
    cases h : analyze c b with
    | error e => exact absurd hd (analyze_error hb h)
    | ok r => exact ⟨r, rfl⟩

/-- **The analysis decides the stack discipline.** For every body that can be built, every resolver and every signature:
a report is given exactly to the disciplined bodies; its depths are those of the configurations that control reaches,
and its maximum is the greatest depth before or behind an instruction that is reached. -/
theorem analyze_decides (resolve : Resolver) (signature : MethodSig) (b : Body) (hb : b.Reachable) :
    let c := Context.ofSignature resolve signature
    ((∃ r, analyze c b = .ok r) ↔ Disciplined c b) ∧
      ∀ r, analyze c b = .ok r →
        (∀ p d, r.depthAt? p = some d ↔ Reaches c b ⟨p, d⟩) ∧
        (0 < b.size → IsGreatest (reachedDepths c b) r.maxDepth) ∧ (b.size = 0 → r.maxDepth = 0) := by
  intro c
  refine ⟨analyze_isOk_iff hb.wellFormed, fun r hr => ?_⟩
  obtain ⟨-, hdepths, hmax⟩ := analyze_ok hb.wellFormed hr
  refine ⟨hdepths, isGreatest_of_isLUB hmax, fun hempty => ?_⟩
  have hnone : reachedDepths c b = ∅ := by
    refine Set.eq_empty_iff_forall_notMem.2 ?_
    rintro n ⟨a, ha, -⟩
    obtain ⟨i, -, hi, -⟩ := (analyze_ok hb.wellFormed hr).1.admissible a ha
    have := Body.lt_size_of_instructionAt? hi
    omega
  rw [hnone] at hmax
  simpa using hmax.unique isLUB_empty

/-- a loop in a protected region, left to the return behind the handler that pops the exception object -/
def guardedLoop : Body :=
  { number := 1
    code := #[⟨1, { opcode := .ldcI40 }⟩, ⟨2, ⟨.brtrue, .target ⟨1, 1⟩⟩⟩, ⟨3, ⟨.leave, .target ⟨1, 0⟩⟩⟩,
      ⟨4, { opcode := .pop }⟩, ⟨0, { opcode := .ret }⟩]
    clauses := #[{ flags := 0, tryStart := ⟨1, 1⟩, handlerStart := ⟨1, 4⟩ }] }

theorem guardedLoop_reachable : guardedLoop.Reachable := by
  have h0 : (Body.empty 1).Reachable := .empty 1
  have h1 := h0.push { opcode := .ret } (by simp [Instruction.targets])
  have h2 := @Body.Reachable.insertBefore _ _ ⟨1, 0⟩ [{ opcode := .ldcI40 }] _ h1
    (by simp [Instruction.targets]) (by cbv)
  have h3 := @Body.Reachable.insertBefore _ _ ⟨1, 0⟩
    [⟨.brtrue, .target ⟨1, 1⟩⟩, ⟨.leave, .target ⟨1, 0⟩⟩, { opcode := .pop }] _ h2
    (by simp [Instruction.targets, Body.Issued, Body.size]) (by cbv)
  exact @Body.Reachable.addClause _ _ { flags := 0, tryStart := ⟨1, 1⟩, handlerStart := ⟨1, 4⟩ } h3 (by cbv)

theorem analyze_guardedLoop (resolve : Resolver) : analyze (.ofSignature resolve (.static .void [])) guardedLoop =
    .ok ⟨#[some 0, some 1, some 0, some 1, some 0], 1⟩ := by
  have hes : (Code.ofBody guardedLoop).entries = .ok [⟨0, 0⟩, ⟨3, 1⟩] := by cbv
  have hrun : Walk.run (Code.ofBody guardedLoop) (.ofSignature resolve (.static .void []))
      ⟨#[none, none, none, none, none], [⟨3, 1⟩, ⟨0, 0⟩], 0⟩ =
        .ok ⟨#[some 0, some 1, some 0, some 1, some 0], [], 1⟩ := by
    iterate 7 refine Walk.run_of_more (by cbv) ?_
    exact Walk.run_of_done rfl
  rw [analyze_eq_run hes]
  exact congrArg (Except.map _) hrun

theorem analyze_decides_guardedLoop :
    let c := Context.ofSignature (fun _ => none) (.static .void [])
    guardedLoop.Reachable ∧ Disciplined c guardedLoop ∧ Reaches c guardedLoop ⟨3, 1⟩ ∧ ¬ Reaches c guardedLoop ⟨3, 0⟩ ∧
      IsGreatest (reachedDepths c guardedLoop) 1 := by
  intro c
  obtain ⟨hdecides, hreport⟩ := analyze_decides (fun _ => none) (.static .void []) guardedLoop guardedLoop_reachable
  obtain ⟨hdepths, hmax, -⟩ := hreport _ (analyze_guardedLoop _)
  refine ⟨guardedLoop_reachable, hdecides.1 ⟨_, analyze_guardedLoop _⟩, (hdepths 3 1).1 rfl, fun h => ?_,
    hmax (by decide)⟩
  exact absurd ((hdepths 3 0).2 h) (by decide)

end CilGraft.Stack

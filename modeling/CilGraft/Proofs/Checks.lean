/-
Computations that may fail, in sequence and over lists: what a success tells about the parts, and which part is to blame
for a failure.
-/
import Mathlib
import CilGraft.Error

namespace CilGraft

variable {ε α β σ : Type}

theorem bind_eq_ok {x : Except ε α} {f : α → Except ε β} {r : β} :
    x >>= f = .ok r ↔ ∃ a, x = .ok a ∧ f a = .ok r := by
  cases x with
  | error e => simp [bind, Except.bind]
  | ok a => simp [bind, Except.bind]

theorem bind_eq_error {x : Except ε α} {f : α → Except ε β} {e : ε} :
    x >>= f = .error e ↔ x = .error e ∨ ∃ a, x = .ok a ∧ f a = .error e := by
  cases x with
  | error e' => simp [bind, Except.bind]
  | ok a => simp [bind, Except.bind]

theorem map_eq_ok {x : Except ε α} {f : α → β} {r : β} : f <$> x = .ok r ↔ ∃ a, x = .ok a ∧ f a = r := by
  cases x with
  | error e => simp [Functor.map, Except.map]
  | ok a => simp [Functor.map, Except.map]

theorem map_eq_error {x : Except ε α} {f : α → β} {e : ε} : f <$> x = .error e ↔ x = .error e := by
  cases x with
  | error e' => simp [Functor.map, Except.map]
  | ok a => simp [Functor.map, Except.map]

theorem map_isOk_iff {x : Except ε α} {f : α → β} : (∃ r, f <$> x = .ok r) ↔ ∃ a, x = .ok a := by
  simp only [map_eq_ok]
  exact ⟨fun ⟨_, a, ha, _⟩ => ⟨a, ha⟩, fun ⟨a, ha⟩ => ⟨_, a, ha, rfl⟩⟩

theorem mapM_eq_ok {f : α → Except ε β} {xs : List α} {ys : List β} :
    xs.mapM f = .ok ys ↔ List.Forall₂ (fun x y => f x = .ok y) xs ys := by
  induction xs generalizing ys with
  | nil => simp [pure, Except.pure, eq_comm]
  | cons x xs ih =>
    simp only [List.mapM_cons, bind_eq_ok, ih, List.forall₂_cons_left_iff, pure, Except.pure, Except.ok.injEq]
    constructor
    · rintro ⟨y, hy, ys', hys, rfl⟩
      exact ⟨y, ys', hy, hys, rfl⟩
    · rintro ⟨y, ys', hy, hys, rfl⟩
      exact ⟨y, hy, ys', hys, rfl⟩

/-- each result comes from some element -/
theorem mem_of_mapM {f : α → Except ε β} {xs : List α} {ys : List β} (h : xs.mapM f = .ok ys) {y : β} (hy : y ∈ ys) :
    ∃ x ∈ xs, f x = .ok y := by
  induction mapM_eq_ok.1 h with
  | nil => cases hy
  | cons hx hxs ih =>
    rcases List.mem_cons.1 hy with rfl | hy
    · exact ⟨_, List.mem_cons_self, hx⟩
    · obtain ⟨x', hx', he⟩ := ih (mapM_eq_ok.2 hxs) hy
      exact ⟨x', List.mem_cons_of_mem _ hx', he⟩

/-- each element has a result -/
theorem result_of_mapM {f : α → Except ε β} {xs : List α} {ys : List β} (h : xs.mapM f = .ok ys) {x : α} (hx : x ∈ xs) :
    ∃ y ∈ ys, f x = .ok y := by
  induction mapM_eq_ok.1 h with
  | nil => cases hx
  | cons hy hys ih =>
    rcases List.mem_cons.1 hx with rfl | hx
    · exact ⟨_, List.mem_cons_self, hy⟩
    · obtain ⟨y', hy', he⟩ := ih (mapM_eq_ok.2 hys) hx
      exact ⟨y', List.mem_cons_of_mem _ hy', he⟩

theorem mapM_eq_error {f : α → Except ε β} {xs : List α} {e : ε} (h : xs.mapM f = .error e) :
    ∃ x ∈ xs, f x = .error e := by
  induction xs with
  | nil => simp [pure, Except.pure] at h
  | cons x xs ih =>
    simp only [List.mapM_cons, bind_eq_error] at h
    rcases h with h | ⟨y, -, h | ⟨ys, -, h⟩⟩
    · exact ⟨x, List.mem_cons_self, h⟩
    · obtain ⟨x', hx', he⟩ := ih h
      exact ⟨x', List.mem_cons_of_mem x hx', he⟩
    · simp [pure, Except.pure] at h

theorem mapM_congr {f g : α → Except ε β} {xs : List α} (h : ∀ x ∈ xs, f x = g x) : xs.mapM f = xs.mapM g := by
  induction xs with
  | nil => rfl
  | cons x xs ih =>
    obtain ⟨hx, hxs⟩ := List.forall_mem_cons.1 h
    rw [List.mapM_cons, List.mapM_cons, hx, ih hxs]

/-- there are results if each element has one -/
theorem mapM_isOk_iff {f : α → Except ε β} {xs : List α} :
    (∃ ys, xs.mapM f = .ok ys) ↔ ∀ x ∈ xs, ∃ y, f x = .ok y := by
  constructor
  · rintro ⟨ys, h⟩ x hx
    obtain ⟨y, -, hy⟩ := result_of_mapM h hx
    exact ⟨y, hy⟩
  · intro h
    cases hr : xs.mapM f with
    | ok ys => exact ⟨ys, rfl⟩
    | error e =>
      obtain ⟨x, hx, he⟩ := mapM_eq_error hr
      obtain ⟨y, hy⟩ := h x hx
      rw [he] at hy
      cases hy

theorem forM_eq_ok {f : α → Except ε Unit} {xs : List α} : forM xs f = .ok () ↔ ∀ x ∈ xs, f x = .ok () := by
  induction xs with
  | nil => simp [pure, Except.pure]
  | cons x xs ih =>
    simp only [List.forM_cons, bind_eq_ok, ih, List.mem_cons, forall_eq_or_imp]
    exact ⟨fun ⟨_, hx, hxs⟩ => ⟨hx, hxs⟩, fun ⟨hx, hxs⟩ => ⟨(), hx, hxs⟩⟩

/-- the first element that fails is to blame -/
theorem forM_eq_error {f : α → Except ε Unit} {xs : List α} {e : ε} : forM xs f = .error e ↔
    ∃ before x after, xs = before ++ x :: after ∧ (∀ y ∈ before, f y = .ok ()) ∧ f x = .error e := by
  induction xs with
  | nil => simp [pure, Except.pure]
  | cons head xs ih =>
    simp only [List.forM_cons, bind_eq_error]
    constructor
    · rintro (hhead | ⟨_, hhead, hrest⟩)
      · exact ⟨[], head, xs, rfl, fun _ hy => absurd hy List.not_mem_nil, hhead⟩
      · obtain ⟨before, x, after, rfl, hbefore, hx⟩ := ih.1 hrest
        exact ⟨head :: before, x, after, rfl, List.forall_mem_cons.2 ⟨hhead, hbefore⟩, hx⟩
    · rintro ⟨_ | ⟨y, before⟩, x, after, heq, hbefore, hx⟩
      · injection heq with hhead _
        exact Or.inl (hhead ▸ hx)
      · injection heq with hhead hrest
        subst hhead
        obtain ⟨hhead, hbefore⟩ := List.forall_mem_cons.1 hbefore
        exact Or.inr ⟨(), hhead, ih.2 ⟨before, x, after, hrest, hbefore, hx⟩⟩

/-- what every step of a fold keeps, the fold keeps -/
theorem foldlM_keeps {P : σ → Prop} {f : σ → α → Except ε σ} {xs : List α}
    (hf : ∀ s, ∀ x ∈ xs, ∀ s', P s → f s x = .ok s' → P s') {s s' : σ} (hs : P s) (h : xs.foldlM f s = .ok s') :
    P s' := by
  induction xs generalizing s with
  | nil =>
    simp only [List.foldlM_nil, pure, Except.pure, Except.ok.injEq] at h
    exact h ▸ hs
  | cons x xs ih =>
    obtain ⟨s₁, h₁, h⟩ := bind_eq_ok.1 h
    exact ih (fun s x hx => hf s x (List.mem_cons_of_mem _ hx)) (hf s x List.mem_cons_self s₁ hs h₁) h

/-! ## Parts that leave a state behind -/

section

variable {state : σ} {x : Except Error α}

@[simp] theorem leaving_ok (state : σ) (a : α) : leaving state (.ok a) = .ok a := rfl

@[simp] theorem leaving_error (state : σ) (e : Error) :
    leaving state (.error e : Except Error α) = .error ⟨e, state⟩ := rfl

theorem leaving_eq_ok {a : α} : leaving state x = .ok a ↔ x = .ok a := by
  cases x with
  | error e => simp [leaving]
  | ok a' => simp [leaving]

/-- a part that fails leaves the state to the failure -/
theorem leaving_eq_error {f : Failure σ} : leaving state x = .error f ↔ x = .error f.error ∧ f.state = state := by
  obtain ⟨e', state'⟩ := f
  cases x with
  | error e => simp [leaving, eq_comm]
  | ok a => simp [leaving]

/-- to leave a state behind in every step is to leave it behind in the whole -/
theorem leaving_bind (state : σ) (x : Except Error α) (f : α → Except Error β) :
    leaving state (x >>= f) = leaving state x >>= fun a => leaving state (f a) := by
  cases x <;> rfl

theorem leaving_forM (state : σ) (f : α → Except Error Unit) (xs : List α) :
    leaving state (forM xs f) = forM xs fun a => leaving state (f a) := by
  induction xs with
  | nil => rfl
  | cons a xs ih =>
    rw [List.forM_cons, List.forM_cons, leaving_bind]
    exact congrArg _ (funext fun _ => ih)

end

end CilGraft

/-
Which errors a part of a graft can raise, for any module, body and configuration.

- `Fails`: every error of a computation is of a kind. It goes along sequences, lists and folds.
- `analyze_fails`, `peak_fails`, `checkBalance_fails`: errors of the stack are underflow, mismatch and malformed code.
- `resolveMembers_fails`, `locate_fails`, `vectorLocals_fails`: what the other parts miss.
- `Guard.check_eq_error`: the guard says why a module is not eligible, and nothing else.
- `graftBody_fails`, `execute_skip`: so nothing but the guard says that a module is to be left alone.
-/
import CilGraft.Graft.Pass
import CilGraft.Proofs.Checks

namespace CilGraft

/-! ## Errors of a kind -/

section

variable {ε α β σ : Type} {P Q : ε → Prop} {x : Except ε α}

/-- every error that a computation raises is of a kind -/
def Fails (P : ε → Prop) (x : Except ε α) : Prop := ∀ e, x = .error e → P e

namespace Fails

theorem ok (a : α) : Fails P (.ok a : Except ε α) := by
  intro e h
  cases h

theorem error {e : ε} (he : P e) : Fails P (.error e : Except ε α) := by
  intro e' h
  injection h with h
  exact h ▸ he

theorem mono (h : Fails P x) (hPQ : ∀ e, P e → Q e) : Fails Q x := fun e he => hPQ e (h e he)

theorem bind {f : α → Except ε β} (hx : Fails P x) (hf : ∀ a, Fails P (f a)) : Fails P (x >>= f) := by
  intro e h
  rcases bind_eq_error.1 h with h | ⟨a, -, h⟩
  · exact hx e h
  · exact hf a e h

theorem error_bind {e : ε} (he : P e) (f : α → Except ε β) : Fails P (.error e >>= f) := by
  intro e' h
  injection h with h
  exact h ▸ he

theorem mapM {f : α → Except ε β} {xs : List α} (hf : ∀ a, Fails P (f a)) : Fails P (xs.mapM f) := by
  intro e h
  obtain ⟨a, -, ha⟩ := mapM_eq_error h
  exact hf a e ha

theorem forM {f : α → Except ε Unit} {xs : List α} (hf : ∀ a, Fails P (f a)) : Fails P (forM xs f) := by
  intro e h
  obtain ⟨_, a, _, -, -, ha⟩ := forM_eq_error.1 h
  exact hf a e ha

theorem foldlM {f : σ → α → Except ε σ} {xs : List α} (hf : ∀ s a, Fails P (f s a)) (s : σ) :
    Fails P (xs.foldlM f s) := by
  induction xs generalizing s with
  | nil => exact ok s
  | cons a xs ih => exact bind (hf s a) ih

end Fails

theorem Fails.leaving {P : Error → Prop} {x : Except Error α} (h : Fails P x) (state : σ) :
    Fails (fun f => P f.error) (leaving state x) := by
  intro f hf
  exact h f.error (leaving_eq_error.1 hf).1

end

namespace Error

/-- the stack does not fit, or code is malformed -/
def OfStack : Error → Prop
  | stackUnderflow .. | stackMismatch .. | malformed _ => True
  | _ => False

/-- an instruction or a slot that is looked for is not there -/
def OfAnchors : Error → Prop
  | anchorNotFound _ | localNotFound _ => True
  | _ => False

/-- a type or a method that is looked for is not there -/
def OfMembers : Error → Prop
  | methodNotFound .. | unresolvedType _ => True
  | _ => False

/-- a change of code was refused -/
def OfRewriting : Error → Prop
  | invalidAnchor _ | localNotFound _ | unresolvedType _ => True
  | e => OfStack e

variable {e : Error}

theorem OfStack.rewriting (h : OfStack e) : OfRewriting e := by
  cases e <;> first | exact h | exact h.elim

theorem OfMembers.not_anchors (h : OfMembers e) : ¬ OfAnchors e := by
  cases e <;> first | exact h.elim | exact id

theorem OfMembers.not_stack (h : OfMembers e) : ¬ OfStack e := by
  cases e <;> first | exact h.elim | exact id

theorem OfAnchors.not_stack (h : OfAnchors e) : ¬ OfStack e := by
  cases e <;> first | exact h.elim | exact id

theorem OfAnchors.not_skip (h : OfAnchors e) : e.isSkip = false := by
  cases e <;> first | rfl | exact h.elim

theorem OfMembers.not_skip (h : OfMembers e) : e.isSkip = false := by
  cases e <;> first | rfl | exact h.elim

theorem OfRewriting.not_skip (h : OfRewriting e) : e.isSkip = false := by
  cases e <;> first | rfl | exact h.elim

end Error

open Error (OfStack OfAnchors OfMembers OfRewriting)

/-! ## The stack -/

namespace Stack

theorem callee_fails (resolve : Resolver) (shown : String) (i : Instruction) :
    Fails OfStack (callee resolve shown i) := by
  unfold callee
  split
  · exact .error trivial
  · split
    · exact .ok _
    · exact .error trivial

theorem sized_fails (i : Instruction) (pops pushes : Nat) : Fails OfStack (sized i pops pushes) := by
  unfold sized
  split_ifs
  · exact .ok _
  · exact .error trivial

theorem effect_fails (c : Context) (i : Instruction) : Fails OfStack (c.effect i) := by
  unfold Context.effect
  split
  · exact .ok _
  · by_cases hret : i.opcode = .ret
    · rw [if_pos hret]
      exact sized_fails i _ _
    · rw [if_neg hret]
      exact (callee_fails _ _ i).bind fun member => sized_fails i _ _

theorem depthAfter_fails (effect : StackEffect) (position depth : Nat) :
    Fails OfStack (depthAfter effect position depth) := by
  simp only [depthAfter]
  split_ifs
  · exact .error trivial
  · exact .ok _

theorem netEffect_fails (resolve : Resolver) (block : List Instruction) : Fails OfStack (netEffect resolve block) :=
  .foldlM (fun _ i => (effect_fails _ i).bind fun _ => .ok _) _

theorem peakFrom_fails (resolve : Resolver) (block : List Instruction) (position depth peak : Nat) :
    Fails OfStack (peakFrom resolve position depth peak block) := by
  induction block generalizing position depth peak with
  | nil => exact .ok _
  | cons i block ih =>
    refine (effect_fails _ i).bind fun effect => ?_
    exact (depthAfter_fails effect position depth).bind fun after => ih _ _ _

theorem peak_fails (resolve : Resolver) (block : List Instruction) (entry : Nat) :
    Fails OfStack (peak resolve block entry) := peakFrom_fails resolve block 0 entry entry

/-! ## The walk -/

theorem locate_fails (code : Code) (h : Handle) : Fails OfStack (code.locate h) := by
  unfold Code.locate
  split
  · exact .ok _
  · exact .error trivial

theorem clauseEntries_fails (code : Code) (c : Clause) : Fails OfStack (code.clauseEntries c) := by
  refine (locate_fails code c.handlerStart).bind fun start => ?_
  dsimp only
  cases c.filterStart with
  | none => exact .ok _
  | some filter => exact (locate_fails code _).bind fun _ => .ok _

theorem entries_fails (code : Code) : Fails OfStack code.entries :=
  Fails.bind (.mapM fun c => clauseEntries_fails code c) fun _ => .ok _

theorem fallThrough_fails (code : Code) (position : Nat) (i : Instruction) (after : Nat) :
    Fails OfStack (code.fallThrough position i after) := by
  unfold Code.fallThrough
  split_ifs
  · exact .ok _
  · exact .ok _
  · exact .error trivial

theorem visit_fails (code : Code) (c : Context) (i : Instruction) (a : Arrival) : Fails OfStack (code.visit c i a) := by
  refine (effect_fails c i).bind fun effect => (depthAfter_fails effect a.position a.depth).bind fun after => ?_
  split_ifs
  · exact .error_bind trivial _
  · refine Fails.bind (.mapM fun h => locate_fails code h) fun targets => ?_
    exact (fallThrough_fails code a.position i after).bind fun next => .ok _

theorem step_fails {code : Code} {c : Context} {w : Walk} {e : Error} (h : w.step code c = .failed e) : OfStack e := by
  obtain ⟨depths, pending, peak⟩ := w
  cases pending with
  | nil => cases h
  | cons a pending =>
    simp only [Walk.step] at h
    split at h
    · split at h
      · split_ifs at h
        injection h with h
        exact h ▸ trivial
      · split at h
        · cases h
        · rename_i i _
          split at h
          · rename_i e' hvisit
            injection h with h
            exact h ▸ visit_fails code c i a e' hvisit
          · cases h
    · cases h

theorem run_fails (code : Code) (c : Context) (w : Walk) : Fails OfStack (w.run code c) := by
  fun_induction Walk.run code c w with
  | case1 w w' hs => exact .ok w'
  | case2 w e hs => exact .error (step_fails hs)
  | case3 w w' hs ih => exact ih

theorem analyze_fails (c : Context) (b : Body) : Fails OfStack (analyze c b) := by
  refine (entries_fails (Code.ofBody b)).bind fun entries => ?_
  exact (run_fails (Code.ofBody b) c _).bind fun walk => .ok _

end Stack

/-! ## Blocks -/

theorem Instruction.validate_fails (i : Instruction) : Fails OfStack i.validate := by
  unfold Instruction.validate
  split_ifs
  · exact .ok _
  · exact .error trivial

theorem Instruction.validated_fails (block : List Instruction) : Fails OfStack (Instruction.validated block) :=
  Fails.bind (.forM Instruction.validate_fails) fun _ => .ok _

theorem Splicing.checkInstruction_fails (b : Body) (i : Instruction) :
    Fails OfRewriting (Splicing.checkInstruction b i) := by
  refine ((Instruction.validate_fails i).mono fun _ => OfStack.rewriting).bind fun _ => ?_
  dsimp only
  cases i.targets.find? (!b.contains ·) with
  | none =>
    cases i.local? with
    | none => exact .ok _
    | some slot =>
      dsimp only
      split_ifs
      · exact .error_bind trivial _
      · exact .ok _
  | some foreign =>
    cases i.local? with
    | none => exact .error trivial
    | some slot =>
      dsimp only
      split_ifs
      · exact .error_bind trivial _
      · exact .error trivial

theorem Body.insertBefore_fails (b : Body) (anchor : Handle) (block : List Instruction) :
    Fails OfRewriting (b.insertBefore anchor block) := by
  unfold Body.insertBefore
  split
  · exact .ok _
  · exact .error trivial

theorem Splicing.insertBefore_fails (s : Splicing) (anchor : Handle) (block : List Instruction) :
    Fails OfRewriting (s.insertBefore anchor block) := by
  unfold Splicing.insertBefore
  split_ifs
  · exact .error_bind trivial _
  · refine Fails.bind (.forM fun i => checkInstruction_fails s.body i) fun _ => ?_
    exact (Body.insertBefore_fails s.body anchor block).bind fun _ => .ok _

/-! ## A pass -/

/-- the guard fails only with the reason why the module is not eligible -/
theorem Guard.check_eq_error {guard : Guard} {m : Module} {e : Error} :
    guard.check m = .error e ↔ ∃ reason, guard.ineligibility? m = some reason ∧ e = .ineligible m.name reason := by
  unfold Guard.check
  cases guard.ineligibility? m with
  | none => simp
  | some reason => simp [eq_comm]

theorem Anchor.Pattern.locate_fails (pattern : Pattern) (b : Body) (resolve : Resolver) :
    Fails OfAnchors (pattern.locate b resolve) := by
  unfold Pattern.locate
  split
  · exact .ok _
  · exact .error trivial

theorem Module.allocateLocal_fails (m : Module) (b : Body) (type : TypeSig) :
    Fails OfRewriting (m.allocateLocal b type) := by
  simp only [Module.allocateLocal, Body.addLocal]
  split_ifs
  · exact .ok _
  · exact .error trivial
  · exact .error trivial

/-- of a type that the module knows a slot is missing only when there is no room for it -/
theorem Module.allocateLocal_fails_known {m : Module} {type : TypeSig} (h : m.resolvesType type = true) (b : Body) :
    Fails OfStack (m.allocateLocal b type) := by
  simp only [Module.allocateLocal, h, if_true, Body.addLocal]
  split_ifs
  · exact .ok _
  · exact .error trivial

namespace Config

theorem checkMember_fails (dependency : Module) (member : Member) :
    Fails OfMembers (checkMember dependency member) := by
  unfold checkMember
  split
  · exact .error trivial
  · split
    · exact .ok _
    · exact .error trivial

theorem verifyMembers_fails (c : Config) (dependency : Module) : Fails OfMembers (c.verifyMembers dependency) := by
  refine Fails.bind (.forM fun key => checkMember_fails dependency (key.member c)) fun _ => ?_
  split
  · exact .ok _
  · exact .error trivial

theorem resolveMembers_fails (c : Config) (m dependency : Module) : Fails OfMembers (c.resolveMembers m dependency) :=
  (verifyMembers_fails c dependency).bind fun _ => .ok _

end Config

namespace Graft

theorem vectorLocals_fails (b : Body) (vector : TypeSig) : Fails OfAnchors (vectorLocals b vector) := by
  unfold vectorLocals
  split
  · exact .ok _
  · exact .error trivial

theorem targetMethod_fails (g : Graft) (m : Module) : Fails OfMembers (g.targetMethod m) := by
  unfold targetMethod
  dsimp only
  split
  · exact .ok _
  · exact .error trivial

theorem checkBalance_fails (resolve : Resolver) (block : List Instruction) :
    Fails OfStack (checkBalance resolve block) := by
  refine (Stack.netEffect_fails resolve block).bind fun net => ?_
  split_ifs
  · exact .error trivial
  · exact .ok _

/-- **No failure of a graft of a body is a skip.** -/
theorem graftBody_fails (g : Graft) (p : Pass) (members : ImportedMembers) (method : Token) (signature : MethodSig)
    (b : Body) : Fails (fun f => f.error.isSkip = false) (g.graftBody p members method signature b) := by
  have hanchors : ∀ {α : Type} {x : Except Error α} (p : Pass), Fails OfAnchors x →
      Fails (fun f => f.error.isSkip = false) (leaving p x) :=
    fun p h => (h.mono fun _ => OfAnchors.not_skip).leaving p
  have hrewriting : ∀ {α : Type} {x : Except Error α} (p : Pass), Fails OfRewriting x →
      Fails (fun f => f.error.isSkip = false) (leaving p x) :=
    fun p h => (h.mono fun _ => OfRewriting.not_skip).leaving p
  have hstack : ∀ {α : Type} {x : Except Error α} (p : Pass), Fails OfStack x →
      Fails (fun f => f.error.isSkip = false) (leaving p x) :=
    fun p h => hrewriting p (h.mono fun _ => OfStack.rewriting)
  refine (hanchors _ (g.activationAnchor.locate_fails _ _)).bind fun activation => ?_
  refine (hanchors _ (g.pushAnchor.locate_fails _ _)).bind fun push => ?_
  refine (hanchors _ (vectorLocals_fails _ _)).bind fun slots => ?_
  refine (hstack _ (Stack.analyze_fails _ _)).bind fun stack => ?_
  refine (hrewriting _ (Module.allocateLocal_fails _ _ _)).bind fun out => ?_
  refine (hstack _ (Instruction.validated_fails _)).bind fun ratioBlock => ?_
  refine (hstack _ (Instruction.validated_fails _)).bind fun positionBlock => ?_
  refine (hstack _ (Instruction.validated_fails _)).bind fun scaleBlock => ?_
  refine (hstack _ (checkBalance_fails _ _)).bind fun _ => ?_
  refine (hstack _ (checkBalance_fails _ _)).bind fun _ => ?_
  refine (hstack _ (Stack.peak_fails _ _ _)).bind fun ratioPeak => ?_
  refine (hstack _ (Stack.peak_fails _ _ _)).bind fun pushPeak => ?_
  refine (hrewriting _ (Splicing.insertBefore_fails _ _ _)).bind fun first => ?_
  exact (hrewriting _ (Splicing.insertBefore_fails _ _ _)).bind fun second => .ok _

/-- **Only the guard says that a module is to be left alone.** -/
theorem execute_skip {g : Graft} {p : Pass} {dependency : Module} {f : Failure Pass}
    (h : g.execute p dependency = .error f) (hskip : f.error.isSkip = true) :
    g.guard.check p.module = .error f.error ∧ f.state = p := by
  rcases bind_eq_error.1 h with h | ⟨_, -, h⟩
  · exact leaving_eq_error.1 h
  -- behind the guard nothing fails with a skip
  have hmembers : ∀ {α : Type} {x : Except Error α} (p : Pass), Fails OfMembers x →
      Fails (fun f => f.error.isSkip = false) (leaving p x) :=
    fun p h => (h.mono fun _ => OfMembers.not_skip).leaving p
  have hnot : f.error.isSkip = false := by
    refine Fails.bind (hmembers _ (targetMethod_fails g _)) (fun target => ?_) f h
    refine Fails.bind (hmembers _ (Config.resolveMembers_fails _ _ _)) fun resolved => ?_
    dsimp only
    split
    · exact graftBody_fails g _ _ _ _ _
    · exact .error rfl
  rw [hskip] at hnot
  cases hnot

end Graft

end CilGraft

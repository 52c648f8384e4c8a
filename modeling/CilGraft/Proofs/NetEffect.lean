/-
The net effect of a block, against the change of depth that the block makes.

- `StackEffect.change`, `totalChange`: the change of depth of an instruction and of a block, without a bound on it.
- `StackEffect.net_eq`: the signed byte of an effect holds the change, or 256 more if the effect is too `wide` for it.
- `netEffect_eq_ok`: the net effect of a block is the sum of the signed bytes.
- `Trace.totalChange_eq`: behind a block the depth has changed by the total change. `netEffect_eq`: so the net effect is
  the difference of the depths behind and before the block, as long as no single change is too great for a signed byte.
- `netEffect_exact_iff`: how far the net effect is from the total change, and when it is the same.
-/
import CilGraft.Module
import CilGraft.Proofs.StraightLine

namespace CilGraft

/-! ## Effects -/

namespace StackEffect

variable {e : StackEffect}

/-- the change of depth, without a bound on it -/
def change (e : StackEffect) : Int := e.pushes.toNat - e.pops.toNat

/-- the change of depth fits a signed byte -/
def Small (e : StackEffect) : Prop := e.net.toInt = (e.pushes.toNat : Int) - e.pops.toNat

/-- takes more than 128 operands beyond those that it gives -/
def wide (e : StackEffect) : Bool := e.pushes.toNat + 128 < e.pops.toNat

theorem after_eq {d : Nat} (h : e.pops.toNat ≤ d) : (e.after d : Int) = d + e.change := by
  simp only [after, change]
  omega

/-- the signed byte wraps the change around -/
theorem net_toInt (e : StackEffect) : e.net.toInt = e.change.bmod 256 := by
  have hbyte : ∀ x : UInt8, x.toInt8.toInt = (x.toNat : Int).bmod 256 := fun x => BitVec.toInt_eq_toNat_bmod x.toBitVec
  rw [net, Int8.toInt_sub, hbyte, hbyte, change]
  simp

/-- **What the signed byte of an effect that gives few operands holds**: the change, or 256 more if that does not fit. -/
theorem net_eq (h : e.pushes.toNat ≤ 127) : e.net.toInt = e.change + if e.wide then 256 else 0 := by
  have hpops := e.pops.toNat_lt
  rw [net_toInt, change, Int.bmod_def]
  simp only [wide, decide_eq_true_eq]
  split_ifs <;> omega

/-- a signed byte is at most 128 from zero -/
theorem abs_net_le (e : StackEffect) : |e.net.toInt| ≤ 128 := by
  have hlow := e.net.le_toInt
  have hhigh := e.net.toInt_lt
  rw [abs_le]
  omega

end StackEffect

namespace Stack

variable {c : Context} {resolve : Resolver} {i : Instruction} {e : StackEffect} {block : List Instruction} {d : Nat}
  {depths : List Nat}

/-- no instruction gives more than two operands -/
theorem effect_pushes_le (h : c.effect i = .ok e) : e.pushes.toNat ≤ 2 := by
  have hfixed : ∀ op : Opcode, ∀ e, op.stackEffect? = some e → e.pushes.toNat ≤ 2 := by
    intro op e he
    cases op <;> cases he <;> decide
  unfold Context.effect at h
  split at h
  · rename_i fixed hop
    cases h
    exact hfixed _ _ hop
  · split at h
    · exact (sized_eq_ok (by decide) h).2.trans_le (by decide)
    · obtain ⟨member, -, h⟩ := bind_eq_ok.1 h
      have hpushes : callPushes i.opcode member.signature ≤ 1 := by
        unfold callPushes
        split_ifs <;> decide
      exact (sized_eq_ok (by omega) h).2.trans_le (by omega)

/-- the signed byte of an instruction holds its change of depth unless it takes too many operands -/
theorem effect_net (h : c.effect i = .ok e) : e.net.toInt = e.change + if e.wide then 256 else 0 :=
  e.net_eq ((effect_pushes_le h).trans (by decide))

/-! ## Blocks -/

/-- the effects of the instructions of a block, in order -/
def effects (c : Context) (block : List Instruction) : Except Error (List StackEffect) := block.mapM c.effect

/-- the change of depth that instructions of these effects make together -/
def totalChange (es : List StackEffect) : Int := (es.map StackEffect.change).sum

/-- the net effect is known if the effects are, and is the sum of their signed bytes -/
theorem netEffect_eq_ok {n : Int} : netEffect resolve block = .ok n ↔
    ∃ es, effects ⟨resolve, false⟩ block = .ok es ∧ n = (es.map (·.net.toInt)).sum := by
  -- the sum so far is arbitrary in the induction
  suffices hsum : ∀ total : Int, block.foldlM (fun total i => do
      return total + (← (Context.mk resolve false).effect i).net.toInt) total = .ok n ↔
      ∃ es, effects ⟨resolve, false⟩ block = .ok es ∧ n = total + (es.map (·.net.toInt)).sum by
    rw [netEffect, hsum 0]
    simp only [zero_add]
  induction block with
  | nil => simp [effects, pure, Except.pure, eq_comm]
  | cons i rest ih =>
    intro total
    simp only [effects, List.foldlM_cons, List.mapM_cons, bind_eq_ok, pure, Except.pure, Except.ok.injEq] at ih ⊢
    constructor
    · rintro ⟨_, ⟨e, he, rfl⟩, h⟩
      obtain ⟨es, hes, rfl⟩ := (ih _).1 h
      exact ⟨e :: es, ⟨e, he, es, hes, rfl⟩, by rw [List.map_cons, List.sum_cons, add_assoc]⟩
    · rintro ⟨_, ⟨e, he, es, hes, rfl⟩, rfl⟩
      exact ⟨_, ⟨e, he, rfl⟩, (ih _).2 ⟨es, hes, by rw [List.map_cons, List.sum_cons, add_assoc]⟩⟩

/-- the sum of the signed bytes is 256 too great for each effect that is too wide -/
theorem net_sum {es : List StackEffect}
    (h : ∀ e ∈ es, e.net.toInt = e.change + if e.wide then 256 else 0) :
    (es.map (·.net.toInt)).sum = totalChange es + 256 * es.countP (·.wide) := by
  induction es with
  | nil => rfl
  | cons e es ih =>
    obtain ⟨he, hes⟩ := List.forall_mem_cons.1 h
    simp only [totalChange] at ih ⊢
    rw [List.map_cons, List.map_cons, List.sum_cons, List.sum_cons, List.countP_cons, he, ih hes]
    split_ifs <;> push_cast <;> ring

theorem abs_net_sum_le (es : List StackEffect) : |(es.map (·.net.toInt)).sum| ≤ 128 * es.length := by
  induction es with
  | nil => simp
  | cons e es ih =>
    rw [List.map_cons, List.sum_cons, List.length_cons]
    have hsplit := abs_add_le e.net.toInt (es.map (·.net.toInt)).sum
    have he := e.abs_net_le
    push_cast
    linarith

namespace Trace

/-- **Behind a block the depth has changed by the total change.** -/
theorem totalChange_eq (h : Trace c d block depths) {d' : Nat} (hlast : (d :: depths)[block.length]? = some d') :
    ∃ es, effects c block = .ok es ∧ (d' : Int) = d + totalChange es := by
  induction h with
  | nil =>
    simp only [List.length_nil, List.getElem?_cons_zero, Option.some.injEq] at hlast
    exact ⟨[], rfl, by simp [hlast, totalChange]⟩
  | @cons d i e rest depths he hpops _ ih =>
    obtain ⟨es, hes, hchange⟩ := ih hlast
    have hall : effects c (i :: rest) = .ok (e :: es) := by
      rw [effects, List.mapM_cons]
      exact bind_eq_ok.2 ⟨e, he, bind_eq_ok.2 ⟨es, hes, rfl⟩⟩
    refine ⟨e :: es, hall, ?_⟩
    rw [hchange, StackEffect.after_eq hpops, totalChange, totalChange, List.map_cons, List.sum_cons, add_assoc]

end Trace

/-- the net effect of a block that runs, if no change of depth is too great for a signed byte -/
theorem netEffect_eq (h : Trace ⟨resolve, false⟩ d block depths) {d' : Nat}
    (hlast : (d :: depths)[block.length]? = some d')
    (hsmall : ∀ i ∈ block, ∀ e, (Context.mk resolve false).effect i = .ok e → e.Small) :
    netEffect resolve block = .ok ((d' : Int) - d) := by
  obtain ⟨es, hes, hchange⟩ := h.totalChange_eq hlast
  have hnet : es.map (·.net.toInt) = es.map StackEffect.change := List.map_congr_left fun e he => by
    obtain ⟨i, hi, heffect⟩ := mem_of_mapM hes he
    exact hsmall i hi e heffect
  refine netEffect_eq_ok.2 ⟨es, hes, ?_⟩
  rw [hnet, ← totalChange]
  omega

/-- where a block can run, the depth behind it is known -/
theorem depthBehind_of_peak {p : Nat} (h : peak resolve block d = .ok p) : ∃ d' es,
    depthBehind resolve d block = .ok d' ∧ effects ⟨resolve, false⟩ block = .ok es ∧ (d' : Int) = d + totalChange es := by
  obtain ⟨depths, htrace, -⟩ := peakFrom_eq_ok.1 h
  obtain ⟨d', hlast⟩ := htrace.exists_last
  obtain ⟨es, hes, hchange⟩ := htrace.totalChange_eq hlast
  exact ⟨d', es, depthBehind_eq_ok htrace hlast, hes, hchange⟩

/-- **How exact the net effect is.** For every resolver: the signed byte of an instruction is its change of depth if and
only if it does not take more than 128 operands beyond those that it gives. The net effect of a block, where it is
known, is 256 too great for each instruction that does, so it is the total change of depth if and only if there is none;
then it is also the difference of the depths behind and before the block, wherever the block can run. It is at most 128
from zero for each instruction. -/
theorem netEffect_exact_iff (resolve : Resolver) :
    (∀ c : Context, c.resolve = resolve → ∀ i e, c.effect i = .ok e → (e.net.toInt = e.change ↔ e.wide = false)) ∧
      ∀ block n, netEffect resolve block = .ok n →
        |n| ≤ 128 * block.length ∧
        ∃ es, effects ⟨resolve, false⟩ block = .ok es ∧ n = totalChange es + 256 * es.countP (·.wide) ∧
          (n = totalChange es ↔ ∀ e ∈ es, e.wide = false) ∧
          ∀ d p, peak resolve block d = .ok p → ∃ d', depthBehind resolve d block = .ok d' ∧
            ((d' : Int) = d + n ↔ ∀ e ∈ es, e.wide = false) := by
  refine ⟨fun c _ i e he => ?_, fun block n h => ?_⟩
  · rw [effect_net he]
    cases e.wide <;> simp
  · obtain ⟨es, hes, hn⟩ := netEffect_eq_ok.1 h
    have hsum := net_sum fun e he => by
      obtain ⟨i, -, hi⟩ := mem_of_mapM hes he
      exact effect_net hi
    have hexact : n = totalChange es ↔ ∀ e ∈ es, e.wide = false := by
      have hnone : es.countP (·.wide) = 0 ↔ ∀ e ∈ es, e.wide = false := by
        simp [List.countP_eq_zero]
      rw [← hnone, hn, hsum]
      omega
    refine ⟨?_, es, hes, hn.trans hsum, hexact, fun d p hpeak => ?_⟩
    · rw [hn, (mapM_eq_ok.1 hes).length_eq]
      exact abs_net_sum_le es
    · obtain ⟨d', es', hd', hes', hchange⟩ := depthBehind_of_peak hpeak
      cases hes.symm.trans hes'
      refine ⟨d', hd', ?_⟩
      rw [← hexact, hchange]
      omega

/-! ## A call on either side of the limit -/

/-- a module that knows a static method with `k` parameters and no result -/
def drawing (k : Nat) : Module :=
  { name := "Assembly-CSharp"
    typeRefs := #[⟨"Game", "Screen"⟩]
    memberRefs := #[⟨⟨"Game", "Screen"⟩, "Draw", .static .void (List.replicate k .int32)⟩] }

/-- a block that calls that method -/
def drawCall : List Instruction := [⟨.call, .method (.ofIndex .memberRef 0)⟩]

/-- the net effect of a call with 128 parameters is its change of depth -/
theorem netEffect_exact_call128 :
    netEffect (drawing 128).resolve drawCall = .ok (-128) ∧ peak (drawing 128).resolve drawCall 128 = .ok 128 ∧
      ∃ es d', effects ⟨(drawing 128).resolve, false⟩ drawCall = .ok es ∧ -128 = totalChange es ∧
        depthBehind (drawing 128).resolve 128 drawCall = .ok d' ∧ (d' : Int) = (128 : Nat) + -128 := by
  have hnet : netEffect (drawing 128).resolve drawCall = .ok (-128) := by decide +kernel
  have hpeak : peak (drawing 128).resolve drawCall 128 = .ok 128 := by decide +kernel
  have heffects : effects ⟨(drawing 128).resolve, false⟩ drawCall = .ok [⟨128, 0⟩] := by decide +kernel
  obtain ⟨-, es, hes, -, hexact, hbehind⟩ := (netEffect_exact_iff (drawing 128).resolve).2 _ _ hnet
  obtain ⟨d', hd', hchange⟩ := hbehind 128 128 hpeak
  cases heffects.symm.trans hes
  have hnarrow : ∀ e ∈ [(⟨128, 0⟩ : StackEffect)], e.wide = false := by decide
  exact ⟨hnet, hpeak, _, d', heffects, hexact.2 hnarrow, hd', hchange.2 hnarrow⟩

/-- The net effect of a call with 129 parameters is not: it takes all 129 operands off the stack, and the net effect tells
of 127 that it puts there. -/
theorem netEffect_call129 :
    netEffect (drawing 129).resolve drawCall = .ok 127 ∧
      effects ⟨(drawing 129).resolve, false⟩ drawCall = .ok [⟨129, 0⟩] ∧ totalChange [⟨129, 0⟩] = -129 ∧
      peak (drawing 129).resolve drawCall 129 = .ok 129 ∧ depthBehind (drawing 129).resolve 129 drawCall = .ok 0 := by
  decide +kernel

end Stack

end CilGraft

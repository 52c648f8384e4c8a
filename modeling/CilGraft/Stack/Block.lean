/-
Straight-line code: the net effect of a block and the greatest depth on the way through it. A return in a block returns
no value.
-/
import CilGraft.Stack.Effect

namespace CilGraft.Stack

/-- the sum of the net effects, each as a signed byte -/
def netEffect (resolve : Resolver) (block : List Instruction) : Except Error Int :=
  block.foldlM (fun total i => return total + (← (Context.mk resolve false).effect i).net.toInt) 0

/-- the depth behind an instruction that is reached with `depth` operands -/
def depthAfter (effect : StackEffect) (position depth : Nat) : Except Error Nat :=
  let pops := effect.pops.toNat
  if depth < pops then .error (.stackUnderflow position pops depth) else .ok (depth - pops + effect.pushes.toNat)

/-- the greatest depth behind any instruction of a block, or `peak` if that is greater -/
def peakFrom (resolve : Resolver) (position depth peak : Nat) : List Instruction → Except Error Nat
  | [] => .ok peak
  | i :: rest => do
    let effect ← (Context.mk resolve false).effect i
    let after ← depthAfter effect position depth
    peakFrom resolve (position + 1) after (max peak after) rest

/-- the greatest depth in a block that is entered with `entry` operands, the entry included -/
def peak (resolve : Resolver) (block : List Instruction) (entry : Nat) : Except Error Nat :=
  peakFrom resolve 0 entry entry block

end CilGraft.Stack

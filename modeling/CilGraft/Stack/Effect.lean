/-
The effect of an instruction on the operand stack. Most opcodes have a fixed effect; a call takes the parameters (and
the object) of the method that its token resolves to, the creation of an object takes the parameters and leaves the
object, and a return takes what the method at hand returns.
-/
import CilGraft.Error
import CilGraft.Signature

namespace CilGraft.Stack

/-- what the effect of code depends on: the members it calls and whether it returns a value -/
structure Context where
  resolve : Resolver
  returnsValue : Bool := false

/-- the context of a method with the given signature -/
def Context.ofSignature (resolve : Resolver) (signature : MethodSig) : Context := ⟨resolve, signature.returnsValue⟩

/-- the member that a call names -/
def callee (resolve : Resolver) (shown : String) (i : Instruction) : Except Error Member :=
  match i.method? with
  | none => .error (.malformed (.noMethod shown))
  | some token =>
    match resolve token with
    | some member => .ok member
    | none => .error (.malformed (.unresolvedCall token))

/-- operands of a call: the parameters, and the object unless it is being created -/
def callPops (opcode : Opcode) (signature : MethodSig) : Nat :=
  signature.params.length + if signature.hasThis ∧ opcode ≠ .newobj then 1 else 0

/-- results of a call: the created object, or the value that the method returns -/
def callPushes (opcode : Opcode) (signature : MethodSig) : Nat :=
  if opcode = .newobj ∨ signature.returnsValue then 1 else 0

/-- an effect of a given size; at most 255 operands can be taken -/
def sized (i : Instruction) (pops pushes : Nat) : Except Error StackEffect :=
  if pops ≤ 255 then .ok ⟨.ofNat pops, .ofNat pushes⟩ else .error (.malformed (.tooManyPops i pops))

def Context.effect (c : Context) (i : Instruction) : Except Error StackEffect :=
  match i.opcode.stackEffect? with
  | some fixed => .ok fixed
  | none =>
    if i.opcode = .ret then
      sized i (if c.returnsValue then 1 else 0) 0
    else do
      let member ← callee c.resolve i.opcode.mnemonic i
      sized i (callPops i.opcode member.signature) (callPushes i.opcode member.signature)

end CilGraft.Stack

/-
The code that a graft inserts. The ratio block sets a vector local to (q, q, 1) where q is the lesser dimension of the
active render target divided by the reference size; a scale block multiplies a vector local by the ratio.
-/
import CilGraft.Graft.Members
import CilGraft.Instruction.Encoding

namespace CilGraft.ImportedMembers

open Instruction

/-- the address of the ratio is below the three numbers, so that the constructor stores the vector there -/
def ratioBlock (m : ImportedMembers) (ratio : Local) (referenceSize : Binary.Single) : Except Error (List Instruction) :=
  validated [
    loadLocalAddress ratio,
    call m.getActive,
    callVirtual m.getWidth,
    call m.getActive,
    callVirtual m.getHeight,
    call m.mathMin,
    { opcode := .convR4 },
    loadFloat32 referenceSize,
    { opcode := .div },
    { opcode := .dup },
    loadFloat32 ⟨0x3F800000⟩,
    call m.vectorCtor]

def scaleBlock (m : ImportedMembers) (target ratio : Local) : Except Error (List Instruction) :=
  validated [loadLocal target, loadLocal ratio, call m.vectorScale, storeLocal target]

end CilGraft.ImportedMembers

/-
Instructions in their shortest encoding. Each function gives the one instruction of its family (load, store or address
of a local, 32-bit constant) that takes the fewest bytes for the slot or value.
-/
import CilGraft.Error

namespace CilGraft.Instruction

/-- refuses an instruction whose operand does not fit its opcode -/
def validate (i : Instruction) : Except Error Unit :=
  if i.isValid then .ok () else .error (.malformed (.operand i))

/-- a block of which every instruction is valid; the first that is not is reported -/
def validated (block : List Instruction) : Except Error (List Instruction) := do
  block.forM validate
  return block

def call (token : Token) : Instruction := ⟨.call, .method token⟩

def callVirtual (token : Token) : Instruction := ⟨.callvirt, .method token⟩

def newObject (token : Token) : Instruction := ⟨.newobj, .method token⟩

def loadLocal (l : Local) : Instruction :=
  if l.index = 0 then { opcode := .ldloc0 }
  else if l.index = 1 then { opcode := .ldloc1 }
  else if l.index = 2 then { opcode := .ldloc2 }
  else if l.index = 3 then { opcode := .ldloc3 }
  else if l.index ≤ 255 then ⟨.ldlocS, .local l⟩
  else ⟨.ldloc, .local l⟩

def storeLocal (l : Local) : Instruction :=
  if l.index = 0 then { opcode := .stloc0 }
  else if l.index = 1 then { opcode := .stloc1 }
  else if l.index = 2 then { opcode := .stloc2 }
  else if l.index = 3 then { opcode := .stloc3 }
  else if l.index ≤ 255 then ⟨.stlocS, .local l⟩
  else ⟨.stloc, .local l⟩

def loadLocalAddress (l : Local) : Instruction :=
  if l.index ≤ 255 then ⟨.ldlocaS, .local l⟩ else ⟨.ldloca, .local l⟩

def loadInt32 (n : Int32) : Instruction :=
  if n = -1 then { opcode := .ldcI4M1 }
  else if n = 0 then { opcode := .ldcI40 }
  else if n = 1 then { opcode := .ldcI41 }
  else if -128 ≤ n ∧ n ≤ 127 then ⟨.ldcI4S, .immediate (.int8 n.toInt8)⟩
  else ⟨.ldcI4, .immediate (.int32 n)⟩

def loadFloat32 (x : Binary.Single) : Instruction := ⟨.ldcR4, .immediate (.float32 x)⟩

end CilGraft.Instruction

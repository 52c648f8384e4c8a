/-
Checked insertion. A block is put in front of an anchor only if everything that it refers to is there: operands fit
their opcodes, locals exist, targets are instructions of the body. Otherwise nothing is changed.
-/
import CilGraft.Body
import CilGraft.Instruction.Encoding

namespace CilGraft

/-- a block that was inserted -/
structure Splice where
  anchor : Handle
  inserted : List Handle
deriving DecidableEq, Repr

/-- a body with the record of what was inserted -/
structure Splicing where
  body : Body
  records : List Splice := []

namespace Splicing

/-- the instruction refers to nothing that the body does not have -/
def checkInstruction (b : Body) (i : Instruction) : Except Error Unit := do
  i.validate
  if let some slot := i.local? then
    if (b.local? slot).isNone then
      throw (.localNotFound s!"{slot.text} referenced by '{i.text}'")
  match i.targets.find? (!b.contains ·) with
  | some foreign => throw (.invalidAnchor foreign)
  | none => return ()

def insertBefore (s : Splicing) (anchor : Handle) (block : List Instruction) : Except Error (Splicing × Splice) := do
  if !s.body.contains anchor then
    throw (.invalidAnchor anchor)
  block.forM (checkInstruction s.body)
  let (body, inserted) ← s.body.insertBefore anchor block
  let record := { anchor, inserted }
  return ({ body, records := s.records ++ [record] }, record)

/-- number of instructions inserted -/
def insertedCount (s : Splicing) : Nat := (s.records.flatMap (·.inserted)).length

end Splicing

end CilGraft

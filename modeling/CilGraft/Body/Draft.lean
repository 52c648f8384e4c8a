/-
Drafts: code that is not in a body yet. Jumps and protected regions name labels, and a label is a place between
instructions. When a draft is placed, its instructions get consecutive slots, so each label before an instruction of the
draft stands for a handle that is known beforehand; a label behind the last instruction stands for the anchor that the
draft is placed in front of, and for nothing when it is placed at the end of a body. Placing changes the body only if
all labels resolve.
-/
import CilGraft.Body
import CilGraft.Instruction.Encoding

namespace CilGraft

namespace Draft

/-- what can jump to a label; a switch has a table of labels -/
inductive Jump where
  | br
  | brtrue
  | brfalse
  | blt
  | leave
deriving DecidableEq, Repr

def Jump.opcode : Jump → Opcode
  | br => .br
  | brtrue => .brtrue
  | brfalse => .brfalse
  | blt => .blt
  | leave => .leave

inductive Item where
  | ready (instruction : Instruction)
  | jump (jump : Jump) (label : String)
  | switch (labels : List String)
deriving DecidableEq, Repr

structure Region where
  flags : UInt16
  tryStart : String
  tryEnd : String
  handlerStart : String
  handlerEnd : Option String
  catchType : Option Token
deriving DecidableEq, Repr

end Draft

structure Draft where
  items : Array Draft.Item := #[]
  /-- each label with the number of instructions before it -/
  labels : List (String × Nat) := []
  regions : Array Draft.Region := #[]
deriving Repr

namespace Draft

def size (d : Draft) : Nat := d.items.size

/-! ## Writing -/

def emit (d : Draft) (i : Instruction) : Except Error Draft := do
  i.validate
  return { d with items := d.items.push (.ready i) }

def jump (d : Draft) (j : Jump) (label : String) : Draft := { d with items := d.items.push (.jump j label) }

def switch (d : Draft) (labels : List String) : Draft := { d with items := d.items.push (.switch labels) }

def region (d : Draft) (r : Region) : Draft := { d with regions := d.regions.push r }

/-- defines a label in front of the next instruction -/
def label (d : Draft) (name : String) : Except Error Draft :=
  match d.labels.lookup name with
  | some _ => .error (.malformed (.labelRedefined name))
  | none => .ok { d with labels := (name, d.size) :: d.labels }

/-! ## Resolving labels -/

/-- what a label stands for -/
inductive Spot where
  | emitted (index : Nat)
  | behind
deriving DecidableEq, Repr

def spot (d : Draft) (label : String) : Except Error Spot :=
  match d.labels.lookup label with
  | some index => .ok (if index < d.size then .emitted index else .behind)
  | none => .error (.malformed (.labelUndefined label))

/-- where a draft goes: a body, its next slot, and the anchor if it is not placed at the end -/
structure Site where
  body : Nat
  first : Nat
  anchor : Option Handle

def Site.handle? (s : Site) : Spot → Option Handle
  | .emitted index => some ⟨s.body, s.first + index⟩
  | .behind => s.anchor

/-- the handle of a spot that has to be an instruction -/
def Site.handle (s : Site) (label : String) (spot : Spot) : Except Error Handle :=
  match s.handle? spot with
  | some handle => .ok handle
  | none => .error (.malformed (.labelPastEnd label))

def target (d : Draft) (s : Site) (label : String) : Except Error Handle := do
  s.handle label (← d.spot label)

def instruction (d : Draft) (s : Site) : Item → Except Error Instruction
  | .ready i => .ok i
  | .jump j label => return ⟨j.opcode, .target (← d.target s label)⟩
  | .switch labels => return ⟨.switch, .switch (← labels.mapM (d.target s))⟩

def clause (d : Draft) (s : Site) (r : Region) : Except Error Clause := do
  let tryStart ← d.spot r.tryStart
  let handlerStart ← d.spot r.handlerStart
  let tryStart ← s.handle r.tryStart tryStart
  let handlerStart ← s.handle r.handlerStart handlerStart
  let tryEnd ← d.spot r.tryEnd
  let handlerEnd ← r.handlerEnd.mapM d.spot
  return {
    flags := r.flags, tryStart, tryEnd := s.handle? tryEnd, handlerStart
    handlerEnd := handlerEnd.bind s.handle?, catchType := r.catchType }

/-! ## Placing -/

/-- the instructions and clauses of a draft at a site -/
def resolve (d : Draft) (s : Site) : Except Error (List Instruction × List Clause) := do
  let instructions ← d.items.toList.mapM (d.instruction s)
  let clauses ← d.regions.toList.mapM (d.clause s)
  return (instructions, clauses)

def appendTo (d : Draft) (b : Body) : Except Error (Body × List Handle) := do
  let (instructions, clauses) ← d.resolve ⟨b.number, b.size, none⟩
  let (b, handles) := b.append instructions
  return (← clauses.foldlM Body.addClause b, handles)

def insertBefore (d : Draft) (b : Body) (anchor : Handle) : Except Error (Body × List Handle) := do
  if !b.contains anchor then
    throw (.invalidAnchor anchor)
  let (instructions, clauses) ← d.resolve ⟨b.number, b.size, some anchor⟩
  let (b, handles) ← b.insertBefore anchor instructions
  return (← clauses.foldlM Body.addClause b, handles)

def loose : Item → Except Error Instruction
  | .ready i => .ok i
  | .jump j label => .error (.malformed (.unplacedJump j.opcode label))
  | .switch _ => .error (.malformed .unplacedSwitch)

/-- the instructions alone, if the draft has neither jumps nor regions -/
def block (d : Draft) : Except Error (List Instruction) := do
  if !d.regions.isEmpty then
    throw (.malformed .unplacedRegions)
  d.items.toList.mapM loose

end Draft

end CilGraft

/-
Method bodies: code in order, local slots, protected regions.

An instruction gets the next slot of its body when it is added, wherever it is put, and keeps it. Handles name slots, so
branch operands and region boundaries go on naming the same instructions when code is inserted: `insertBefore` puts a
block in front of an anchor, and control that jumped to the anchor still skips the block.

This is what a body is. How it is laid out, with its instructions in one place and their order in another, is an `Arena`.
-/
import CilGraft.Error
import CilGraft.Signature

namespace CilGraft

/-- an instruction in its place, with the slot that names it -/
structure Placed where
  slot : Nat
  instruction : Instruction
deriving DecidableEq, Repr

/-- A protected region and its handler. An end that is absent is the end of the body. -/
structure Clause where
  flags : UInt16
  tryStart : Handle
  tryEnd : Option Handle := none
  handlerStart : Handle
  handlerEnd : Option Handle := none
  filterStart : Option Handle := none
  catchType : Option Token := none
deriving DecidableEq, Repr

namespace Clause

/-- the flags of handlers that run without an exception object: finally and fault -/
def withoutException : UInt16 := 0x0002 ||| 0x0004

/-- the handler starts with the exception object on the stack -/
def pushesException (c : Clause) : Bool := c.flags &&& withoutException = 0

/-- the instructions that the clause names -/
def boundaries (c : Clause) : List Handle :=
  [some c.tryStart, c.tryEnd, some c.handlerStart, c.handlerEnd, c.filterStart].filterMap id

end Clause

structure Body where
  /-- told apart from all other bodies by its number -/
  number : Nat
  code : Array Placed := #[]
  locals : Array TypeSig := #[]
  clauses : Array Clause := #[]
  maxStack : UInt16 := 8
  initLocals : Bool := true
deriving Repr

namespace Body

/-- a body without code -/
def empty (number : Nat) : Body := { number }

/-! ## Looking at code -/

def size (b : Body) : Nat := b.code.size

/-- the handle was issued by this body -/
def contains (b : Body) (h : Handle) : Bool := h.body == b.number && h.slot < b.code.size

def instructions (b : Body) : List Instruction := b.code.toList.map (·.instruction)

def handles (b : Body) : List Handle := b.code.toList.map fun c => ⟨b.number, c.slot⟩

def handleAt? (b : Body) (position : Nat) : Option Handle := b.code[position]?.map fun c => ⟨b.number, c.slot⟩

def positionOf? (b : Body) (h : Handle) : Option Nat :=
  if b.contains h then b.code.findIdx? (·.slot == h.slot) else none

/-- the instruction that a handle names -/
def get? (b : Body) (h : Handle) : Option Instruction := do
  let position ← b.positionOf? h
  let placed ← b.code[position]?
  return placed.instruction

/-- the instruction behind the one that a handle names -/
def next? (b : Body) (h : Handle) : Option Handle := do
  let position ← b.positionOf? h
  b.handleAt? (position + 1)

def local? (b : Body) (l : Local) : Option TypeSig := b.locals[l.index.toNat]?

/-! ## Adding code -/

/-- a block with the next slots of the body -/
def issue (b : Body) (block : List Instruction) : List Placed :=
  block.mapIdx fun i instruction => ⟨b.code.size + i, instruction⟩

/-- the handles of the next instructions of the body -/
def fresh (b : Body) (count : Nat) : List Handle := (List.range count).map fun i => ⟨b.number, b.code.size + i⟩

def append (b : Body) (block : List Instruction) : Body × List Handle :=
  ({ b with code := b.code.appendList (b.issue block) }, b.fresh block.length)

def push (b : Body) (instruction : Instruction) : Body × Handle :=
  let slot := b.code.size
  ({ b with code := b.code.push ⟨slot, instruction⟩ }, ⟨b.number, slot⟩)

/-- puts a block in front of the instruction at a position -/
def insertAt (b : Body) (position : Nat) (block : List Instruction) : Body :=
  { b with code := b.code.take position ++ (b.issue block).toArray ++ b.code.drop position }

def insertBefore (b : Body) (anchor : Handle) (block : List Instruction) : Except Error (Body × List Handle) :=
  match b.positionOf? anchor with
  | some position => .ok (b.insertAt position block, b.fresh block.length)
  | none => .error (.invalidAnchor anchor)

/-! ## Locals and clauses -/

/-- adds a slot; a body has at most 65536 of them -/
@[inline] def addLocal (b : Body) (type : TypeSig) : Except Error (Body × Local) :=
  let index := b.locals.size
  if index < 65536 then
    .ok ({ b with locals := b.locals.push type }, ⟨.ofNat index⟩)
  else
    .error (.malformed .localTableFull)

/-- adds a clause, all of whose boundaries have to be in the body -/
def addClause (b : Body) (c : Clause) : Except Error Body :=
  match c.boundaries.find? (!b.contains ·) with
  | some foreign => .error (.invalidAnchor foreign)
  | none => .ok { b with clauses := b.clauses.push c }

end Body

end CilGraft

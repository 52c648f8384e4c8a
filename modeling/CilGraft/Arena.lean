/-
Method bodies as they are laid out. The instructions lie in an arena, in the order in which they were added, and the
order of the code is a list of handles into the arena: code that is put in goes to the end of the arena, and only the
list of handles is shifted. The local slots lie in a table, each with the handle that was given out for it.

`Arena.body` is the body that an arena stands for, and `Body.arena` lays a body out. The operations here change an arena
in place; one that fails leaves it as it is by then.
-/
import CilGraft.Body
import CilGraft.Instruction.Encoding

namespace CilGraft

/-- a local slot with the handle that was given out for it -/
structure LocalSlot where
  id : Local
  type : TypeSig
deriving DecidableEq, Repr

structure Arena where
  /-- told apart from all other bodies by its number -/
  number : Nat
  /-- the instruction in each slot -/
  cells : Array Instruction := #[]
  /-- the handles of the instructions, in the order of the code -/
  order : Array Handle := #[]
  locals : Array LocalSlot := #[]
  clauses : Array Clause := #[]
  maxStack : UInt16 := 8
  initLocals : Bool := true
deriving DecidableEq, Repr

namespace Arena

/-- an arena without code -/
def empty (number : Nat) : Arena := { number }

/-- hands out the numbers of bodies, each of them once -/
structure Supply where
  next : Nat := 1

def create (s : Supply) : Arena × Supply := (empty s.next, ⟨s.next + 1⟩)

/-- the body that an arena stands for -/
def body (a : Arena) : Body where
  number := a.number
  code := a.order.map fun h => ⟨h.slot, a.cells[h.slot]?.getD { opcode := .nop }⟩
  locals := a.locals.map (·.type)
  clauses := a.clauses
  maxStack := a.maxStack
  initLocals := a.initLocals

/-- what is seen of an outcome: the body that the arena stands for -/
def seen {α : Type} : EStateM.Result Error Arena α → Except (Failure Body) (Body × α)
  | .ok v a => .ok (a.body, v)
  | .error e a => .error ⟨e, a.body⟩

/-! ## Looking at code -/

def size (a : Arena) : Nat := a.order.size

/-- the handle was issued by this body -/
def contains (a : Arena) (h : Handle) : Bool := h.body == a.number && h.slot < a.cells.size

/-- the instruction that a handle names -/
def get? (a : Arena) (h : Handle) : Option Instruction := if a.contains h then a.cells[h.slot]? else none

def handleAt? (a : Arena) (position : Nat) : Option Handle := a.order[position]?

def positionOf? (a : Arena) (h : Handle) : Option Nat := if a.contains h then a.order.findIdx? (· == h) else none

/-- the instruction behind the one that a handle names -/
def next? (a : Arena) (h : Handle) : Option Handle := do
  let position ← a.positionOf? h
  a.handleAt? (position + 1)

def local? (a : Arena) (l : Local) : Option LocalSlot := a.locals[l.index.toNat]?

/-! ## Adding code -/

/-- what is done to an arena -/
abbrev Change := EStateM Error Arena

/-- an instruction gets the next slot; the order of the code is as before -/
def allocate (i : Instruction) : Change Handle :=
  modifyGet fun a => (⟨a.number, a.cells.size⟩, { a with cells := a.cells.push i })

def push (i : Instruction) : Change Handle := do
  let h ← allocate i
  modify fun a => { a with order := a.order.push h }
  return h

def insertBefore (anchor : Handle) (block : List Instruction) : Change (List Handle) := do
  match (← get).positionOf? anchor with
  | none => throw (.invalidAnchor anchor)
  | some position =>
    let inserted ← block.mapM allocate
    modify fun a => { a with order := a.order.take position ++ inserted.toArray ++ a.order.drop position }
    return inserted

/-- puts a block in front of an anchor, or at the end -/
def put (anchor : Option Handle) (block : List Instruction) : Change (List Handle) :=
  match anchor with
  | some anchor => insertBefore anchor block
  | none => block.mapM push

/-- gives the instruction that a handle names another operand, by its opcode -/
def setOperand (h : Handle) (operand : Opcode → Operand) : Change Unit :=
  modify fun a =>
    if a.contains h then
      { a with cells := a.cells.modify h.slot fun i => { i with operand := operand i.opcode } }
    else a

/-! ## Locals and clauses -/

/-- adds a slot; a body has at most 65536 of them -/
def addLocal (type : TypeSig) : Change Local := do
  let index := (← get).locals.size
  if index < 65536 then
    let id : Local := ⟨.ofNat index⟩
    modify fun a => { a with locals := a.locals.push { id, type } }
    return id
  else
    throw (.malformed .localTableFull)

/-- adds a clause, all of whose boundaries have to be in the body -/
def addClause (c : Clause) : Change Unit := do
  let a ← get
  match c.boundaries.find? (!a.contains ·) with
  | some foreign => throw (.invalidAnchor foreign)
  | none => modify fun a => { a with clauses := a.clauses.push c }

/-! ## Checked insertion -/

/-- the instruction refers to nothing that the body does not have -/
def check (i : Instruction) : Change Unit := do
  MonadExcept.ofExcept i.validate
  let a ← get
  if let some slot := i.local? then
    if (a.local? slot).isNone then
      throw (.localNotFound s!"{slot.text} referenced by '{i.text}'")
  match i.targets.find? (!a.contains ·) with
  | some foreign => throw (.invalidAnchor foreign)
  | none => return ()

/-- puts a block in front of an anchor, if all that it refers to is there -/
def insertChecked (anchor : Handle) (block : List Instruction) : Change (List Handle) := do
  if !(← get).contains anchor then
    throw (.invalidAnchor anchor)
  block.forM check
  insertBefore anchor block

end Arena

/-- the body laid out: what its handles name goes to their slots -/
def Body.arena (b : Body) : Arena where
  number := b.number
  cells := ((List.range b.size).map fun slot => (b.get? ⟨b.number, slot⟩).getD { opcode := .nop }).toArray
  order := b.handles.toArray
  locals := b.locals.mapIdx fun i type => ⟨⟨.ofNat i⟩, type⟩
  clauses := b.clauses
  maxStack := b.maxStack
  initLocals := b.initLocals

end CilGraft

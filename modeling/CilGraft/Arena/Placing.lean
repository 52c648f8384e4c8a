/-
Placing a draft in an arena, in the order in which it is done. All labels are resolved to spots first. Then the code is
put in with jumps that have no operand yet, and only now are there handles for the spots: those of the new instructions,
and the anchor. Then each jump gets its operand, and each region becomes a clause.

A spot without a handle is passed over: a jump to it has no such target, and a region that starts there no clause. That
no spot is passed over follows from the order of the steps, and it is a matter of proof.
-/
import CilGraft.Arena
import CilGraft.Body.Draft

namespace CilGraft.Draft

open Arena (Change)

/-! ## Resolving to spots -/

/-- a jump by its place in the draft, with the spots that it goes to -/
structure Fixup where
  index : Nat
  spots : List Spot
deriving DecidableEq, Repr

/-- a region with the spots of its boundaries -/
structure Extent where
  region : Region
  tryStart : Spot
  tryEnd : Spot
  handlerStart : Spot
  handlerEnd : Option Spot
deriving DecidableEq, Repr

/-- at the end of a body nothing comes behind the last instruction -/
def present (anchor : Option Handle) (label : String) : Spot → Except Error Unit
  | .emitted _ => .ok ()
  | .behind => if anchor.isNone then .error (.malformed (.labelPastEnd label)) else .ok ()

/-- the spot of a label that has to be an instruction -/
def landing (d : Draft) (anchor : Option Handle) (label : String) : Except Error Spot := do
  let spot ← d.spot label
  present anchor label spot
  return spot

def fixup? (d : Draft) (anchor : Option Handle) (index : Nat) : Item → Except Error (Option Fixup)
  | .ready _ => .ok none
  | .jump _ label => return some ⟨index, [← d.landing anchor label]⟩
  | .switch labels => return some ⟨index, ← labels.mapM (d.landing anchor)⟩

/-- the jumps among items, the first of which has the given place in the draft -/
def fixups (d : Draft) (anchor : Option Handle) (index : Nat) : List Item → Except Error (List Fixup)
  | [] => .ok []
  | item :: items => do
    let fixup ← d.fixup? anchor index item
    let rest ← d.fixups anchor (index + 1) items
    return fixup.toList ++ rest

def extent (d : Draft) (anchor : Option Handle) (r : Region) : Except Error Extent := do
  let tryStart ← d.spot r.tryStart
  let handlerStart ← d.spot r.handlerStart
  present anchor r.tryStart tryStart
  present anchor r.handlerStart handlerStart
  let tryEnd ← d.spot r.tryEnd
  let handlerEnd ← r.handlerEnd.mapM d.spot
  return { region := r, tryStart, tryEnd, handlerStart, handlerEnd }

/-! ## Filling in -/

/-- an instruction as it is put in at first -/
def placeholder : Item → Instruction
  | .ready i => i
  | .jump j _ => { opcode := j.opcode }
  | .switch _ => { opcode := .switch }

/-- the handle of a spot, once the code has its handles -/
def handle? (new : List Handle) (anchor : Option Handle) : Spot → Option Handle
  | .emitted index => new[index]?
  | .behind => anchor

/-- the operand of a jump to targets; without any it has none -/
def operandTo (targets : List Handle) : Opcode → Operand
  | .switch => .switch targets
  | _ => match targets.head? with
    | some target => .target target
    | none => .none

def fix (new : List Handle) (anchor : Option Handle) (f : Fixup) : Change Unit :=
  match new[f.index]? with
  | some h => Arena.setOperand h (operandTo (f.spots.filterMap (handle? new anchor)))
  | none => return ()

/-- the clause of a region, if its starts have handles -/
def clause? (new : List Handle) (anchor : Option Handle) (x : Extent) : Option Clause := do
  let tryStart ← handle? new anchor x.tryStart
  let handlerStart ← handle? new anchor x.handlerStart
  return {
    flags := x.region.flags, tryStart, tryEnd := handle? new anchor x.tryEnd, handlerStart
    handlerEnd := x.handlerEnd.bind (handle? new anchor), catchType := x.region.catchType }

def protect (new : List Handle) (anchor : Option Handle) (x : Extent) : Change Unit :=
  match clause? new anchor x with
  | some c => Arena.addClause c
  | none => return ()

/-! ## Placing -/

/-- places a draft in front of an anchor, or at the end -/
def placeIn (d : Draft) (anchor : Option Handle) : Change (List Handle) := do
  let fixups ← MonadExcept.ofExcept (d.fixups anchor 0 d.items.toList)
  let extents ← MonadExcept.ofExcept (d.regions.toList.mapM (d.extent anchor))
  let new ← Arena.put anchor (d.items.toList.map placeholder)
  fixups.forM (fix new anchor)
  extents.forM (protect new anchor)
  return new

/-- places a draft in front of an anchor, which has to be in the body -/
def insertIn (d : Draft) (anchor : Handle) : Change (List Handle) := do
  if !(← get).contains anchor then
    throw (.invalidAnchor anchor)
  d.placeIn (some anchor)

/-- places a draft in a body that is laid out for it; what is seen is the body -/
def place (d : Draft) (b : Body) (anchor : Option Handle) : Except (Failure Body) (Body × List Handle) :=
  Arena.seen ((d.placeIn anchor).run b.arena)

end CilGraft.Draft

/-
Stack analysis of a body. Every position that control can reach must be reached with one depth of the operand stack.

The walk keeps the depth recorded for each position and a stack of arrivals (a position and a depth) still to be looked
at. It starts with the arrivals at the first instruction and at the handlers and filters. An arrival at a recorded
position must agree with the record; at any other position the depth is recorded and the successors of the instruction
become arrivals. Each step either records a position or takes an arrival away, so the walk ends: that is its measure.
-/
import CilGraft.Body
import CilGraft.Stack.Block

namespace CilGraft.Stack

/-- control arrives at a position with this many operands on the stack -/
structure Arrival where
  position : Nat
  depth : Nat
deriving DecidableEq, Repr

/-- code as the walk sees it: instructions by position, and the positions of what operands name -/
structure Code where
  instructions : Array Instruction
  position? : Handle → Option Nat
  clauses : List Clause

/-- the position of each slot of a body -/
def positionTable (b : Body) : Array (Option Nat) :=
  b.code.zipIdx.foldl (fun table (placed, position) => table.setIfInBounds placed.slot (some position))
    (Array.replicate b.size none)

def Code.ofBody (b : Body) : Code :=
  let table := positionTable b
  { instructions := b.code.map (·.instruction)
    position? := fun h => if h.body = b.number then (table[h.slot]?).join else none
    clauses := b.clauses.toList }

/-- the position of a jump target, which has to be in the body -/
def Code.locate (code : Code) (h : Handle) : Except Error Nat :=
  match code.position? h with
  | some position => .ok position
  | none => .error (.malformed (.jumpOutside h))

/-- arrivals at the start of a clause: its handler, and its filter with the exception object -/
def Code.clauseEntries (code : Code) (c : Clause) : Except Error (List Arrival) := do
  let handler := Arrival.mk (← code.locate c.handlerStart) (if c.pushesException then 1 else 0)
  match c.filterStart with
  | none => return [handler]
  | some filter => return [handler, ⟨← code.locate filter, 1⟩]

/-- the arrivals that the walk starts with, the first one to be looked at last -/
def Code.entries (code : Code) : Except Error (List Arrival) := do
  let start := if code.instructions.isEmpty then [] else [Arrival.mk 0 0]
  return start ++ (← code.clauses.mapM code.clauseEntries).flatten

/-- the depth with which a branch arrives: leaving a protected region empties the stack -/
def branchDepth (i : Instruction) (after : Nat) : Nat := if i.flow = .leave then 0 else after

/-- the arrival at the next instruction, if control goes there; it must not leave the end of the body -/
def Code.fallThrough (code : Code) (position : Nat) (i : Instruction) (after : Nat) : Except Error (List Arrival) :=
  if i.flow.isTerminal then .ok []
  else if position + 1 < code.instructions.size then .ok [⟨position + 1, after⟩]
  else .error (.malformed (.fallsThrough position i))

/-- The depth behind an instruction and where control goes from it: the targets of its operand in order, then the next
instruction. A return must take the whole stack. -/
def Code.visit (code : Code) (c : Context) (i : Instruction) (a : Arrival) : Except Error (Nat × List Arrival) := do
  let effect ← c.effect i
  let after ← depthAfter effect a.position a.depth
  if i.opcode = .ret ∧ a.depth ≠ effect.pops.toNat then
    throw (.stackMismatch a.position effect.pops.toNat a.depth)
  let targets ← i.targets.mapM code.locate
  let next ← code.fallThrough a.position i after
  return (after, targets.map (⟨·, branchDepth i after⟩) ++ next)

structure Walk where
  /-- the depth of each position that was reached -/
  depths : Array (Option Nat)
  /-- arrivals still to be looked at, the next one first -/
  pending : List Arrival
  /-- the greatest depth so far, before or behind an instruction -/
  peak : Nat := 0

namespace Walk

inductive Progress where
  | done (walk : Walk)
  | more (walk : Walk)
  | failed (error : Error)

/-- one arrival is looked at -/
def step (code : Code) (c : Context) : Walk → Progress
  | ⟨depths, [], peak⟩ => .done ⟨depths, [], peak⟩
  | ⟨depths, a :: pending, peak⟩ =>
    if h : a.position < depths.size then
      match depths[a.position] with
      | some recorded =>
        if recorded = a.depth then .more ⟨depths, pending, peak⟩
        else .failed (.stackMismatch a.position recorded a.depth)
      | none =>
        let depths := depths.set a.position (some a.depth)
        match code.instructions[a.position]? with
        | none => .more ⟨depths, pending, max peak a.depth⟩
        | some i =>
          match code.visit c i a with
          | .error e => .failed e
          | .ok (after, successors) =>
            .more ⟨depths, successors.reverse ++ pending, max (max peak a.depth) after⟩
    else .more ⟨depths, pending, peak⟩

/-- number of positions without a depth -/
def unreached (w : Walk) : Nat := w.depths.count none

theorem unreached_set_lt {depths : Array (Option Nat)} {p d : Nat} (h : p < depths.size) (hp : depths[p] = none) :
    (depths.set p (some d)).count none < depths.count none := by
  have hpos : 0 < depths.count none := Array.count_pos_iff.2 (hp ▸ Array.getElem_mem h)
  have hnone : ((none : Option Nat) == none) = true := rfl
  have hsome : (some d == (none : Option Nat)) = false := rfl
  rw [Array.count_set h, hp, hnone, hsome, if_pos rfl, if_neg Bool.false_ne_true]
  omega

/-- a step records a position, or it takes an arrival away and records nothing -/
theorem step_decreases {code : Code} {c : Context} {w w' : Walk} (h : w.step code c = .more w') :
    w'.unreached < w.unreached ∨ (w'.unreached = w.unreached ∧ w'.pending.length < w.pending.length) := by
  obtain ⟨depths, pending, peak⟩ := w
  cases pending with
  | nil => simp [step] at h
  | cons a pending =>
    simp only [step] at h
    split at h
    · rename_i hlt
      split at h
      · split at h
        · injection h with h; subst h; right; simp [unreached]
        · cases h
      · rename_i hnone
        have := unreached_set_lt (d := a.depth) hlt hnone
        split at h
        · injection h with h; subst h; left; simpa [unreached] using this
        · split at h
          · cases h
          · injection h with h; subst h; left; simpa [unreached] using this
    · injection h with h; subst h; right; simp [unreached]

/-- looks at arrivals until none is pending -/
def run (code : Code) (c : Context) (w : Walk) : Except Error Walk :=
  match _ : w.step code c with
  | .done w' => .ok w'
  | .failed e => .error e
  | .more w' => run code c w'
termination_by (w.unreached, w.pending.length)
decreasing_by
  rcases step_decreases ‹w.step code c = .more _› with h | ⟨h₁, h₂⟩
  · exact Prod.Lex.left _ _ h
  · rw [h₁]; exact Prod.Lex.right _ h₂

end Walk

/-- what the analysis tells about a body -/
structure Report where
  depths : Array (Option Nat)
  maxDepth : Nat

namespace Report

/-- the depth before the instruction at a position; none if control does not reach it -/
def depthAt? (r : Report) (position : Nat) : Option Nat := (r.depths[position]?).join

/-- the greatest depth as the header of a body holds it -/
def maxStack (r : Report) : UInt16 := .ofNat (min r.maxDepth 65535)

end Report

def Code.analyze (code : Code) (c : Context) : Except Error Report := do
  let entries ← code.entries
  let walk ← Walk.run code c ⟨Array.replicate code.instructions.size none, entries.reverse, 0⟩
  return ⟨walk.depths, walk.peak⟩

/-- the depths of a body in the context of its method -/
def analyze (c : Context) (b : Body) : Except Error Report := (Code.ofBody b).analyze c

end CilGraft.Stack

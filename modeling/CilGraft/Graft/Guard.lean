/-
The guard: a graft is applied to the module of one name, and only once. A marker on the module tells that it was.
-/
import CilGraft.Module

namespace CilGraft

structure Guard where
  moduleName : String
  marker : String
deriving DecidableEq, Repr

namespace Guard

def isMarked (g : Guard) (m : Module) : Bool := m.hasMarker g.marker

/-- why a module must not be changed; the name is looked at first -/
def ineligibility? (g : Guard) (m : Module) : Option Ineligibility :=
  if m.name ≠ g.moduleName then some (.wrongModule g.moduleName)
  else if g.isMarked m then some (.alreadyPatched g.marker)
  else none

def check (g : Guard) (m : Module) : Except Error Unit :=
  match g.ineligibility? m with
  | some reason => .error (.ineligible m.name reason)
  | none => .ok ()

/-- marks a module, and tells whether it was unmarked before -/
def mark (g : Guard) (m : Module) : Module × Bool := m.addMarker g.marker

end Guard

end CilGraft

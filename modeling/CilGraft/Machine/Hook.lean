/-
Hooks: they answer the calls that evaluated code makes. Of several hooks for one method the first answers.
-/
import CilGraft.Machine.Value

namespace CilGraft

/-- a call as a hook sees it; the object is absent for static calls and while it is being created -/
structure CallSite where
  member : Member
  object : Option Value
  args : List Value

structure Hook where
  name : String
  /-- the type and the name of the methods answered; without them the hook answers nothing -/
  target : Option (TypeName × String) := none
  respond : CallSite → Except Error Value := fun _ => .ok .void

def Hook.answers (h : Hook) (declaring : TypeName) (method : String) : Bool := h.target == some (declaring, method)

abbrev Hooks := List Hook

def Hooks.find? (hooks : Hooks) (declaring : TypeName) (method : String) : Option Hook :=
  List.find? (·.answers declaring method) hooks

end CilGraft

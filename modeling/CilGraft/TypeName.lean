/-
Names of types: a scope (the namespace, possibly empty and possibly dotted) and a simple name. The full name joins
them with a dot and leaves the dot out when the scope is empty; `parse` splits at the last dot.
-/

namespace CilGraft

structure TypeName where
  scope : String
  name : String
deriving DecidableEq, Repr, Inhabited

namespace TypeName

def fullName (t : TypeName) : String := if t.scope.isEmpty then t.name else t.scope ++ "." ++ t.name

def parse (s : String) : TypeName :=
  let back := s.toList.reverse
  let name := String.ofList (back.takeWhile (· ≠ '.')).reverse
  match back.dropWhile (· ≠ '.') with
  | [] => ⟨"", name⟩
  | _ :: scope => ⟨String.ofList scope.reverse, name⟩

/-- by scope, then by name, each by code points -/
def le (a b : TypeName) : Bool := a.scope < b.scope || (a.scope == b.scope && a.name ≤ b.name)

def sort (names : List TypeName) : List TypeName := names.mergeSort le

end TypeName

end CilGraft

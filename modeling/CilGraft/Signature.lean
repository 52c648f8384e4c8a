/-
Signatures of types and methods, and members: what a method token stands for once it is resolved.
-/
import CilGraft.Token
import CilGraft.TypeName

namespace CilGraft

/-- the type of a local, a parameter or a result -/
inductive TypeSig where
  | void
  | bool
  | int32
  | float32
  | float64
  | string
  | object
  | valueType (name : TypeName)
  | reference (name : TypeName)
deriving DecidableEq, Repr, Inhabited

namespace TypeSig

/-- the named type, if the signature is not a primitive one -/
def typeName? : TypeSig → Option TypeName
  | valueType name => some name
  | reference name => some name
  | _ => none

def isPrimitive (s : TypeSig) : Bool := s.typeName?.isNone

def text : TypeSig → String
  | void => "void"
  | bool => "bool"
  | int32 => "int32"
  | float32 => "float32"
  | float64 => "float64"
  | string => "string"
  | object => "object"
  | valueType name => "valuetype " ++ name.fullName
  | reference name => "class " ++ name.fullName

end TypeSig

structure MethodSig where
  /-- the method takes an object besides its parameters -/
  hasThis : Bool := false
  result : TypeSig := .void
  params : List TypeSig := []
deriving DecidableEq, Repr, Inhabited

namespace MethodSig

def static (result : TypeSig) (params : List TypeSig) : MethodSig := ⟨false, result, params⟩

def instanceOf (result : TypeSig) (params : List TypeSig) : MethodSig := ⟨true, result, params⟩

def returnsValue (s : MethodSig) : Bool := s.result ≠ .void

/-- the named types of the result and the parameters, in this order -/
def typeNames (s : MethodSig) : List TypeName := (s.result :: s.params).filterMap TypeSig.typeName?

def text (s : MethodSig) : String :=
  (if s.hasThis then "instance " else "") ++ s.result.text ++ " (" ++ ", ".intercalate (s.params.map TypeSig.text) ++ ")"

end MethodSig

/-- a method as other code sees it -/
structure Member where
  declaring : TypeName
  name : String
  signature : MethodSig
deriving DecidableEq, Repr

/-- how method tokens are looked up -/
abbrev Resolver := Token → Option Member

/-- the name under which constructors are declared -/
def constructorName : String := ".ctor"

end CilGraft

/-
The members that a graft calls. Those of the graphics library are declared by the configuration and have to be there in
the library with exactly the declared signatures; all are then imported into the module. A library that lacks one leaves
the module as it is.
-/
import CilGraft.Graft.Config
import CilGraft.Module

namespace CilGraft

inductive MemberKey where
  | getActive
  | setActive
  | getWidth
  | getHeight
  | vectorCtor
  | vectorScale
  | mathMin
deriving DecidableEq, Repr

namespace MemberKey

/-- in the order of checking and importing -/
def all : List MemberKey := [getActive, setActive, getWidth, getHeight, vectorCtor, vectorScale, mathMin]

def name : MemberKey → String
  | getActive => "GetActive"
  | setActive => "SetActive"
  | getWidth => "GetWidth"
  | getHeight => "GetHeight"
  | vectorCtor => "VectorCtor"
  | vectorScale => "VectorScale"
  | mathMin => "MathMin"

/-- belongs to the library that the module depends on, and not to the core library -/
def inDependency : MemberKey → Bool
  | mathMin => false
  | _ => true

/-- the member that a key stands for in a configuration -/
def member (c : Config) : MemberKey → Member
  | getActive => ⟨c.renderTexture, "get_active", .static (.reference c.renderTexture) []⟩
  | setActive => ⟨c.renderTexture, "set_active", .static .void [.reference c.renderTexture]⟩
  | getWidth => ⟨c.renderTexture, "get_width", .instanceOf .int32 []⟩
  | getHeight => ⟨c.renderTexture, "get_height", .instanceOf .int32 []⟩
  | vectorCtor => ⟨c.vector, constructorName, .instanceOf .void [.float32, .float32, .float32]⟩
  | vectorScale => ⟨c.vector, "Scale", .static (.valueType c.vector) [.valueType c.vector, .valueType c.vector]⟩
  | mathMin => ⟨⟨"System", "Math"⟩, "Min", .static .int32 [.int32, .int32]⟩

end MemberKey

def Member.text (m : Member) : String := s!"{m.signature.text} {m.declaring.fullName}::{m.name}"

/-- the tokens of the members in a module, and the type of a vector as the library defines it -/
structure ImportedMembers where
  getActive : Token
  setActive : Token
  getWidth : Token
  getHeight : Token
  vectorCtor : Token
  vectorScale : Token
  mathMin : Token
  vector : TypeSig
deriving DecidableEq, Repr

namespace Config

/-- a member is in the library: its type is found by full name, the method by name and signature -/
def checkMember (dependency : Module) (member : Member) : Except Error Unit :=
  match dependency.findType? member.declaring.fullName with
  | none => .error (.unresolvedType s!"{member.declaring.fullName} (in dependency '{dependency.name}')")
  | some owner =>
    match dependency.findMethod? owner member.name member.signature with
    | some _ => .ok ()
    | none => .error (.methodNotFound member.declaring.fullName s!"{member.name} {member.signature.text}")

/-- all members of the library are there; the result is the type of a vector -/
def verifyMembers (c : Config) (dependency : Module) : Except Error TypeSig := do
  (MemberKey.all.filter (·.inDependency)).forM fun key => checkMember dependency (key.member c)
  match (dependency.findType? c.vector.fullName).bind (dependency.types[·]?) with
  | some type => return type.signature
  | none => throw (.unresolvedType c.vector.fullName)

/-- makes all members known to a module, after the type of a vector -/
def importMembers (c : Config) (vector : TypeSig) (m : Module) : Module × ImportedMembers :=
  let m := match vector.typeName? with
    | some name => (m.importType name).1
    | none => m
  let (m, getActive) := m.importMethod (MemberKey.getActive.member c)
  let (m, setActive) := m.importMethod (MemberKey.setActive.member c)
  let (m, getWidth) := m.importMethod (MemberKey.getWidth.member c)
  let (m, getHeight) := m.importMethod (MemberKey.getHeight.member c)
  let (m, vectorCtor) := m.importMethod (MemberKey.vectorCtor.member c)
  let (m, vectorScale) := m.importMethod (MemberKey.vectorScale.member c)
  let (m, mathMin) := m.importMethod (MemberKey.mathMin.member c)
  (m, { getActive, setActive, getWidth, getHeight, vectorCtor, vectorScale, mathMin, vector })

def resolveMembers (c : Config) (m dependency : Module) : Except Error (Module × ImportedMembers) := do
  let vector ← c.verifyMembers dependency
  return c.importMembers vector m

end Config

end CilGraft

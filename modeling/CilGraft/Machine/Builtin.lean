/-
Hooks for the methods that the grafted blocks call: minimum and maximum, the active render target with its dimensions,
and vectors of three floats.
-/
import CilGraft.Machine.Hook

namespace CilGraft.Hooks

def refuse (method : String) (args : List Value) : Except Error Value :=
  .error (.notSupported (method ++ " with arguments " ++ Value.tuple args))

def refuseCall (c : CallSite) : Except Error Value :=
  refuse (c.member.declaring.fullName ++ "." ++ c.member.name) c.args

/-! ## Mathematics -/

def mathType : TypeName := ⟨"System", "Math"⟩

def minimum : Value.Operation := ⟨fun x y => .ok (if y < x then y else x), .min, .min⟩

def maximum : Value.Operation := ⟨fun x y => .ok (if x < y then y else x), .max, .max⟩

/-- two numbers of one kind, and nothing else -/
def combine (o : Value.Operation) (c : CallSite) : Except Error Value :=
  match c.args with
  | [x, y] => (o.apply x y).getD (refuse ("Math." ++ c.member.name) c.args)
  | args => refuse ("Math." ++ c.member.name) args

def math : Hooks :=
  [{ name := "System.Math.Min", target := some (mathType, "Min"), respond := combine minimum },
    { name := "System.Math.Max", target := some (mathType, "Max"), respond := combine maximum }]

/-! ## Render target -/

/-- the one object that stands for the active render target -/
def activeTarget : UInt32 := 1

/-- a dimension of the active render target; other objects have none, and null raises an exception -/
def dimension (size : Int32) (c : CallSite) : Except Error Value :=
  match c.object with
  | some (.object id) => if id = activeTarget then .ok (.int32 size) else refuseCall c
  | some .null =>
    .error (.raised ("NullReferenceException in " ++ c.member.declaring.fullName ++ "." ++ c.member.name))
  | _ => refuseCall c

def renderTexture (type : TypeName) (width height : Int32) : Hooks :=
  [{ name := "RenderTexture.get_active", target := some (type, "get_active")
     respond := fun _ => .ok (.object activeTarget) },
    { name := "RenderTexture.set_active", target := some (type, "set_active") },
    { name := "RenderTexture.get_width", target := some (type, "get_width"), respond := dimension width },
    { name := "RenderTexture.get_height", target := some (type, "get_height"), respond := dimension height }]

/-! ## Vectors -/

def makeVector (type : TypeName) (c : CallSite) : Except Error Value :=
  match c.args with
  | [.float32 x, .float32 y, .float32 z] => .ok (.vector type x y z)
  | _ => refuseCall c

/-- the product of two vectors, component by component -/
def scaleVector (type : TypeName) (c : CallSite) : Except Error Value :=
  match c.args with
  | [a, b] =>
    match a.vector?, b.vector? with
    | some (x₁, y₁, z₁), some (x₂, y₂, z₂) => .ok (.vector type (x₁.mul x₂) (y₁.mul y₂) (z₁.mul z₂))
    | _, _ => refuseCall c
  | _ => refuseCall c

def vector3 (type : TypeName) : Hooks :=
  [{ name := "Vector3..ctor", target := some (type, constructorName), respond := makeVector type },
    { name := "Vector3.Scale", target := some (type, "Scale"), respond := scaleVector type }]

/-- all of the above, in this order -/
def default (renderTextureType vectorType : TypeName) (width height : Int32) : Hooks :=
  math ++ renderTexture renderTextureType width height ++ vector3 vectorType

end CilGraft.Hooks

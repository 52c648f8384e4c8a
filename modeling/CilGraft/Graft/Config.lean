/-
What a graft is configured with: the module and method to change, the calls that mark where, and the types involved. A
drawing method assumes a render target of a reference size; the graft scales what it draws by the ratio of the actual
size to that.
-/
import CilGraft.Error
import CilGraft.TypeName

namespace CilGraft

structure Config where
  moduleName : String := "Assembly-CSharp"
  marker : String := "CM3D2_TEXTURERESOLUTION"
  targetType : String := "TBody"
  targetMethod : String := "MulTexProc"
  /-- the render target size that the method was written for: 1024 -/
  referenceSize : Binary.Single := ⟨0x44800000⟩
  /-- the method that makes a render target active -/
  activationMember : String := "set_active"
  /-- the method that pushes the drawing matrix -/
  pushMember : String := "PushMatrix"
  renderTexture : TypeName := ⟨"UnityEngine", "RenderTexture"⟩
  vector : TypeName := ⟨"UnityEngine", "Vector3"⟩
deriving DecidableEq, Repr

namespace Config

/-- names that must not be empty, in the order in which they are checked -/
def names (c : Config) : List (String × String) :=
  [("module_name", c.moduleName), ("marker", c.marker), ("target_type", c.targetType),
    ("target_method", c.targetMethod), ("activation_member", c.activationMember), ("push_member", c.pushMember),
    ("render_texture", c.renderTexture.name), ("vector", c.vector.name)]

def validate (c : Config) : Except Error Unit :=
  match c.names.find? (·.2.isEmpty) with
  | some (field, _) => .error (.invalidConfig s!"'{field}' must not be empty")
  | none =>
    if c.referenceSize.isPositive then .ok ()
    else .error (.invalidConfig s!"reference size must be a positive number, got {c.referenceSize.plain}")

end Config

end CilGraft

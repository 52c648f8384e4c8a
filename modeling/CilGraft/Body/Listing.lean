/-
The listing of a body: one line for each instruction, with its position as label. A target in the body is shown by its
label, any other by its handle.
-/
import CilGraft.Body

namespace CilGraft.Body

def labelAt (position : Nat) : String := "IL_" ++ Numeral.padded 4 position

def label (b : Body) (h : Handle) : String :=
  match b.positionOf? h with
  | some position => labelAt position
  | none => h.text

/-- the operand column, with a blank in front -/
def operandColumn (b : Body) : Operand → String
  | .none => ""
  | .target handle => " " ++ b.label handle
  | .switch handles => " (" ++ ", ".intercalate (handles.map b.label) ++ ")"
  | operand => " " ++ operand.text

def line (b : Body) (position : Nat) (i : Instruction) : String :=
  labelAt position ++ ": " ++ Numeral.column 10 i.opcode.mnemonic ++ b.operandColumn i.operand ++ "\n"

def listing (b : Body) : String := String.join (b.instructions.mapIdx b.line)

end CilGraft.Body

/-
Instructions and the things that an operand can name: other instructions by handle, local slots, arguments, methods.
An instruction may carry any operand; `isValid` says whether it is one that the opcode can be encoded with.
-/
import CilGraft.Decimal.Layout
import CilGraft.Opcode
import CilGraft.Token

namespace CilGraft

/-- Names an instruction of a body. The slot counts the instructions that the body has issued; it is not a position and
does not change when code is inserted. -/
structure Handle where
  body : Nat
  slot : Nat
deriving DecidableEq, Repr, Inhabited

def Handle.text (h : Handle) : String := "#" ++ toString h.slot ++ "@body" ++ toString h.body

/-- a local slot of a method body -/
structure Local where
  index : UInt16
deriving DecidableEq, Repr, Inhabited

def Local.text (l : Local) : String := "V_" ++ toString l.index

/-- a constant embedded in an instruction -/
inductive Immediate where
  | int8 (value : Int8)
  | int32 (value : Int32)
  | int64 (value : Int64)
  | float32 (value : Binary.Single)
  | float64 (value : Binary.Double)
deriving DecidableEq, Repr

namespace Immediate

/-- the kind of operand that holds such a constant -/
def kind : Immediate → OperandKind
  | int8 _ => .int8
  | int32 _ => .int32
  | int64 _ => .int64
  | float32 _ => .float32
  | float64 _ => .float64

def text : Immediate → String
  | int8 value => toString value.toInt
  | int32 value => toString value.toInt
  | int64 value => toString value.toInt
  | float32 value => value.literal
  | float64 value => value.literal

/-- the encoded bytes as one hexadecimal word, integers in two's complement -/
def hex : Immediate → String
  | int8 value => Numeral.upperHex 2 value.toUInt8.toNat
  | int32 value => Numeral.upperHex 8 value.toUInt32.toNat
  | int64 value => Numeral.upperHex 16 value.toUInt64.toNat
  | float32 value => Numeral.upperHex 8 value.bits.toNat
  | float64 value => Numeral.upperHex 16 value.bits.toNat

end Immediate

inductive Operand where
  | none
  | immediate (value : Immediate)
  | local (slot : Local)
  | argument (index : UInt16)
  | method (token : Token)
  | target (handle : Handle)
  | switch (handles : List Handle)
deriving DecidableEq, Repr

def Operand.text : Operand → String
  | none => ""
  | immediate value => value.text
  | .local slot => slot.text
  | argument index => "A_" ++ toString index
  | method token => token.text
  | target handle => handle.text
  | switch handles => "(" ++ ", ".intercalate (handles.map Handle.text) ++ ")"

structure Instruction where
  opcode : Opcode
  operand : Operand := .none
deriving DecidableEq, Repr

namespace Instruction

def text (i : Instruction) : String :=
  match i.operand with
  | .none => i.opcode.mnemonic
  | operand => i.opcode.mnemonic ++ " " ++ operand.text

/-- The operand is of the kind that the opcode takes. A short form names a slot or an argument in one byte; a method
operand is a method token. -/
def isValid (i : Instruction) : Bool :=
  match i.operand, i.opcode.operandKind with
  | .none, .none => true
  | .immediate value, kind => value.kind = kind
  | .local slot, .localShort => slot.index ≤ 255
  | .local _, .local => true
  | .argument index, .argumentShort => index ≤ 255
  | .method token, .method => token.isMethod
  | .target _, .target => true
  | .target _, .targetShort => true
  | .switch _, .switch => true
  | _, _ => false

def flow (i : Instruction) : Flow := i.opcode.flow

/-- calls a method or creates an object -/
def isCall (i : Instruction) : Bool := i.flow = .call

/-- the instructions named by the operand -/
def targets (i : Instruction) : List Handle :=
  match i.operand with
  | .target handle => [handle]
  | .switch handles => handles
  | _ => []

def method? (i : Instruction) : Option Token :=
  match i.operand with
  | .method token => some token
  | _ => none

/-- the local slot that the instruction touches, named by the operand or by the opcode -/
def local? (i : Instruction) : Option Local :=
  match i.operand with
  | .local slot => some slot
  | _ => i.opcode.implicitLocal?.map Local.mk

def float32? (i : Instruction) : Option Binary.Single :=
  match i.operand with
  | .immediate (.float32 value) => some value
  | _ => none

/-- encoded size in bytes; a switch table has a count and one offset for each target -/
def size (i : Instruction) : Nat :=
  i.opcode.size + match i.operand with
    | .switch handles => 4 + 4 * handles.length
    | _ => i.opcode.operandKind.size?.getD 0

end Instruction

end CilGraft

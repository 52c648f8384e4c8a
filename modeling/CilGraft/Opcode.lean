/-
The instruction set. Every opcode has one row: mnemonic, encoding, kind of operand, effect on control flow and effect
on the operand stack. Calls and returns have no fixed stack effect, it depends on a signature.
-/

namespace CilGraft

/-- what an opcode takes as operand; short forms are one byte wide -/
inductive OperandKind where
  | none
  | int8
  | int32
  | int64
  | float32
  | float64
  | method
  | localShort
  | local
  | argumentShort
  | targetShort
  | target
  | switch
deriving DecidableEq, Repr

namespace OperandKind

def name : OperandKind → String
  | none => "None"
  | int8 => "Int8"
  | int32 => "Int32"
  | int64 => "Int64"
  | float32 => "Float32"
  | float64 => "Float64"
  | method => "Method"
  | localShort => "LocalShort"
  | .local => "Local"
  | argumentShort => "ArgumentShort"
  | targetShort => "TargetShort"
  | target => "Target"
  | switch => "Switch"

/-- encoded size in bytes; that of a switch table depends on its length -/
def size? : OperandKind → Option Nat
  | none => some 0
  | int8 | localShort | argumentShort | targetShort => some 1
  | .local => some 2
  | int32 | float32 | method | target => some 4
  | int64 | float64 => some 8
  | switch => Option.none

end OperandKind

/-- where control goes after an instruction -/
inductive Flow where
  | sequential
  | branch
  | jump
  | call
  | ret
  | switch
  | throw
  | endFinally
  | leave
deriving DecidableEq, Repr

namespace Flow

/-- control may go to a named instruction -/
def isBranch : Flow → Bool
  | branch | jump | switch | leave => true
  | _ => false

/-- control never goes to the next instruction -/
def isTerminal : Flow → Bool
  | jump | ret | throw | endFinally | leave => true
  | _ => false

end Flow

/-- operands taken off the stack, then results put on it -/
structure StackEffect where
  pops : UInt8
  pushes : UInt8
deriving DecidableEq, Repr

/-- The change of depth as a signed byte. It wraps for an effect of more than 128 operands. -/
def StackEffect.net (e : StackEffect) : Int8 := e.pushes.toInt8 - e.pops.toInt8

inductive Opcode where
  | nop
  | ldarg0
  | ldarg1
  | ldarg2
  | ldarg3
  | ldargS
  | ldloc0
  | ldloc1
  | ldloc2
  | ldloc3
  | stloc0
  | stloc1
  | stloc2
  | stloc3
  | ldlocS
  | ldlocaS
  | stlocS
  | ldnull
  | ldcI4M1
  | ldcI40
  | ldcI41
  | ldcI4S
  | ldcI4
  | ldcI8
  | ldcR4
  | ldcR8
  | dup
  | pop
  | call
  | ret
  | brS
  | brfalseS
  | brtrueS
  | br
  | brfalse
  | brtrue
  | beq
  | blt
  | switch
  | add
  | sub
  | mul
  | div
  | rem
  | neg
  | convI4
  | convR4
  | convR8
  | callvirt
  | newobj
  | throw
  | endfinally
  | leave
  | leaveS
  | ceq
  | cgt
  | clt
  | ldloc
  | ldloca
  | stloc
deriving DecidableEq, Repr

namespace Opcode

/-- all opcodes in the order of their declaration -/
def all : List Opcode :=
  [.nop, .ldarg0, .ldarg1, .ldarg2, .ldarg3, .ldargS, .ldloc0, .ldloc1, .ldloc2, .ldloc3, .stloc0, .stloc1,
   .stloc2, .stloc3, .ldlocS, .ldlocaS, .stlocS, .ldnull, .ldcI4M1, .ldcI40, .ldcI41, .ldcI4S, .ldcI4, .ldcI8,
   .ldcR4, .ldcR8, .dup, .pop, .call, .ret, .brS, .brfalseS, .brtrueS, .br, .brfalse, .brtrue, .beq, .blt,
   .switch, .add, .sub, .mul, .div, .rem, .neg, .convI4, .convR4, .convR8, .callvirt, .newobj, .throw,
   .endfinally, .leave, .leaveS, .ceq, .cgt, .clt, .ldloc, .ldloca, .stloc]

structure Row where
  mnemonic : String
  /-- first byte of a two-byte encoding, or 0 -/
  lead : UInt8
  byte : UInt8
  operand : OperandKind
  flow : Flow
  stack : Option StackEffect

def row : Opcode → Row
  | nop => ⟨"nop", 0, 0x00, .none, .sequential, some ⟨0, 0⟩⟩
  | ldarg0 => ⟨"ldarg.0", 0, 0x02, .none, .sequential, some ⟨0, 1⟩⟩
  | ldarg1 => ⟨"ldarg.1", 0, 0x03, .none, .sequential, some ⟨0, 1⟩⟩
  | ldarg2 => ⟨"ldarg.2", 0, 0x04, .none, .sequential, some ⟨0, 1⟩⟩
  | ldarg3 => ⟨"ldarg.3", 0, 0x05, .none, .sequential, some ⟨0, 1⟩⟩
  | ldargS => ⟨"ldarg.s", 0, 0x0E, .argumentShort, .sequential, some ⟨0, 1⟩⟩
  | ldloc0 => ⟨"ldloc.0", 0, 0x06, .none, .sequential, some ⟨0, 1⟩⟩
  | ldloc1 => ⟨"ldloc.1", 0, 0x07, .none, .sequential, some ⟨0, 1⟩⟩
  | ldloc2 => ⟨"ldloc.2", 0, 0x08, .none, .sequential, some ⟨0, 1⟩⟩
  | ldloc3 => ⟨"ldloc.3", 0, 0x09, .none, .sequential, some ⟨0, 1⟩⟩
  | stloc0 => ⟨"stloc.0", 0, 0x0A, .none, .sequential, some ⟨1, 0⟩⟩
  | stloc1 => ⟨"stloc.1", 0, 0x0B, .none, .sequential, some ⟨1, 0⟩⟩
  | stloc2 => ⟨"stloc.2", 0, 0x0C, .none, .sequential, some ⟨1, 0⟩⟩
  | stloc3 => ⟨"stloc.3", 0, 0x0D, .none, .sequential, some ⟨1, 0⟩⟩
  | ldlocS => ⟨"ldloc.s", 0, 0x11, .localShort, .sequential, some ⟨0, 1⟩⟩
  | ldlocaS => ⟨"ldloca.s", 0, 0x12, .localShort, .sequential, some ⟨0, 1⟩⟩
  | stlocS => ⟨"stloc.s", 0, 0x13, .localShort, .sequential, some ⟨1, 0⟩⟩
  | ldnull => ⟨"ldnull", 0, 0x14, .none, .sequential, some ⟨0, 1⟩⟩
  | ldcI4M1 => ⟨"ldc.i4.m1", 0, 0x15, .none, .sequential, some ⟨0, 1⟩⟩
  | ldcI40 => ⟨"ldc.i4.0", 0, 0x16, .none, .sequential, some ⟨0, 1⟩⟩
  | ldcI41 => ⟨"ldc.i4.1", 0, 0x17, .none, .sequential, some ⟨0, 1⟩⟩
  | ldcI4S => ⟨"ldc.i4.s", 0, 0x1F, .int8, .sequential, some ⟨0, 1⟩⟩
  | ldcI4 => ⟨"ldc.i4", 0, 0x20, .int32, .sequential, some ⟨0, 1⟩⟩
  | ldcI8 => ⟨"ldc.i8", 0, 0x21, .int64, .sequential, some ⟨0, 1⟩⟩
  | ldcR4 => ⟨"ldc.r4", 0, 0x22, .float32, .sequential, some ⟨0, 1⟩⟩
  | ldcR8 => ⟨"ldc.r8", 0, 0x23, .float64, .sequential, some ⟨0, 1⟩⟩
  | dup => ⟨"dup", 0, 0x25, .none, .sequential, some ⟨1, 2⟩⟩
  | pop => ⟨"pop", 0, 0x26, .none, .sequential, some ⟨1, 0⟩⟩
  | call => ⟨"call", 0, 0x28, .method, .call, none⟩
  | ret => ⟨"ret", 0, 0x2A, .none, .ret, none⟩
  | brS => ⟨"br.s", 0, 0x2B, .targetShort, .jump, some ⟨0, 0⟩⟩
  | brfalseS => ⟨"brfalse.s", 0, 0x2C, .targetShort, .branch, some ⟨1, 0⟩⟩
  | brtrueS => ⟨"brtrue.s", 0, 0x2D, .targetShort, .branch, some ⟨1, 0⟩⟩
  | br => ⟨"br", 0, 0x38, .target, .jump, some ⟨0, 0⟩⟩
  | brfalse => ⟨"brfalse", 0, 0x39, .target, .branch, some ⟨1, 0⟩⟩
  | brtrue => ⟨"brtrue", 0, 0x3A, .target, .branch, some ⟨1, 0⟩⟩
  | beq => ⟨"beq", 0, 0x3B, .target, .branch, some ⟨2, 0⟩⟩
  | blt => ⟨"blt", 0, 0x3F, .target, .branch, some ⟨2, 0⟩⟩
  | switch => ⟨"switch", 0, 0x45, .switch, .switch, some ⟨1, 0⟩⟩
  | add => ⟨"add", 0, 0x58, .none, .sequential, some ⟨2, 1⟩⟩
  | sub => ⟨"sub", 0, 0x59, .none, .sequential, some ⟨2, 1⟩⟩
  | mul => ⟨"mul", 0, 0x5A, .none, .sequential, some ⟨2, 1⟩⟩
  | div => ⟨"div", 0, 0x5B, .none, .sequential, some ⟨2, 1⟩⟩
  | rem => ⟨"rem", 0, 0x5D, .none, .sequential, some ⟨2, 1⟩⟩
  | neg => ⟨"neg", 0, 0x65, .none, .sequential, some ⟨1, 1⟩⟩
  | convI4 => ⟨"conv.i4", 0, 0x69, .none, .sequential, some ⟨1, 1⟩⟩
  | convR4 => ⟨"conv.r4", 0, 0x6B, .none, .sequential, some ⟨1, 1⟩⟩
  | convR8 => ⟨"conv.r8", 0, 0x6C, .none, .sequential, some ⟨1, 1⟩⟩
  | callvirt => ⟨"callvirt", 0, 0x6F, .method, .call, none⟩
  | newobj => ⟨"newobj", 0, 0x73, .method, .call, none⟩
  | throw => ⟨"throw", 0, 0x7A, .none, .throw, some ⟨1, 0⟩⟩
  | endfinally => ⟨"endfinally", 0, 0xDC, .none, .endFinally, some ⟨0, 0⟩⟩
  | leave => ⟨"leave", 0, 0xDD, .target, .leave, some ⟨0, 0⟩⟩
  | leaveS => ⟨"leave.s", 0, 0xDE, .targetShort, .leave, some ⟨0, 0⟩⟩
  | ceq => ⟨"ceq", 0xFE, 0x01, .none, .sequential, some ⟨2, 1⟩⟩
  | cgt => ⟨"cgt", 0xFE, 0x02, .none, .sequential, some ⟨2, 1⟩⟩
  | clt => ⟨"clt", 0xFE, 0x04, .none, .sequential, some ⟨2, 1⟩⟩
  | ldloc => ⟨"ldloc", 0xFE, 0x0C, .local, .sequential, some ⟨0, 1⟩⟩
  | ldloca => ⟨"ldloca", 0xFE, 0x0D, .local, .sequential, some ⟨0, 1⟩⟩
  | stloc => ⟨"stloc", 0xFE, 0x0E, .local, .sequential, some ⟨1, 0⟩⟩

def mnemonic (op : Opcode) : String := op.row.mnemonic

def ofMnemonic? (s : String) : Option Opcode := all.find? (·.mnemonic == s)

def operandKind (op : Opcode) : OperandKind := op.row.operand

def flow (op : Opcode) : Flow := op.row.flow

/-- the stack effect, if it does not depend on a signature -/
def stackEffect? (op : Opcode) : Option StackEffect := op.row.stack

/-- number of bytes without the operand -/
def size (op : Opcode) : Nat := if op.row.lead = 0 then 1 else 2

/-- calls a method of a given name: `call` and `callvirt`, but not the creation of an object -/
def isCallLike : Opcode → Bool
  | call | callvirt => true
  | _ => false

/-- the local slot that the shortest forms name by themselves -/
def implicitLocal? : Opcode → Option UInt16
  | ldloc0 | stloc0 => some 0
  | ldloc1 | stloc1 => some 1
  | ldloc2 | stloc2 => some 2
  | ldloc3 | stloc3 => some 3
  | _ => none

end Opcode

end CilGraft

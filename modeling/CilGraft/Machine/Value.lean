/-
Values of the machine: what stack, locals and arguments hold. An operation that does not apply to the kinds of its
operands has no result.
-/
import CilGraft.Error
import CilGraft.Signature

namespace CilGraft

inductive Value where
  /-- what an unset local holds, and what a call without result gives -/
  | void
  | int32 (value : Int32)
  | float32 (value : Binary.Single)
  | float64 (value : Binary.Double)
  /-- an object, known by a number only -/
  | object (id : UInt32)
  | null
  /-- the address of a local slot -/
  | address (slot : Local)
  /-- an instance of a value type -/
  | record (type : TypeName) (fields : List Value)
deriving Repr, Inhabited

namespace Value

mutual

def text : Value → String
  | void => "void"
  | int32 value => toString value.toInt
  | float32 value => value.literal ++ "f"
  | float64 value => value.literal ++ "d"
  | object id => "obj#" ++ toString id
  | null => "null"
  | address slot => "&" ++ slot.text
  | record type fields => type.fullName ++ "(" ++ ", ".intercalate (texts fields) ++ ")"

def texts : List Value → List String
  | [] => []
  | value :: rest => value.text :: texts rest

end

/-- values in parentheses, as messages show operands -/
def tuple (values : List Value) : String := "(" ++ ", ".intercalate (texts values) ++ ")"

def ofBool (b : Bool) : Value := .int32 (if b then 1 else 0)

/-- a record of three floats -/
def vector (type : TypeName) (x y z : Binary.Single) : Value := .record type [.float32 x, .float32 y, .float32 z]

def int32? : Value → Option Int32
  | int32 value => some value
  | _ => none

def float32? : Value → Option Binary.Single
  | float32 value => some value
  | _ => none

/-- the components of a record of three floats, of whatever type -/
def vector? : Value → Option (Binary.Single × Binary.Single × Binary.Single)
  | record _ [.float32 x, .float32 y, .float32 z] => some (x, y, z)
  | _ => none

def isVoid : Value → Bool
  | void => true
  | _ => false

/-! ## Operations -/

/-- an operation on two numbers of one kind -/
structure Operation where
  int32 : Int32 → Int32 → Except Error Int32
  float32 : Binary.Single → Binary.Single → Binary.Single
  float64 : Binary.Double → Binary.Double → Binary.Double

def Operation.apply (o : Operation) : Value → Value → Option (Except Error Value)
  | .int32 x, .int32 y => some (Value.int32 <$> o.int32 x y)
  | .float32 x, .float32 y => some (.ok (.float32 (o.float32 x y)))
  | .float64 x, .float64 y => some (.ok (.float64 (o.float64 x y)))
  | _, _ => none

/-- a division of integers, which raises an exception when the divisor is zero -/
def divided (op : Int32 → Int32 → Int32) (x y : Int32) : Except Error Int32 :=
  if y = 0 then .error (.raised "DivideByZeroException") else .ok (op x y)

/-- The arithmetic of an opcode. Integers wrap around; a quotient is cut toward zero. -/
def Operation.ofOpcode? : Opcode → Option Operation
  | .add => some ⟨fun x y => .ok (x + y), .add, .add⟩
  | .sub => some ⟨fun x y => .ok (x - y), .sub, .sub⟩
  | .mul => some ⟨fun x y => .ok (x * y), .mul, .mul⟩
  | .div => some ⟨divided (· / ·), .div, .div⟩
  | .rem => some ⟨divided (· % ·), .rem, .rem⟩
  | _ => none

/-- the order of two numbers of one kind, if they are comparable at all -/
def order? : Value → Value → Option (Option Ordering)
  | .int32 x, .int32 y => some (some (compare x.toInt y.toInt))
  | .float32 x, .float32 y => some (x.order y)
  | .float64 x, .float64 y => some (x.order y)
  | _, _ => none

/-- the order that a comparison opcode tests for -/
def testedOrder? : Opcode → Option Ordering
  | .ceq => some .eq
  | .cgt => some .gt
  | .clt => some .lt
  | _ => none

def neg? : Value → Option Value
  | .int32 x => some (.int32 (-x))
  | .float32 x => some (.float32 x.neg)
  | .float64 x => some (.float64 x.neg)
  | _ => none

/-- the conversion of an opcode: to an integer, or to one of the two widths of float -/
def convert? : Opcode → Value → Option Value
  | .convI4, .int32 x => some (.int32 x)
  | .convI4, .float32 x => some (.int32 x.toInt32)
  | .convI4, .float64 x => some (.int32 x.toInt32)
  | .convR4, .int32 x => some (.float32 (.ofInt32 x))
  | .convR4, .float32 x => some (.float32 x)
  | .convR4, .float64 x => some (.float32 x.toSingle)
  | .convR8, .int32 x => some (.float64 (.ofInt32 x))
  | .convR8, .float32 x => some (.float64 x.toDouble)
  | .convR8, .float64 x => some (.float64 x)
  | _, _ => none

end Value

end CilGraft

/-
The machine: it evaluates straight-line code one instruction at a time.

An instruction is carried out in three parts. Its plan tells how many operands it takes; they are taken off the stack;
what it does with them is a push, a store to a local or the return. A plan that cannot be made leaves the machine as it
is, and so does a stack that is too short; an error that comes later leaves the operands taken. Jumps are not evaluated.
-/
import CilGraft.Body
import CilGraft.Machine.Hook
import CilGraft.Stack.Effect

namespace CilGraft

structure Machine where
  locals : Array Value
  args : Array Value := #[]
  /-- the operand stack, top first -/
  stack : List Value := []
  /-- the value returned, once a return was evaluated; a return from an empty stack has none -/
  returned : Option (Option Value) := none

namespace Machine

/-- a machine with unset locals -/
def new (slots : Nat) (args : Array Value) : Machine := { locals := .replicate slots .void, args }

def ofBody (b : Body) (args : Array Value) : Machine := .new b.locals.size args

/-- what evaluated code sees of its surroundings -/
structure Surroundings where
  resolve : Resolver
  hooks : Hooks

/-! ## Locals and arguments -/

def local? (m : Machine) (l : Local) : Option Value := m.locals[l.index.toNat]?

def readLocal (m : Machine) (l : Local) : Except Error Value :=
  match m.local? l with
  | some value => .ok value
  | none => .error (.localNotFound l.text)

def setLocal (m : Machine) (l : Local) (value : Value) : Except Error Machine :=
  if l.index.toNat < m.locals.size then
    .ok { m with locals := m.locals.setIfInBounds l.index.toNat value }
  else
    .error (.localNotFound l.text)

def readArg (m : Machine) (index : Nat) : Except Error Value :=
  match m.args[index]? with
  | some value => .ok value
  | none => .error (.notSupported s!"Argument A_{index} is not bound")

/-! ## Plans -/

/-- what an instruction does with its operands -/
inductive Outcome where
  /-- the last value is on top afterwards -/
  | push (values : List Value)
  | store (slot : Local) (value : Value)
  | finish

structure Plan where
  operands : Nat
  /-- the operands come with the top of the stack last -/
  act : List Value → Except Error Outcome

def unsupported (i : Instruction) : Error := .notSupported s!"Cannot evaluate '{i.text}'"

def unsupportedOn (i : Instruction) (values : List Value) : Error :=
  .notSupported s!"Cannot evaluate '{i.text}' on {Value.tuple values}"

namespace Plan

/-- a plan without operands -/
def give (value : Except Error Value) : Plan := ⟨0, fun _ => return .push [← value]⟩

def unary (i : Instruction) (f : Value → Option (List Value)) : Plan :=
  ⟨1, fun
    | [x] => match f x with
      | some values => .ok (.push values)
      | none => .error (unsupportedOn i [x])
    | values => .error (unsupportedOn i values)⟩

def binary (i : Instruction) (f : Value → Value → Option (Except Error Value)) : Plan :=
  ⟨2, fun
    | [x, y] => match f x y with
      | some result => return .push [← result]
      | none => .error (unsupportedOn i [x, y])
    | values => .error (unsupportedOn i values)⟩

/-- The result of a call goes onto the stack if there is one. A constructor that is called on the address of a local
stores the new value there. -/
def callOutcome (opcode : Opcode) (member : Member) (object : Option Value) (result : Value) : Outcome :=
  if opcode = .newobj then .push [result]
  else
    match object with
    | some (.address slot) =>
      if member.name = constructorName then .store slot result
      else if member.signature.returnsValue then .push [result] else .push []
    | _ => if member.signature.returnsValue then .push [result] else .push []

def call (env : Surroundings) (i : Instruction) : Except Error Plan := do
  let member ← Stack.callee env.resolve i.text i
  match env.hooks.find? member.declaring member.name with
  | none => throw (.notSupported s!"No hook for {member.declaring.fullName}.{member.name}")
  | some hook =>
    let operands := Stack.callPops i.opcode member.signature
    return ⟨operands, fun values => do
      let args := values.drop (operands - member.signature.params.length)
      let object := if operands = member.signature.params.length then none else values.head?
      let result ← hook.respond ⟨member, object, args⟩
      return callOutcome i.opcode member object result⟩

end Plan

/-- the local slot that an instruction has to name -/
def slotOf (i : Instruction) : Except Error Local :=
  match i.local? with
  | some slot => .ok slot
  | none => .error (.malformed (.noLocal i))

def argumentOf (i : Instruction) : Except Error Nat :=
  match i.operand with
  | .argument index => .ok index.toNat
  | _ => .error (.malformed (.noArgument i))

/-- the constant of an instruction; the machine has no 64-bit integers -/
def constantOf (i : Instruction) : Except Error Value :=
  match i.operand with
  | .immediate (.int8 value) => .ok (.int32 value.toInt32)
  | .immediate (.int32 value) => .ok (.int32 value)
  | .immediate (.float32 value) => .ok (.float32 value)
  | .immediate (.float64 value) => .ok (.float64 value)
  | _ => .error (unsupported i)

def plan (env : Surroundings) (m : Machine) (i : Instruction) : Except Error Plan :=
  match i.opcode with
  | .nop => .ok ⟨0, fun _ => .ok (.push [])⟩
  | .ldarg0 => .ok (.give (m.readArg 0))
  | .ldarg1 => .ok (.give (m.readArg 1))
  | .ldarg2 => .ok (.give (m.readArg 2))
  | .ldarg3 => .ok (.give (m.readArg 3))
  | .ldargS => return .give (m.readArg (← argumentOf i))
  | .ldloc0 | .ldloc1 | .ldloc2 | .ldloc3 | .ldlocS | .ldloc => return .give (m.readLocal (← slotOf i))
  | .stloc0 | .stloc1 | .stloc2 | .stloc3 | .stlocS | .stloc => do
    let slot ← slotOf i
    return ⟨1, fun values => .ok (.store slot (values.headD .void))⟩
  | .ldlocaS | .ldloca => do
    let slot ← slotOf i
    return .give ((fun _ => Value.address slot) <$> m.readLocal slot)
  | .ldnull => .ok (.give (.ok .null))
  | .ldcI4M1 => .ok (.give (.ok (.int32 (-1))))
  | .ldcI40 => .ok (.give (.ok (.int32 0)))
  | .ldcI41 => .ok (.give (.ok (.int32 1)))
  | .ldcI4S | .ldcI4 | .ldcR4 | .ldcR8 => return .give (.ok (← constantOf i))
  | .dup => .ok (.unary i fun x => some [x, x])
  | .pop => .ok (.unary i fun _ => some [])
  | .add | .sub | .mul | .div | .rem =>
    .ok (.binary i fun x y => (Value.Operation.ofOpcode? i.opcode).bind (·.apply x y))
  | .neg => .ok (.unary i fun x => x.neg?.map ([·]))
  | .ceq | .cgt | .clt =>
    .ok (.binary i fun x y => (x.order? y).map fun order =>
      .ok (.ofBool (order.isSome && order == Value.testedOrder? i.opcode)))
  | .convI4 | .convR4 | .convR8 => .ok (.unary i fun x => (Value.convert? i.opcode x).map ([·]))
  | .call | .callvirt | .newobj => Plan.call env i
  | .ret => .ok ⟨0, fun _ => .ok .finish⟩
  | .ldcI8 | .br | .brS | .brfalse | .brfalseS | .brtrue | .brtrueS | .beq | .blt | .switch | .leave | .leaveS
  | .throw | .endfinally => .error (unsupported i)

/-! ## Running -/

/-- takes values off a stack; they come with the top of the stack last -/
def takeOperands : Nat → List Value → List Value → Option (List Value × List Value)
  | 0, stack, taken => some (taken, stack)
  | _ + 1, [], _ => none
  | n + 1, value :: stack, taken => takeOperands n stack (value :: taken)

def perform (m : Machine) : Outcome → Except Error Machine
  | .push values => .ok { m with stack := values.reverse ++ m.stack }
  | .store slot value => m.setLocal slot value
  | .finish => .ok { m with stack := m.stack.tail, returned := some m.stack.head? }

/-- one instruction; the position is only for messages -/
def step (env : Surroundings) (position : Nat) (i : Instruction) (m : Machine) : Except (Failure Machine) Machine := do
  let plan ← leaving m (m.plan env i)
  match takeOperands plan.operands m.stack [] with
  | none => throw ⟨.stackUnderflow position plan.operands m.stack.length, m⟩
  | some (operands, stack) =>
    let m := { m with stack }
    leaving m (plan.act operands >>= m.perform)

/-- instructions from a position on, up to the first after which the machine has returned -/
def runFrom (env : Surroundings) (position : Nat) : List Instruction → Machine → Except (Failure Machine) Machine
  | [], m => .ok m
  | i :: rest, m => do
    let m ← m.step env position i
    if m.returned.isSome then return m else runFrom env (position + 1) rest m

def run (env : Surroundings) (block : List Instruction) (m : Machine) : Except (Failure Machine) Machine :=
  runFrom env 0 block m

end Machine

end CilGraft

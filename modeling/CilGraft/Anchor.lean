/-
Anchors: instructions found by a declarative pattern. A pattern is a list of steps of a cursor over the code. `find`
goes to the first instruction at or behind the cursor that a predicate accepts, `next` to the one behind the cursor; the
anchor is where the last step ends. A pattern without steps has no anchor.
-/
import CilGraft.Body

namespace CilGraft

namespace Anchor

/-- the opcodes that a predicate accepts -/
inductive OpcodeClass where
  | any
  | callLike
  | exactly (opcode : Opcode)
deriving DecidableEq, Repr

def OpcodeClass.accepts : OpcodeClass → Opcode → Bool
  | any, _ => true
  | callLike, opcode => opcode.isCallLike
  | exactly expected, opcode => opcode = expected

def OpcodeClass.text : OpcodeClass → String
  | any => "any"
  | callLike => "call"
  | exactly opcode => opcode.mnemonic

structure Predicate where
  opcodes : OpcodeClass
  /-- the name of the method that the operand has to resolve to -/
  member : Option String := none
deriving DecidableEq, Repr

namespace Predicate

/-- calls of a method of the given name -/
def callTo (member : String) : Predicate := ⟨.callLike, some member⟩

def accepts (p : Predicate) (resolve : Resolver) (i : Instruction) : Bool :=
  p.opcodes.accepts i.opcode &&
    match p.member with
    | none => true
    | some name => (i.method?.bind resolve).any (·.name == name)

def text (p : Predicate) : String :=
  p.opcodes.text ++
    match p.member with
    | none => ""
    | some name => " " ++ name

end Predicate

inductive Step where
  | find (predicate : Predicate)
  | next
deriving DecidableEq, Repr

def Step.text : Step → String
  | find predicate => predicate.text
  | next => "next"

/-- the first position from `start` on whose instruction is accepted -/
def positionFrom (code : List Instruction) (accepts : Instruction → Bool) (start : Nat) : Option Nat :=
  (code.drop start).findIdx? accepts |>.map (start + ·)

/-- Where a step takes the cursor. Before the first step there is no cursor and the search starts at the beginning. -/
def Step.move (code : List Instruction) (resolve : Resolver) (cursor : Option Nat) : Step → Option Nat
  | find predicate => positionFrom code (predicate.accepts resolve) (cursor.getD 0)
  | next =>
    let position := match cursor with
      | none => 0
      | some position => position + 1
    if position < code.length then some position else none

structure Pattern where
  name : String
  steps : List Step := []
deriving DecidableEq, Repr

namespace Pattern

def text (p : Pattern) : String := p.name ++ " [" ++ " -> ".intercalate (p.steps.map Step.text) ++ "]"

/-- where the steps take the cursor; it stays where it is when there are none -/
def walk (code : List Instruction) (resolve : Resolver) : List Step → Option Nat → Option Nat
  | [], cursor => cursor
  | step :: steps, cursor =>
    match step.move code resolve cursor with
    | some position => walk code resolve steps (some position)
    | none => none

def locate (p : Pattern) (b : Body) (resolve : Resolver) : Except Error Handle :=
  match (walk b.instructions resolve p.steps none).bind b.handleAt? with
  | some handle => .ok handle
  | none => .error (.anchorNotFound p.text)

end Pattern

/-- all positions whose instruction is accepted, in order -/
def Predicate.positions (p : Predicate) (b : Body) (resolve : Resolver) : List Nat :=
  (List.range b.size).filter fun position => b.code[position]?.any (p.accepts resolve ·.instruction)

/-- the first instruction that is accepted -/
def Predicate.first? (p : Predicate) (b : Body) (resolve : Resolver) : Option Handle :=
  (positionFrom b.instructions (p.accepts resolve) 0).bind b.handleAt?

end Anchor

end CilGraft

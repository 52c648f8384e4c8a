/-
Errors. Every failure is one of a few causes, and `message` is its only wording. A skipped module and a module of
another shape than expected are told apart from real failures.
-/
import CilGraft.Instruction

namespace CilGraft

/-- why a module is not to be changed -/
inductive Ineligibility where
  | wrongModule (expected : String)
  | alreadyPatched (marker : String)
deriving DecidableEq, Repr

def Ineligibility.text : Ineligibility → String
  | wrongModule expected => s!"not the target module (expected '{expected}')"
  | alreadyPatched marker => s!"already patched (marker '{marker}' present)"

/-- what is wrong with code, or with a draft of it -/
inductive Malformation where
  | operand (instruction : Instruction)
  | labelRedefined (label : String)
  | labelUndefined (label : String)
  | labelPastEnd (label : String)
  | unplacedRegions
  | unplacedJump (opcode : Opcode) (label : String)
  | unplacedSwitch
  | localTableFull
  /-- a call without a method, shown by its opcode or as a whole -/
  | noMethod (shown : String)
  | unresolvedCall (token : Token)
  | tooManyPops (instruction : Instruction) (count : Nat)
  | jumpOutside (target : Handle)
  | fallsThrough (position : Nat) (instruction : Instruction)
  | noArgument (instruction : Instruction)
  | noLocal (instruction : Instruction)
  | unbalancedBlock (net : Int)
deriving DecidableEq, Repr

def Malformation.text : Malformation → String
  | operand i =>
    s!"Operand '{i.operand.text}' is not valid for '{i.opcode.mnemonic}' (expects {i.opcode.operandKind.name})"
  | labelRedefined label => s!"Label '{label}' is defined twice"
  | labelUndefined label => s!"Label '{label}' is not defined"
  | labelPastEnd label => s!"Label '{label}' points past the last instruction"
  | unplacedRegions => "Exception regions need a body to be placed into"
  | unplacedJump opcode label => s!"'{opcode.mnemonic}' to label '{label}' needs a body to be placed into"
  | unplacedSwitch => "'switch' needs a body to be placed into"
  | localTableFull => "Local variable table is full"
  | noMethod shown => s!"'{shown}' without a method operand"
  | unresolvedCall token => s!"Call target {token.text} does not resolve"
  | tooManyPops i count => s!"'{i.text}' pops {count} stack slots"
  | jumpOutside target => s!"Branch to {target.text} leaves the method body"
  | fallsThrough position i => s!"Instruction #{position} ('{i.text}') falls through the end of the body"
  | noArgument i => s!"'{i.text}' without argument operand"
  | noLocal i => s!"'{i.text}' without local operand"
  | unbalancedBlock net => s!"Synthesized block leaves {net} values on the stack"

inductive Error where
  | ineligible (module : String) (reason : Ineligibility)
  | methodNotFound (type method : String)
  | anchorNotFound (pattern : String)
  | unresolvedType (type : String)
  | invalidAnchor (handle : Handle)
  | localNotFound (slot : String)
  | stackUnderflow (position needed available : Nat)
  | stackMismatch (position expected found : Nat)
  | malformed (cause : Malformation)
  | invalidConfig (problem : String)
  | notSupported (operation : String)
  /-- raised by evaluated code or by a hook, with a text of its own -/
  | raised (exception : String)
deriving DecidableEq, Repr

namespace Error

/-- The wording of an error. Where in the program a malformation is noticed is not part of it. -/
def message : Error → String
  | ineligible module reason => s!"Module '{module}' is not eligible - {reason.text}"
  | methodNotFound type method => s!"Method '{method}' not found on type '{type}'"
  | anchorNotFound pattern => s!"Anchor not found - {pattern}"
  | unresolvedType type => s!"Unresolved type - {type}"
  | invalidAnchor handle => s!"Instruction {handle.text} does not belong to this method body"
  | localNotFound slot => s!"Local variable not found - {slot}"
  | stackUnderflow position needed available =>
    s!"Stack underflow at instruction #{position}: needs {needed}, has {available}"
  | stackMismatch position expected found =>
    s!"Stack mismatch at instruction #{position}: expected {expected}, found {found}"
  | malformed cause => s!"Malformed - {cause.text}"
  | invalidConfig problem => s!"Invalid configuration - {problem}"
  | notSupported operation => s!"Not supported - {operation}"
  | raised exception => exception

/-- the module is left alone on purpose -/
def isSkip : Error → Bool
  | ineligible .. => true
  | _ => false

/-- the module does not have the shape that was looked for -/
def isShapeMismatch : Error → Bool
  | anchorNotFound _ | localNotFound _ | methodNotFound .. => true
  | _ => false

end Error

/-- a failure part way: the error and the state that the work so far has left -/
structure Failure (σ : Type) where
  error : Error
  state : σ

/-- a part of a longer operation that leaves the state as it is when it fails -/
def leaving {σ α : Type} (state : σ) : Except Error α → Except (Failure σ) α
  | .ok a => .ok a
  | .error e => .error ⟨e, state⟩

end CilGraft

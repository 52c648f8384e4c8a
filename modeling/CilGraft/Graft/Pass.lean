/-
The graft as a pass over a module.

The method must take a parameter and have a body with two locals of the vector type: the first is the position, the last
the scale. A ratio local is added; the ratio block goes in front of the instruction behind the activation call, and the
two scale blocks in front of the push call. All that can be wrong with the method is looked at before the body is
touched, and the depth of the stack is taken from the analysis of the untouched body.

A pass keeps the history of the stages that it went through. A pass that fails keeps the module as it was at that point.
-/
import CilGraft.Anchor
import CilGraft.Graft.Blocks
import CilGraft.Graft.Guard
import CilGraft.Graft.Splice
import CilGraft.Stack.Walk

namespace CilGraft

inductive Stage where
  | unchecked
  | eligible
  | methodResolved
  | anchorsLocated
  | localAllocated
  | spliced
  | done
  | rejected
  | failed (reason : String)
deriving DecidableEq, Repr

namespace Stage

def isTerminal : Stage → Bool
  | done | rejected | failed _ => true
  | _ => false

def text : Stage → String
  | unchecked => "Unchecked"
  | eligible => "Eligible"
  | methodResolved => "MethodResolved"
  | anchorsLocated => "AnchorsLocated"
  | localAllocated => "LocalAllocated"
  | spliced => "Spliced"
  | done => "Done"
  | rejected => "Rejected"
  | failed reason => s!"Failed({reason})"

/-- the stage that a pass ends in when it fails -/
def ofError (e : Error) : Stage := if e.isSkip then rejected else failed e.message

end Stage

/-- what a pass has done to a method -/
structure GraftReport where
  method : Token
  ratioLocal : Local
  positionLocal : Local
  scaleLocal : Local
  ratioSplice : Splice
  scaleSplice : Splice
  maxStack : UInt16
deriving DecidableEq, Repr

/-- a pass on its way -/
structure Pass where
  history : List Stage := [.unchecked]
  module : Module

namespace Pass

def advance (p : Pass) (next : Stage) : Pass := { p with history := p.history ++ [next] }

/-- the pass with another body for a method -/
def withBody (p : Pass) (method : Token) (body : Body) : Pass :=
  { p with module := p.module.setBody method (some body) }

end Pass

/-- adds a slot of a type that the module knows -/
def Module.allocateLocal (m : Module) (b : Body) (type : TypeSig) : Except Error (Body × Local) :=
  if m.resolvesType type then b.addLocal type
  else .error (.unresolvedType s!"{type.text} (in module '{m.name}')")

/-- a graft with a valid configuration -/
structure Graft where
  config : Config

namespace Graft

def name : String := "CM3D2 Texture Resolution Patch"

def new (config : Config) : Except Error Graft := do
  config.validate
  return ⟨config⟩

def guard (g : Graft) : Guard := ⟨g.config.moduleName, g.config.marker⟩

/-- the instruction behind the first call that makes a render target active -/
def activationAnchor (g : Graft) : Anchor.Pattern :=
  ⟨"activation", [.find ⟨.exactly .call, some g.config.activationMember⟩, .next]⟩

/-- the first call that pushes the drawing matrix -/
def pushAnchor (g : Graft) : Anchor.Pattern := ⟨"push", [.find ⟨.exactly .call, some g.config.pushMember⟩]⟩

def canPatch (g : Graft) (m : Module) : Bool := (g.guard.ineligibility? m).isNone

/-! ## What is looked at -/

def methodNotFound (g : Graft) : Error := .methodNotFound g.config.targetType g.config.targetMethod

/-- the first overload of the method that takes a parameter and has a body -/
def targetMethod (g : Graft) (m : Module) : Except Error (Token × MethodRow) :=
  let found := do
    let owner ← m.findType? g.config.targetType
    (m.methodsNamed owner g.config.targetMethod).find? fun (row, _) => !row.signature.params.isEmpty && row.body.isSome
  match found with
  | some (row, index) => .ok (.ofIndex .methodDef index, row)
  | none => .error g.methodNotFound

/-- the slots whose type has the name of the vector type -/
def vectorSlots (b : Body) (vector : TypeSig) : List Local :=
  (List.range b.locals.size).filter (fun n => b.locals[n]?.any (·.typeName? == vector.typeName?)) |>.map (⟨.ofNat ·⟩)

/-- the first and the last vector local -/
def vectorLocals (b : Body) (vector : TypeSig) : Except Error (Local × Local) :=
  match vectorSlots b vector with
  | first :: second :: rest => .ok (first, (second :: rest).getLast (by simp))
  | few => .error (.localNotFound s!"two locals of type {vector.text} (found {few.length})")

/-- the depth at an anchor; unreachable code counts as entered with an empty stack -/
def depthAt (b : Body) (r : Stack.Report) (anchor : Handle) : Nat := ((b.positionOf? anchor).bind r.depthAt?).getD 0

/-- a block that leaves the stack as it finds it -/
def checkBalance (resolve : Resolver) (block : List Instruction) : Except Error Unit := do
  let net ← Stack.netEffect resolve block
  if net ≠ 0 then
    throw (.malformed (.unbalancedBlock net))

/-! ## The pass -/

/-- changes the body of the method -/
def graftBody (g : Graft) (p : Pass) (members : ImportedMembers) (method : Token) (signature : MethodSig) (body : Body) :
    Except (Failure Pass) (Pass × GraftReport) := do
  let resolve := p.module.resolve
  let activation ← leaving p (g.activationAnchor.locate body resolve)
  let push ← leaving p (g.pushAnchor.locate body resolve)
  let (positionLocal, scaleLocal) ← leaving p (vectorLocals body members.vector)
  let p := p.advance .anchorsLocated
  let stack ← leaving p (Stack.analyze (.ofSignature resolve signature) body)
  let activationDepth := depthAt body stack activation
  let pushDepth := depthAt body stack push
  let (body, ratioLocal) ← leaving p (p.module.allocateLocal body members.vector)
  let p := (p.withBody method body).advance .localAllocated
  let ratioBlock ← leaving p (members.ratioBlock ratioLocal g.config.referenceSize)
  let positionBlock ← leaving p (members.scaleBlock positionLocal ratioLocal)
  let scaleBlock ← leaving p (members.scaleBlock scaleLocal ratioLocal)
  let pushBlock := positionBlock ++ scaleBlock
  leaving p (checkBalance resolve ratioBlock)
  leaving p (checkBalance resolve pushBlock)
  let ratioPeak ← leaving p (Stack.peak resolve ratioBlock activationDepth)
  let pushPeak ← leaving p (Stack.peak resolve pushBlock pushDepth)
  let peak := max (max stack.maxDepth ratioPeak) pushPeak
  let (splicing, ratioSplice) ← leaving p (Splicing.insertBefore { body } activation ratioBlock)
  let p := p.withBody method splicing.body
  let (splicing, scaleSplice) ← leaving p (splicing.insertBefore push pushBlock)
  let maxStack := max body.maxStack (.ofNat (min peak 65535))
  let p := (p.withBody method { splicing.body with maxStack }).advance .spliced
  return (p, { method, ratioLocal, positionLocal, scaleLocal, ratioSplice, scaleSplice, maxStack })

def execute (g : Graft) (p : Pass) (dependency : Module) : Except (Failure Pass) (Pass × GraftReport) := do
  leaving p (g.guard.check p.module)
  let p := p.advance .eligible
  let (method, row) ← leaving p (g.targetMethod p.module)
  let (module, members) ← leaving p (g.config.resolveMembers p.module dependency)
  let p := { p with module }.advance .methodResolved
  match p.module.body? method with
  | some body => g.graftBody p members method row.signature body
  | none => throw ⟨g.methodNotFound, p⟩

/-- a pass that has ended -/
structure Run where
  history : List Stage
  module : Module
  result : Except Error GraftReport

def run (g : Graft) (m dependency : Module) : Run :=
  match g.execute { module := m } dependency with
  | .ok (p, report) => ⟨p.history ++ [.done], p.module, .ok report⟩
  | .error ⟨e, p⟩ => ⟨p.history ++ [.ofError e], p.module, .error e⟩

inductive Outcome where
  | applied (report : GraftReport)
  | skipped (reason : Ineligibility)

/-- a run that takes an ineligible module for skipped and not for failed -/
def apply (g : Graft) (m dependency : Module) : Module × Except Error Outcome :=
  let r := g.run m dependency
  match r.result with
  | .ok report => (r.module, .ok (.applied report))
  | .error (.ineligible _ reason) => (r.module, .ok (.skipped reason))
  | .error e => (r.module, .error e)

end Graft

end CilGraft

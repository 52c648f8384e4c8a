/-
Modules: a program unit as its metadata tables. Rows are only ever added, and the token of a row is its place in its
table, so a token keeps its meaning. Importing a type or a method gives the token of an own definition, of a row that is
there already, or of a new row.
-/
import CilGraft.Body

namespace CilGraft

inductive Flavor where
  | reference
  | valueType
deriving DecidableEq, Repr

structure TypeDef where
  name : TypeName
  flavor : Flavor
deriving DecidableEq, Repr

def TypeDef.signature (t : TypeDef) : TypeSig :=
  match t.flavor with
  | .reference => .reference t.name
  | .valueType => .valueType t.name

structure Method where
  name : String
  flags : UInt16
  signature : MethodSig
  body : Option Body := none

def Method.isStatic (m : Method) : Bool := m.flags &&& 0x0010 ≠ 0

/-- a row of the method table; methods are declared by types of the same module -/
structure MethodRow extends Method where
  /-- the place of the declaring type in its table -/
  owner : Nat

structure Module where
  name : String
  types : Array TypeDef := #[]
  methods : Array MethodRow := #[]
  typeRefs : Array TypeName := #[]
  memberRefs : Array Member := #[]
  /-- tags of the patches applied, ascending and without repetition -/
  markers : List String := []

namespace Module

/-! ## Definitions -/

/-- adds a type with its methods; the tokens are those of the type and of the methods -/
def addType (m : Module) (type : TypeDef) (methods : List Method) : Module × Token × List Token :=
  let owner := m.types.size
  let rows := methods.map fun method => { method with owner }
  ({ m with types := m.types.push type, methods := m.methods ++ rows.toArray },
    .ofIndex .typeDef owner,
    (List.range methods.length).map fun i => .ofIndex .methodDef (m.methods.size + i))

/-- the place of the first type with this full name -/
def findType? (m : Module) (fullName : String) : Option Nat := m.types.findIdx? (·.name.fullName == fullName)

/-- the methods of a type with their places in the method table -/
def methodsOf (m : Module) (owner : Nat) : List (MethodRow × Nat) := m.methods.toList.zipIdx.filter (·.1.owner == owner)

def methodsNamed (m : Module) (owner : Nat) (name : String) : List (MethodRow × Nat) :=
  (m.methodsOf owner).filter (·.1.name == name)

/-- the place of the first method of a type with this name and signature -/
def findMethod? (m : Module) (owner : Nat) (name : String) (signature : MethodSig) : Option Nat :=
  (m.methodsNamed owner name).find? (·.1.signature == signature) |>.map (·.2)

/-- the place in the method table that a token names -/
def methodIndex? (token : Token) : Option Nat := if token.table? = some .methodDef then token.index? else none

def method? (m : Module) (token : Token) : Option MethodRow := (methodIndex? token).bind (m.methods[·]?)

def declaring? (m : Module) (row : MethodRow) : Option TypeName := m.types[row.owner]?.map (·.name)

/-- the member that a row of the method table defines -/
def member? (m : Module) (row : MethodRow) : Option Member :=
  (m.declaring? row).map fun declaring => ⟨declaring, row.name, row.signature⟩

/-- what a method token stands for -/
def resolve (m : Module) : Resolver := fun token =>
  match token.table? with
  | some .methodDef => (m.method? token).bind m.member?
  | some .memberRef => token.index?.bind (m.memberRefs[·]?)
  | _ => none

/-! ## Bodies -/

def body? (m : Module) (token : Token) : Option Body := (m.method? token).bind (·.body)

/-- gives a method another body, or none -/
def setBody (m : Module) (token : Token) (body : Option Body) : Module :=
  match methodIndex? token with
  | some index => { m with methods := m.methods.modify index ({ · with body }) }
  | none => m

/-! ## References -/

/-- the place of an entry in a table, which gets it as a new row if it is not there yet -/
def intern {α : Type} [BEq α] (table : Array α) (entry : α) : Array α × Nat :=
  match table.findIdx? (· == entry) with
  | some index => (table, index)
  | none => (table.push entry, table.size)

def importType (m : Module) (name : TypeName) : Module × Token :=
  match m.types.findIdx? (·.name == name) with
  | some index => (m, .ofIndex .typeDef index)
  | none =>
    let (typeRefs, index) := intern m.typeRefs name
    ({ m with typeRefs }, .ofIndex .typeRef index)

/-- Makes a method known. An own method of the same type, name and signature is the method itself; any other is imported
after its declaring type and the types that its signature names. -/
def importMethod (m : Module) (member : Member) : Module × Token :=
  match m.methods.findIdx? (m.member? · == some member) with
  | some index => (m, .ofIndex .methodDef index)
  | none =>
    let m := (member.declaring :: member.signature.typeNames).foldl (fun m name => (m.importType name).1) m
    let (memberRefs, index) := intern m.memberRefs member
    ({ m with memberRefs }, .ofIndex .memberRef index)

/-- a type is known here: it is primitive, defined or imported -/
def resolvesType (m : Module) (type : TypeSig) : Bool :=
  match type.typeName? with
  | none => true
  | some name => m.types.any (·.name == name) || m.typeRefs.any (· == name)

/-! ## Markers -/

def hasMarker (m : Module) (tag : String) : Bool := m.markers.contains tag

/-- a tag in its place among ascending ones -/
def insertTag (tag : String) : List String → List String
  | [] => [tag]
  | head :: tail => if tag < head then tag :: head :: tail else if tag = head then head :: tail else head :: insertTag tag tail

/-- adds a tag, and tells whether it is new -/
def addMarker (m : Module) (tag : String) : Module × Bool :=
  ({ m with markers := insertTag tag m.markers }, !m.hasMarker tag)

end Module

end CilGraft

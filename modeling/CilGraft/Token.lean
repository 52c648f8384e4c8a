/-
Metadata tokens: a table number in the high byte and a row number in the low three. Rows count from 1.
-/
import CilGraft.Numeral

namespace CilGraft

/-- the metadata tables that code and signatures refer to -/
inductive Table where
  | typeRef
  | typeDef
  | methodDef
  | memberRef
deriving DecidableEq, Repr

namespace Table

def number : Table → UInt8
  | typeRef => 0x01
  | typeDef => 0x02
  | methodDef => 0x06
  | memberRef => 0x0A

def name : Table → String
  | typeRef => "TypeRef"
  | typeDef => "TypeDef"
  | methodDef => "MethodDef"
  | memberRef => "MemberRef"

def ofNumber? (n : UInt8) : Option Table := [typeRef, typeDef, methodDef, memberRef].find? (·.number = n)

end Table

structure Token where
  value : UInt32
deriving DecidableEq, Repr

namespace Token

/-- rows are 24 bits wide; higher bits of a row number are dropped -/
def ofParts (table : UInt8) (row : UInt32) : Token := ⟨table.toUInt32 <<< 24 ||| row &&& 0xFFFFFF⟩

def ofRow (table : Table) (row : Nat) : Token := ofParts table.number (.ofNat row)

/-- the token of the n-th entry of a table, counted from 0 -/
def ofIndex (table : Table) (n : Nat) : Token := ofRow table (n + 1)

def tableNumber (t : Token) : UInt8 := (t.value >>> 24).toUInt8

def table? (t : Token) : Option Table := Table.ofNumber? t.tableNumber

def row (t : Token) : Nat := (t.value &&& 0xFFFFFF).toNat

/-- The place in its table that a token names. Row 0 names nothing. -/
def index? (t : Token) : Option Nat := if t.row = 0 then none else some (t.row - 1)

/-- names a method, defined here or elsewhere -/
def isMethod (t : Token) : Bool := t.table? = some .methodDef || t.table? = some .memberRef

def text (t : Token) : String := "0x" ++ Numeral.hex 8 t.value.toNat

/-- table and row in words, for the tables that have a name here -/
def describe (t : Token) : String :=
  match t.table? with
  | some table => table.name ++ "(" ++ toString t.row ++ ")"
  | none => "Token(" ++ t.text ++ ")"

end Token

end CilGraft

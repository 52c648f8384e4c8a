/-
32-bit floating-point numbers, kept as their words so that equality is equality of words and a number that is stored
and shown again keeps every bit. Arithmetic rounds once, to nearest.
-/
import CilGraft.Binary.Format

namespace CilGraft.Binary

structure Single where
  bits : UInt32
deriving DecidableEq, Repr

namespace Single

def datum (x : Single) : Datum := Format.single.decode x.bits.toNat

def ofDatum (d : Datum) : Single := ⟨.ofNat (Format.single.encode d)⟩

def viaHardware (op : Float32 → Float32 → Float32) (x y : Single) : Single :=
  ⟨(op (.ofBits x.bits) (.ofBits y.bits)).toBits⟩

def add : Single → Single → Single := viaHardware (· + ·)

def sub : Single → Single → Single := viaHardware (· - ·)

def mul : Single → Single → Single := viaHardware (· * ·)

def div : Single → Single → Single := viaHardware (· / ·)

def rem (x y : Single) : Single := ⟨.ofNat (Format.single.rem x.bits.toNat y.bits.toNat)⟩

/-- turns the sign over, also of a zero -/
def neg (x : Single) : Single := ⟨x.bits ^^^ 0x80000000⟩

def order (x y : Single) : Option Ordering := Format.single.order x.bits.toNat y.bits.toNat

def isNan (x : Single) : Bool := x.datum = .nan

/-- the lesser of two numbers; what is no number gives way, of equal ones the first is kept -/
def min (x y : Single) : Single := if x.isNan then y else if y.order x = some .lt then y else x

/-- the greater of two numbers; what is no number gives way, of equal ones the first is kept -/
def max (x y : Single) : Single := if x.isNan then y else if y.order x = some .gt then y else x

/-- the nearest number to an integer -/
def ofInt32 (n : Int32) : Single := ofDatum (.finite (decide (n < 0)) n.toInt.natAbs 0)

/-- the integer part, clamped to the range of the result -/
def toInt32 (x : Single) : Int32 := .ofInt (x.datum.truncate Int32.minValue.toInt Int32.maxValue.toInt)

/-- finite and greater than zero -/
def isPositive (x : Single) : Bool :=
  match x.datum with
  | .finite false m _ => m != 0
  | _ => false

end Single

end CilGraft.Binary

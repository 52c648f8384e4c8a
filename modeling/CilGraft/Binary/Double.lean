/-
64-bit floating-point numbers, kept as their words, and the conversions between the two widths. Widening is exact,
narrowing rounds once.
-/
import CilGraft.Binary.Single

namespace CilGraft.Binary

structure Double where
  bits : UInt64
deriving DecidableEq, Repr

namespace Double

def datum (x : Double) : Datum := Format.double.decode x.bits.toNat

def ofDatum (d : Datum) : Double := ⟨.ofNat (Format.double.encode d)⟩

def viaHardware (op : Float → Float → Float) (x y : Double) : Double :=
  ⟨(op (.ofBits x.bits) (.ofBits y.bits)).toBits⟩

def add : Double → Double → Double := viaHardware (· + ·)

def sub : Double → Double → Double := viaHardware (· - ·)

def mul : Double → Double → Double := viaHardware (· * ·)

def div : Double → Double → Double := viaHardware (· / ·)

def rem (x y : Double) : Double := ⟨.ofNat (Format.double.rem x.bits.toNat y.bits.toNat)⟩

/-- turns the sign over, also of a zero -/
def neg (x : Double) : Double := ⟨x.bits ^^^ 0x8000000000000000⟩

def order (x y : Double) : Option Ordering := Format.double.order x.bits.toNat y.bits.toNat

def isNan (x : Double) : Bool := x.datum = .nan

/-- the lesser of two numbers; what is no number gives way, of equal ones the first is kept -/
def min (x y : Double) : Double := if x.isNan then y else if y.order x = some .lt then y else x

/-- the greater of two numbers; what is no number gives way, of equal ones the first is kept -/
def max (x y : Double) : Double := if x.isNan then y else if y.order x = some .gt then y else x

def ofInt32 (n : Int32) : Double := ofDatum (.finite (decide (n < 0)) n.toInt.natAbs 0)

/-- the integer part, clamped to the range of the result -/
def toInt32 (x : Double) : Int32 := .ofInt (x.datum.truncate Int32.minValue.toInt Int32.maxValue.toInt)

end Double

def Single.toDouble (x : Single) : Double := .ofDatum x.datum

def Double.toSingle (x : Double) : Single := .ofDatum x.datum

end CilGraft.Binary

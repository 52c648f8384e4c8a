/-
How the digits of a number are laid out as text. A layout says which numbers are written positionally and whether an
integral number shows its point; digits are always the shortest that identify the number.
-/
import CilGraft.Binary.Double
import CilGraft.Decimal.Shortest

namespace CilGraft

namespace Decimal

structure Layout where
  /-- exponents of the leading digit that are written positionally; the others take an exponent mark -/
  positional : Int → Bool
  /-- an integral number ends in a point and a zero -/
  pointZero : Bool

/-- A constant in code shows by its text that it is no integer, and its length is bounded: positional from 10^-4 to
below 10^16, with a point; otherwise with an exponent. -/
def Layout.literal : Layout := ⟨fun e => -4 ≤ e && e < 16, true⟩

/-- A plain quantity is always written out. -/
def Layout.plain : Layout := ⟨fun _ => true, false⟩

def zeros (n : Nat) : String := String.ofList (List.replicate n '0')

/-- the text of a positive decimal -/
def Layout.magnitude (l : Layout) (d : Decimal) : String :=
  let digits := Nat.toDigits 10 d.digits
  let lead := d.exponent + (digits.length : Int) - 1
  if l.positional lead then
    if 0 ≤ d.exponent then
      String.ofList digits ++ zeros d.exponent.toNat ++ if l.pointZero then ".0" else ""
    else if 0 ≤ lead then
      let whole := lead.toNat + 1
      String.ofList (digits.take whole) ++ "." ++ String.ofList (digits.drop whole)
    else
      "0." ++ zeros (-lead - 1).toNat ++ String.ofList digits
  else
    let tail := digits.drop 1
    let point := if tail.isEmpty then "" else "." ++ String.ofList tail
    String.ofList (digits.take 1) ++ point ++ "e" ++ toString lead

/-- the text of the number that a word of a format stands for -/
def Layout.text (l : Layout) (f : Binary.Format) (word : Nat) : String :=
  let sign (negative : Bool) := if negative then "-" else ""
  match f.decode word with
  | .nan => "NaN"
  | .infinite negative => sign negative ++ "inf"
  | .finite negative 0 _ => sign negative ++ if l.pointZero then "0.0" else "0"
  | .finite negative m q =>
    let narrow := m == f.fractions && f.minExponent < q
    sign negative ++ l.magnitude (shortest m q narrow)

end Decimal

/-- the text of a constant in code -/
def Binary.Single.literal (x : Single) : String := Decimal.Layout.literal.text .single x.bits.toNat

/-- the text of a constant in code -/
def Binary.Double.literal (x : Double) : String := Decimal.Layout.literal.text .double x.bits.toNat

/-- the text of a quantity in a message -/
def Binary.Single.plain (x : Single) : String := Decimal.Layout.plain.text .single x.bits.toNat

end CilGraft

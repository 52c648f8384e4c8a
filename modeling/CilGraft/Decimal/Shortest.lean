/-
The shortest decimal that identifies a binary number.

The reals that round to m * 2^q form an interval, from halfway to the neighbour below to halfway to the neighbour
above; the ends belong to it iff m is even. `shortest` takes the coarsest power of ten with a multiple in the interval
and, of the multiples next to the number, the nearer one; of two equally near the greater. All comparisons are exact.
-/
import CilGraft.Binary.Format

namespace CilGraft

/-- digits * 10^exponent -/
structure Decimal where
  digits : Nat
  exponent : Int
deriving DecidableEq, Repr

namespace Decimal

/-- the interval of a number as multiples of a common unit: low end, number and high end over `den` -/
structure Interval where
  low : Nat
  value : Nat
  high : Nat
  den : Nat
  closed : Bool

/-- The interval of m * 2^q, in quarters of the last place. `narrow` says that the neighbour below is half as far away
as the one above. -/
def Interval.ofBinary (m : Nat) (q : Int) (narrow : Bool) : Interval :=
  let unit := Nat.pow 2 (q - 2).toNat
  { low := (4 * m - if narrow then 1 else 2) * unit
    value := 4 * m * unit
    high := (4 * m + 2) * unit
    den := Nat.pow 2 (2 - q).toNat
    closed := m % 2 == 0 }

/-- the interval measured in units of 10^t -/
def Interval.scale (i : Interval) (t : Int) : Interval :=
  let up := Nat.pow 10 (-t).toNat
  { i with low := i.low * up, value := i.value * up, high := i.high * up, den := i.den * Nat.pow 10 t.toNat }

def Interval.contains (i : Interval) (n : Nat) : Bool :=
  let x := n * i.den
  if i.closed then i.low ≤ x && x ≤ i.high else i.low < x && x < i.high

/-- the integer next to the number that lies in the interval, the nearer one if both do -/
def Interval.pick (i : Interval) : Option Nat :=
  let below := i.value / i.den
  match i.contains below, i.contains (below + 1) with
  | true, true => some (if 2 * i.value < (2 * below + 1) * i.den then below else below + 1)
  | true, false => some below
  | false, true => some (below + 1)
  | false, false => none

/-- the first power of ten, from 10^t downwards, with a multiple in the interval -/
def search (i : Interval) : Nat → Int → Option Decimal
  | 0, _ => none
  | tries + 1, t =>
    match (i.scale t).pick with
    | some n => some ⟨n, t⟩
    | none => search i tries (t - 1)

/-- number of decimal digits -/
def width (n : Nat) : Nat := (Nat.toDigits 10 n).length

/-- the least k with value < 10^k, or one above it -/
def Interval.magnitude (i : Interval) : Int :=
  if i.den ≤ i.value then width (i.value / i.den) else 1 - (width ((i.den - 1) / i.value) : Int)

/-- moves trailing zeros into the exponent; `fuel` is at least the number of digits -/
def strip : Nat → Decimal → Decimal
  | 0, d => d
  | fuel + 1, d => if d.digits ≠ 0 ∧ d.digits % 10 = 0 then strip fuel ⟨d.digits / 10, d.exponent + 1⟩ else d

/-- The shortest decimal for a positive m * 2^q. Eighteen digits are enough for both formats; if they were not, the
exact value would be given. -/
def shortest (m : Nat) (q : Int) (narrow : Bool) : Decimal :=
  let i := Interval.ofBinary m q narrow
  match search i 18 (i.magnitude - 1) with
  | some d => strip (width d.digits) d
  | none =>
    let exact := m * Nat.pow 2 q.toNat * Nat.pow 5 (-q).toNat
    strip (width exact) ⟨exact, min q 0⟩

end Decimal

end CilGraft

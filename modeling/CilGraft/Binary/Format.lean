/-
Binary interchange formats (32 and 64 bits), computed on naturals.

A word is a sign bit, an exponent field and a fraction field. `Format.decode` gives what a word stands for,
`Format.round` the word nearest to an exact value m * 2^q (ties go to the even word, too large values to infinity).
`Format.rem` is the exact remainder with the sign of the dividend and `Format.order` the numerical order of words.
-/

namespace CilGraft.Binary

/-- a format, given by the widths of its exponent and fraction fields -/
structure Format where
  exponentBits : Nat
  fractionBits : Nat
deriving DecidableEq, Repr

/-- the 32-bit format -/
def Format.single : Format := ⟨8, 23⟩

/-- the 64-bit format -/
def Format.double : Format := ⟨11, 52⟩

/-- what a word stands for; a finite one is m * 2^q, with its sign kept apart so that both zeros exist -/
inductive Datum where
  | nan
  | infinite (negative : Bool)
  | finite (negative : Bool) (m : Nat) (q : Int)
deriving DecidableEq, Repr

namespace Format

/-- weight of the sign bit -/
def signWeight (f : Format) : Nat := Nat.pow 2 (f.exponentBits + f.fractionBits)

/-- number of different fractions -/
def fractions (f : Format) : Nat := Nat.pow 2 f.fractionBits

/-- the positive infinity; magnitudes above it are not numbers -/
def infinity (f : Format) : Nat := (Nat.pow 2 f.exponentBits - 1) * f.fractions

/-- the word written for an undefined result -/
def quietNan (f : Format) : Nat := f.infinity + f.fractions / 2

/-- every finite word stands for a multiple of 2^minExponent -/
def minExponent (f : Format) : Int := 2 - Nat.pow 2 (f.exponentBits - 1) - f.fractionBits

/-- puts the sign in front of a magnitude -/
def signed (f : Format) (negative : Bool) (magnitude : Nat) : Nat :=
  if negative then f.signWeight + magnitude else magnitude

def decode (f : Format) (word : Nat) : Datum :=
  let negative := decide (f.signWeight ≤ word)
  let exponent := word / f.fractions % Nat.pow 2 f.exponentBits
  let fraction := word % f.fractions
  if exponent = Nat.pow 2 f.exponentBits - 1 then
    if fraction = 0 then .infinite negative else .nan
  else if exponent = 0 then
    .finite negative fraction f.minExponent
  else
    .finite negative (f.fractions + fraction) (f.minExponent + (exponent - 1 : Nat))

/-- m / 2^s rounded to the nearest integer, ties to the even one -/
def shiftRound (m s : Nat) : Nat :=
  let unit := Nat.pow 2 s
  let kept := m / unit
  let lost := m % unit
  if 2 * lost < unit ∨ (2 * lost = unit ∧ kept % 2 = 0) then kept else kept + 1

/-- The magnitude nearest to m * 2^q. A carry out of the fraction falls into the exponent field, and one out of the
largest finite exponent gives infinity, because the fields are added and not joined. -/
def nearest (f : Format) (m : Nat) (q : Int) : Nat :=
  if m = 0 then 0
  else
    let unit := max (q + m.log2 - f.fractionBits) f.minExponent
    let kept := if unit ≤ q then m * Nat.pow 2 (q - unit).toNat else shiftRound m (unit - q).toNat
    min (kept + (unit - f.minExponent).toNat * f.fractions) f.infinity

/-- the word nearest to m * 2^q with the given sign -/
def round (f : Format) (negative : Bool) (m : Nat) (q : Int) : Nat := f.signed negative (f.nearest m q)

/-- the word that stands for a datum, rounded into the format -/
def encode (f : Format) : Datum → Nat
  | .nan => f.quietNan
  | .infinite negative => f.signed negative f.infinity
  | .finite negative m q => f.round negative m q

/-- the remainder of a division whose quotient is cut toward zero; it has the sign of the dividend -/
def rem (f : Format) (x y : Nat) : Nat :=
  match f.decode x, f.decode y with
  | .finite negative m q, .finite _ n p =>
    if n = 0 then f.quietNan
    else
      let unit := min q p
      f.round negative (m * Nat.pow 2 (q - unit).toNat % (n * Nat.pow 2 (p - unit).toNat)) unit
  | .finite .., .infinite _ => x
  | _, _ => f.quietNan

/-- a key that orders the words as the numbers they stand for: both zeros are equal, what is no number has none -/
def key (f : Format) (word : Nat) : Option Int :=
  let magnitude := word % f.signWeight
  if f.infinity < magnitude then none
  else if f.signWeight ≤ word then some (-magnitude) else some magnitude

/-- numerical comparison of words; what is no number compares with nothing -/
def order (f : Format) (x y : Nat) : Option Ordering := do
  return compare (← f.key x) (← f.key y)

end Format

/-- the integer part of a datum, cut toward zero and clamped to `low` and `high`; 0 for what is no number -/
def Datum.truncate (low high : Int) : Datum → Int
  | .nan => 0
  | .infinite negative => if negative then low else high
  | .finite negative m q =>
    let whole : Nat := m * Nat.pow 2 q.toNat / Nat.pow 2 (-q).toNat
    max low (min high (if negative then -(whole : Int) else whole))

end CilGraft.Binary

/-
Numerals of a fixed width: hexadecimal words and positions padded with zeros.
-/

namespace CilGraft.Numeral

def hexDigit (d : Nat) : Char := if d < 10 then Char.ofNat (48 + d) else Char.ofNat (87 + d)

/-- the last `width` hexadecimal digits of a number -/
def hexDigits : Nat → Nat → List Char
  | 0, _ => []
  | width + 1, n => hexDigits width (n / 16) ++ [hexDigit (n % 16)]

def hex (width n : Nat) : String := String.ofList (hexDigits width n)

def upperHex (width n : Nat) : String := String.ofList ((hexDigits width n).map Char.toUpper)

/-- a decimal number with zeros in front, to at least `width` digits -/
def padded (width n : Nat) : String :=
  let digits := Nat.toDigits 10 n
  String.ofList (List.replicate (width - digits.length) '0' ++ digits)

/-- a text with blanks behind it, to at least `width` characters -/
def column (width : Nat) (text : String) : String :=
  text ++ String.ofList (List.replicate (width - text.length) ' ')

end CilGraft.Numeral

import PageStore.Decimal.Shortest

/-!
# PageStore.Decimal.Text

How numbers are written: all digits are positional, whatever the magnitude, with no point after a
whole number and a minus sign before negative zero.
-/

namespace PageStore.Decimal

/-- The digits of a decimal, with the point where it falls. -/
def Numeral.text (d : Numeral) : String :=
  let digits := Nat.toDigits 10 d.digits
  if 0 ≤ d.exponent then String.ofList (digits ++ List.replicate d.exponent.toNat '0')
  else
    let places := (-d.exponent).toNat
    let padded := List.replicate (places + 1 - digits.length) '0' ++ digits
    let whole := padded.length - places
    String.ofList (padded.take whole ++ ['.'] ++ padded.drop whole)

def text (f : Format) (bits : Nat) : String :=
  match f.read bits with
  | .nan => "NaN"
  | .infinite negative => if negative then "-inf" else "inf"
  | .finite negative m q =>
    let magnitude := if m = 0 then "0" else (shortest f m q).text
    if negative then "-" ++ magnitude else magnitude

end PageStore.Decimal

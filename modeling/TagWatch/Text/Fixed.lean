/-!
# Fixed-point notation

A finite floating-point number is `m · 2ᵉ` for whole numbers `m` and `e`, and so is rounded to a
number of decimal places by exact arithmetic. Of two equally near decimals the one with the even
last digit is taken.
-/

namespace TagWatch.Text

/-- The quotient rounded to the nearest whole number, a half going to the even neighbour. -/
def roundHalfEven (num den : Nat) : Nat :=
  let q := num / den
  let r := num % den
  if 2 * r < den then q
  else if den < 2 * r then q + 1
  else if q % 2 = 0 then q else q + 1

/-- A whole number with a point in front of its last places. -/
def withPoint (places : Nat) (n : Nat) : String :=
  let whole : Nat := n / Nat.pow 10 places
  let part : Nat := n % Nat.pow 10 places
  let digits := Nat.toDigits 10 part
  let zeros := List.replicate (places - digits.length) '0'
  toString whole ++ "." ++ String.ofList (zeros ++ digits)

/-- The decimal nearest to `m · 2ᵉ` with a number of places, as a multiple of the last place. -/
def scaled (places m : Nat) (e : Int) : Nat :=
  match e with
  | .ofNat k => m * Nat.pow 2 k * Nat.pow 10 places
  | .negSucc k => roundHalfEven (m * Nat.pow 10 places) (Nat.pow 2 (k + 1))

/-- A floating-point number in fixed-point notation. -/
def fixed (places : Nat) (x : Float) : String :=
  let bits : Nat := x.toBits.toNat
  let negative := bits / Nat.pow 2 63 = 1
  let exponent : Nat := bits / Nat.pow 2 52 % Nat.pow 2 11
  let fraction : Nat := bits % Nat.pow 2 52
  let sign := if negative then "-" else ""
  if exponent = 2047 then if fraction = 0 then sign ++ "inf" else "nan"
  else if exponent = 0 then sign ++ withPoint places (scaled places fraction (-1074))
  else sign ++ withPoint places (scaled places (fraction + Nat.pow 2 52) ((exponent : Int) - 1075))

end TagWatch.Text

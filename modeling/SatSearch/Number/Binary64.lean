/-!
# Positive numbers with a 53-bit mantissa

A positive number of the double precision format is `mantissa * 2 ^ exponent` with a mantissa of
exactly 53 bits. Sums, quotients and natural numbers are rounded to the nearest such number, ties to
the even mantissa, and so are decimal places when a number is written. Only numbers between `2 ^
-65` and `2 ^ 65` occur here, far inside the range of exponents, so there is no underflow and no
overflow to treat.
-/

namespace SatSearch

/-- The integer nearest to `num / den`; of two equally near ones the even one. -/
def roundHalfEven (num den : Nat) : Nat :=
  let q := num / den
  let r := num % den
  if 2 * r < den then q
  else if den < 2 * r then q + 1
  else q + q % 2

/-- The number `mantissa * 2 ^ exponent`, where `2 ^ 52 ≤ mantissa < 2 ^ 53`. -/
structure Binary64 where
  mantissa : Nat
  exponent : Int
deriving DecidableEq, Repr

namespace Binary64

/-- The largest `e` with `2 ^ e ≤ num / den`, for positive `num` and `den`. -/
def quotientLog2 (num den : Nat) : Int :=
  let e : Int := (num.log2 : Int) - den.log2
  if den <<< e.toNat ≤ num <<< (-e).toNat then e else e - 1

/-- The number nearest to `num / den`, for positive `num` and `den`. -/
def ofQuotient (num den : Nat) : Binary64 :=
  let e := quotientLog2 num den - 52
  let m := roundHalfEven (num <<< (-e).toNat) (den <<< e.toNat)
  if m = 1 <<< 53 then ⟨1 <<< 52, e + 1⟩ else ⟨m, e⟩

/-- The number nearest to a positive natural number. -/
def ofNat (n : Nat) : Binary64 := ofQuotient n 1

/-- The number nearest to the quotient of two numbers. -/
def div (x y : Binary64) : Binary64 :=
  let q := ofQuotient x.mantissa y.mantissa
  ⟨q.mantissa, q.exponent + x.exponent - y.exponent⟩

/-- The number nearest to the sum of two numbers. -/
def add (x y : Binary64) : Binary64 :=
  let e := min x.exponent y.exponent
  let sum := ofNat
    (x.mantissa <<< (x.exponent - e).toNat + y.mantissa <<< (y.exponent - e).toNat)
  ⟨sum.mantissa, sum.exponent + e⟩

/-- The 64 bits of the double precision format: a biased exponent above the low 52 bits of the
mantissa. -/
def bits (x : Binary64) : Nat :=
  (x.exponent + 1075).toNat <<< 52 + (x.mantissa - 1 <<< 52)

/-- The number written with so many decimal places, the last one rounded half to even. -/
def text (x : Binary64) (places : Nat) : String :=
  let unit := Nat.pow 10 places
  let count := roundHalfEven ((unit * x.mantissa) <<< x.exponent.toNat) (1 <<< (-x.exponent).toNat)
  let fraction := toString (count % unit)
  toString (count / unit) ++ "." ++ "".pushn '0' (places - fraction.length) ++ fraction

end Binary64

end SatSearch

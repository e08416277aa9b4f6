/-!
The shortest decimal of a double. A finite double other than zero is `m · 2^q`, and every real
nearer to it than to its neighbours reads back as it; the two ends of that interval belong to it
when `m` is even. The shortest decimal is a multiple of the largest power of ten that has a
multiple in the interval; of two candidates the nearer is taken, and the larger one when they are
equally near.
-/
namespace RowCheck.Decimal

/-- A double taken apart: its sign, and for a finite one its value `m · 2^q`. -/
inductive Parts where
  | nan
  | infinite (negative : Bool)
  | finite (negative : Bool) (m : Nat) (q : Int)
  deriving DecidableEq, Repr

/-- Read sign, exponent and fraction out of the 64 bits of a double. -/
def parts (bits : UInt64) : Parts :=
  let n := bits.toNat
  let negative := Nat.pow 2 63 ≤ n
  let exponent : Nat := n / Nat.pow 2 52 % Nat.pow 2 11
  let fraction := n % Nat.pow 2 52
  if exponent = 2047 then
    if fraction = 0 then .infinite negative else .nan
  else if exponent = 0 then .finite negative fraction (-1074)
  else .finite negative (Nat.pow 2 52 + fraction) ((exponent : Int) - 1075)

/-- The reals that read back as one double, as the numbers between `low` and `high` over a common
scale: `x` stands for `x · 2^q`. -/
structure Neighbourhood where
  low : Nat
  value : Nat
  high : Nat
  q : Int
  closed : Bool
  deriving DecidableEq, Repr

/-- The neighbour below a power of two is half as far away as the one above, unless it is among the
smallest doubles. -/
def Neighbourhood.ofFinite (m : Nat) (q : Int) : Neighbourhood where
  low := 4 * m - if m = Nat.pow 2 52 && q != -1074 then 1 else 2
  value := 4 * m
  high := 4 * m + 2
  q := q - 2
  closed := m % 2 = 0

/-- The factors that bring `d · 10^k` and `x · 2^q` to whole numbers of one size: `d` times the
first is compared with `x` times the second. -/
def scales (k q : Int) : Nat × Nat :=
  (Nat.pow 10 k.toNat * Nat.pow 2 (-q).toNat, Nat.pow 2 q.toNat * Nat.pow 10 (-k).toNat)

/-- Whether `d · 10^k` reads back as the double. -/
def Neighbourhood.contains (b : Neighbourhood) (d : Nat) (k : Int) : Bool :=
  let (s, t) := scales k b.q
  if b.closed then b.low * t ≤ d * s && d * s ≤ b.high * t
  else b.low * t < d * s && d * s < b.high * t

/-- The multiple of `10^k` that reads back as the double and is nearest to it, if there is one. -/
def Neighbourhood.nearest? (b : Neighbourhood) (k : Int) : Option Nat :=
  let (s, t) := scales k b.q
  let d := b.value * t / s
  match b.contains d k, b.contains (d + 1) k with
  | true, true => if b.value * t - d * s < (d + 1) * s - b.value * t then some d else some (d + 1)
  | true, false => some d
  | false, true => some (d + 1)
  | false, false => none

/-- The exponents of ten to try, from above the largest double down to the last place of the
smallest one. -/
def exponents : List Int :=
  (List.range 1400).map (fun (i : Nat) => 310 - (i : Int))

/-- The digits and the exponent of ten of the shortest decimal. -/
def Neighbourhood.shortest (b : Neighbourhood) : Nat × Int :=
  (exponents.findSome? (fun k => (b.nearest? k).map (fun d => (d, k)))).getD (b.value, 0)

/-- A number `d · 10^k` without an exponent: zeros are added behind, or a point is set before the
last `-k` digits. -/
def positional (d : Nat) (k : Int) : String :=
  let digits := Nat.toDigits 10 d
  let places := (-k).toNat
  String.ofList <|
    if places = 0 then digits ++ List.replicate k.toNat '0'
    else if digits.length ≤ places then
      '0' :: '.' :: List.replicate (places - digits.length) '0' ++ digits
    else digits.take (digits.length - places) ++ '.' :: digits.drop (digits.length - places)

/-- The shortest text of a double, never with an exponent and without a point for a whole number.
Zero keeps its sign, a value that is not a number has none. -/
def text (bits : UInt64) : String :=
  match parts bits with
  | .nan => "NaN"
  | .infinite negative => if negative then "-inf" else "inf"
  | .finite negative m q =>
    let sign := if negative then "-" else ""
    if m = 0 then sign ++ "0"
    else
      let (d, k) := (Neighbourhood.ofFinite m q).shortest
      sign ++ positional d k

end RowCheck.Decimal

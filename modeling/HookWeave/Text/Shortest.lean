/-!
# Shortest decimals of binary floating-point numbers

A float is shown with the fewest significant digits that read back as the same float, and always
positionally. `FloatFormat` says how a bit pattern splits into sign, exponent and fraction;
`FloatFormat.split` turns a finite pattern into the interval of reals that round to it;
`Interval.shortest` searches the decimal grids from coarse to fine.
-/

namespace HookWeave.Text

/-- A binary interchange format: widths of the exponent and of the fraction. -/
structure FloatFormat where
  exponentBits : Nat
  fractionBits : Nat

/-- The 32-bit format. -/
def binary32 : FloatFormat := ⟨8, 23⟩

/-- The 64-bit format. -/
def binary64 : FloatFormat := ⟨11, 52⟩

/-- The positive reals that round to one float: from `low` to `high` around `value`, all four
times scaled and over the common denominator `den`. The ends belong to it iff `closed`. -/
structure Interval where
  low : Nat
  value : Nat
  high : Nat
  den : Nat
  closed : Bool

/-- What a bit pattern stands for. -/
inductive FloatValue where
  | nan
  | infinite
  | zero
  | finite (interval : Interval)

/-- The magnitude of a bit pattern. The gap below a power of two is half the gap above it. -/
def FloatFormat.split (f : FloatFormat) (bits : Nat) : FloatValue :=
  let fraction := bits % 1 <<< f.fractionBits
  let exponent := bits >>> f.fractionBits % 1 <<< f.exponentBits
  if exponent = 1 <<< f.exponentBits - 1 then
    if fraction = 0 then .infinite else .nan
  else if exponent = 0 ∧ fraction = 0 then .zero
  else
    let mantissa := if exponent = 0 then fraction else 1 <<< f.fractionBits + fraction
    let below := if exponent ≠ 0 ∧ fraction = 0 then 1 else 2
    -- value = 4 · mantissa · 2 ^ (scale - offset)
    let scale := max exponent 1
    let offset := 1 <<< (f.exponentBits - 1) - 1 + f.fractionBits + 2
    let num := 1 <<< (scale - offset)
    .finite {
      low := (4 * mantissa - below) * num
      value := 4 * mantissa * num
      high := (4 * mantissa + 2) * num
      den := 1 <<< (offset - scale)
      closed := mantissa % 2 = 0 }

/-- The sign of a bit pattern. -/
def FloatFormat.negative (f : FloatFormat) (bits : Nat) : Bool :=
  bits >>> (f.fractionBits + f.exponentBits) % 2 = 1

/-- The decimal `digits · 10 ^ exponent`. -/
structure Decimal where
  digits : Nat
  exponent : Int

/-- The point `n` of the grid of step `10 ^ e` lies in the interval. -/
def Interval.holds (i : Interval) (n : Nat) (e : Int) : Bool :=
  let point := n * Nat.pow 10 e.toNat * i.den
  let down := Nat.pow 10 (-e).toNat
  if i.closed then i.low * down ≤ point && point ≤ i.high * down
  else i.low * down < point && point < i.high * down

/-- The point of the grid of step `10 ^ e` that stands for the interval: of the two neighbours
of the value that lie in it the nearer, and the upper one where both are as near. -/
def Interval.onGrid? (i : Interval) (e : Int) : Option Decimal :=
  let num := i.value * Nat.pow 10 (-e).toNat
  let den := i.den * Nat.pow 10 e.toNat
  let q := num / den
  let r := num % den
  let below := i.holds q e
  let above := i.holds (q + 1) e
  if above && (!below || den ≤ 2 * r) then some ⟨q + 1, e⟩
  else if below then some ⟨q, e⟩
  else none

/-- The first of the places `k`, `k + 1`, … after the point at which the value has a digit other
than zero, looked for at most `fuel` places on. -/
def Interval.firstPlace (i : Interval) : (fuel k : Nat) → Nat
  | 0, k => k
  | fuel + 1, k => if i.den ≤ i.value * Nat.pow 10 k then k else i.firstPlace fuel (k + 1)

/-- The exponent of the leading digit: the greatest `e` with `10 ^ e ≤ value`. No float of the two
formats is as small as `10 ^ (-400)`. -/
def Interval.leading (i : Interval) : Int :=
  let whole := i.value / i.den
  if whole ≠ 0 then (Nat.toDigits 10 whole).length - 1
  else -(i.firstPlace 400 1)

/-- The decimal with the fewest digits in the interval. -/
def Interval.shortest (i : Interval) : Decimal :=
  let top := i.leading
  match (List.range 18).findSome? fun (n : Nat) => i.onGrid? (top - n) with
  | some d => d
  | none => ⟨0, 0⟩

/-- Drops the zeros at the end of the digits. -/
def stripZeros (digits : List Char) : List Char :=
  (digits.reverse.dropWhile (· = '0')).reverse

/-- A decimal written positionally, with no point unless there are digits after it. -/
def Decimal.positional (d : Decimal) : String :=
  let digits := Nat.toDigits 10 d.digits
  if 0 ≤ d.exponent then
    String.ofList (digits ++ List.replicate d.exponent.toNat '0')
  else
    let places := (-d.exponent).toNat
    let padded := List.replicate (places + 1 - digits.length) '0' ++ digits
    let whole := padded.take (padded.length - places)
    match stripZeros (padded.drop (padded.length - places)) with
    | [] => String.ofList whole
    | part => String.ofList (whole ++ '.' :: part)

/-- The text of a float given by its bit pattern. -/
def FloatFormat.render (f : FloatFormat) (bits : Nat) : String :=
  let sign := if f.negative bits then "-" else ""
  match f.split bits with
  | .nan => "NaN"
  | .infinite => sign ++ "inf"
  | .zero => sign ++ "0"
  | .finite i => sign ++ i.shortest.positional

end HookWeave.Text

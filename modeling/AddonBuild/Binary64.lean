/-!
# Binary floating point

Finite numbers of the 64-bit binary format, held as a whole significand times a power of two, with
rounding to nearest (a tie goes to the even significand) computed exactly over the naturals. The
shortest text of a number is the shortest decimal that rounds back to it.
-/

namespace AddonBuild

/-- The finite number `significand * 2 ^ exponent`, with a sign of its own so that zero has two. -/
structure Binary64 where
  negative : Bool
  significand : Nat
  exponent : Int
deriving DecidableEq, Repr

namespace Binary64

/-- The least exponent of the format. -/
def minExponent : Int := -1074

/-- The greatest exponent of the format. -/
def maxExponent : Int := 971

/-- Zero without a sign. -/
def zero : Binary64 := ⟨false, 0, minExponent⟩

/-- The same magnitude with the given sign. -/
def withSign (x : Binary64) (negative : Bool) : Binary64 :=
  { x with negative }

/-! ### Rounding -/

/-- The whole number nearest to `num / den`; a tie goes to the even one. -/
def roundHalfEven (num den : Nat) : Nat :=
  let q := num / den
  let twice := 2 * (num % den)
  if twice < den then q
  else if den < twice then q + 1
  else q + q % 2

/-- The ratio `num / den` divided by `2 ^ e`, as a ratio. -/
def scaleDown (num den : Nat) (e : Int) : Nat × Nat :=
  if 0 ≤ e then (num, den * Nat.pow 2 e.toNat) else (num * Nat.pow 2 (-e).toNat, den)

/-- The greatest `e` with `2 ^ e ≤ num / den`, for a positive ratio. -/
def floorLog2 (num den : Nat) : Int :=
  let e : Int := (num.log2 : Int) - den.log2
  let (n, d) := scaleDown num den e
  if n < d then e - 1 else e

/-- The number nearest to `num / den`, or nothing if that is beyond the format. -/
def ofRatio? (num den : Nat) : Option Binary64 :=
  if num = 0 then some zero
  else
    let e := max (floorLog2 num den - 52) minExponent
    let (n, d) := scaleDown num den e
    let m := roundHalfEven n d
    let (m, e) := if m = Nat.pow 2 53 then (Nat.pow 2 52, e + 1) else (m, e)
    if e > maxExponent then none else some ⟨false, m, e⟩

/-- The magnitude as a ratio of naturals. -/
def ratio (x : Binary64) : Nat × Nat :=
  if 0 ≤ x.exponent then (x.significand * Nat.pow 2 x.exponent.toNat, 1)
  else (x.significand, Nat.pow 2 (-x.exponent).toNat)

/-- The rounded product of two magnitudes. -/
def mul? (x y : Binary64) : Option Binary64 :=
  ofRatio? (x.ratio.1 * y.ratio.1) (x.ratio.2 * y.ratio.2)

/-- The rounded quotient of two magnitudes. -/
def div? (x y : Binary64) : Option Binary64 :=
  ofRatio? (x.ratio.1 * y.ratio.2) (x.ratio.2 * y.ratio.1)

/-- The number nearest to a power of ten. -/
def powerOfTen? (k : Nat) : Option Binary64 :=
  ofRatio? (Nat.pow 10 k) 1

/-! ### Shortest decimal text -/

/-- The greatest `k` with `10 ^ k ≤ num / den`, for a positive ratio, searched upwards from an
estimate that is not too high. -/
def floorLog10 (num den : Nat) : Int :=
  let atMost (k : Int) : Bool :=
    if 0 ≤ k then den * Nat.pow 10 k.toNat ≤ num else den ≤ num * Nat.pow 10 (-k).toNat
  let rec climb (k : Int) : Nat → Int
    | 0 => k
    | steps + 1 => if atMost (k + 1) then climb (k + 1) steps else k
  climb (floorLog2 num den * 30103 / 100000 - 2) 5

/-- The decimal `digits * 10 ^ scale` as a ratio. -/
def decimalRatio (digits : Nat) (scale : Int) : Nat × Nat :=
  if 0 ≤ scale then (digits * Nat.pow 10 scale.toNat, 1) else (digits, Nat.pow 10 (-scale).toNat)

/-- Whether a decimal rounds to the magnitude of `x`. -/
def readsBack (x : Binary64) (digits : Nat) (scale : Int) : Bool :=
  let (num, den) := decimalRatio digits scale
  ofRatio? num den == some (x.withSign false)

/-- The multiple of `10 ^ scale` that rounds to `x`, if there is one: of two neighbours of `x`
that both do, the nearer, and on a tie the even one. -/
def onGrid? (x : Binary64) (scale : Int) : Option Nat :=
  let (num, den) := x.ratio
  let (n, d) :=
    if 0 ≤ scale then (num, den * Nat.pow 10 scale.toNat)
    else (num * Nat.pow 10 (-scale).toNat, den)
  let low := n / d
  let near := roundHalfEven n d
  let far := if near = low then low + 1 else low
  if x.readsBack near scale then some near
  else if x.readsBack far scale then some far
  else none

/-- The digits and the power of ten of the first digit, for the fewest digits from `count` on that
read back. -/
def shortestFrom (x : Binary64) (magnitude : Int) (count : Nat) : Nat → Nat × Int
  | 0 => (0, 0)
  | tries + 1 =>
    let scale := magnitude - (count : Int) + 1
    match x.onGrid? scale with
    | some digits => (digits, scale)
    | none => x.shortestFrom magnitude (count + 1) tries

/-- The shortest decimal `digits * 10 ^ scale` that reads back as the magnitude of `x`. -/
def shortest (x : Binary64) : Nat × Int :=
  let (num, den) := x.ratio
  x.shortestFrom (floorLog10 num den) 1 17

/-- Drop the zeros at the end of a positive whole number and count them. -/
def dropZeros (digits : List Char) : List Char × Nat :=
  let kept := (digits.reverse.dropWhile (· = '0')).reverse
  (kept, digits.length - kept.length)

/-- A decimal with digits and the power of ten of its first digit: written out while that power
lies between `-5` and `15`, with at least one digit after the point, and with an exponent
otherwise. -/
def decimalText (digits : List Char) (magnitude : Int) : List Char :=
  if -5 ≤ magnitude ∧ magnitude < 16 then
    if magnitude < 0 then
      ['0', '.'] ++ List.replicate (-magnitude - 1).toNat '0' ++ digits
    else
      let whole := magnitude.toNat + 1
      let padded := digits ++ List.replicate (whole - digits.length) '0'
      let fraction := padded.drop whole
      padded.take whole ++ ['.'] ++ (if fraction.isEmpty then ['0'] else fraction)
  else
    let mantissa := match digits with
      | [] => []
      | [c] => [c]
      | c :: rest => c :: '.' :: rest
    let sign := if magnitude < 0 then '-' else '+'
    mantissa ++ ['e', sign] ++ Nat.toDigits 10 magnitude.natAbs

/-- The shortest text that reads back as the number. -/
def text (x : Binary64) : String :=
  let sign := if x.negative then ['-'] else []
  if x.significand = 0 then String.ofList (sign ++ ['0', '.', '0'])
  else
    let (whole, scale) := x.shortest
    let written := Nat.toDigits 10 whole
    let magnitude := scale + (written.length : Int) - 1
    String.ofList (sign ++ decimalText (dropZeros written).1 magnitude)

end Binary64

end AddonBuild

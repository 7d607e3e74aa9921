/-! Doubles as their 64 bits: rounding a quotient to the nearest one, and the fewest digits that
read back. -/
namespace LanguageServer.Binary64

/-- The sign and the number `m · 2 ^ q` that finite bits stand for. -/
def decompose (bits : UInt64) : Bool × Nat × Int :=
  let n := bits.toNat
  let biased : Nat := n / Nat.pow 2 52 % 2048
  let fraction : Nat := n % Nat.pow 2 52
  if biased = 0 then (decide (Nat.pow 2 63 ≤ n), fraction, -1074)
  else (decide (Nat.pow 2 63 ≤ n), Nat.pow 2 52 + fraction, (biased : Int) - 1075)

/-- A magnitude's numerator and denominator. -/
def fraction (m : Nat) (q : Int) : Nat × Nat :=
  if 0 ≤ q then (m * Nat.pow 2 q.toNat, 1) else (m, Nat.pow 2 (-q).toNat)

/-- `num / den` to the nearest integer, a half to the even neighbour. -/
def roundDiv (num den : Nat) : Nat :=
  let quotient := num / den
  let twice := 2 * (num % den)
  if twice < den then quotient
  else if den < twice then quotient + 1
  else if quotient % 2 = 0 then quotient else quotient + 1

/-- The rounded quotient is at most half a unit away. -/
theorem roundDiv_near (num den : Nat) (h : 0 < den) :
    2 * (den * roundDiv num den) ≤ 2 * num + den ∧ 2 * num ≤ 2 * (den * roundDiv num den) + den := by
  have whole := Nat.div_add_mod num den
  have rest := Nat.mod_lt num h
  have up : den * (num / den + 1) = den * (num / den) + den := Nat.mul_succ _ _
  unfold roundDiv
  simp only
  split
  · omega
  · split
    · omega
    · split <;> omega

/-- The magnitude nearest to `num / den`; `none` when it is above the largest double. -/
def ofRatio (num den : Nat) : Option UInt64 :=
  if num = 0 then some 0
  else
    let guess : Int := (Nat.log2 num : Int) - Nat.log2 den - 52
    let scaled (e : Int) : Nat × Nat :=
      if 0 ≤ e then (num, den * Nat.pow 2 e.toNat) else (num * Nat.pow 2 (-e).toNat, den)
    let (top, bottom) := scaled guess
    let e := max (-1074) (if top / bottom < Nat.pow 2 52 then guess - 1 else guess)
    let (top, bottom) := scaled e
    let bits := (e + 1074).toNat * Nat.pow 2 52 + roundDiv top bottom
    if bits < 2047 * Nat.pow 2 52 then some bits.toUInt64 else none

/-- A significand in double precision times a power of ten in double precision, rounded once for
every factor of at most `10 ^ 308`; `none` when the product is too large. -/
def scale (significand : Nat) (exponent : Int) : Option UInt64 := do
  let magnitude (bits : UInt64) : Nat × Nat :=
    let (_, m, q) := decompose bits
    fraction m q
  let power (k : Nat) : Nat := ((ofRatio (Nat.pow 10 k) 1).map fun b => (magnitude b).1 / (magnitude b).2).getD 0
  let rec go : Nat → UInt64 → Int → Option UInt64
    | 0, bits, _ => some bits
    | fuel + 1, bits, exponent =>
      let (num, den) := magnitude bits
      if exponent.natAbs ≤ 308 then
        if 0 ≤ exponent then ofRatio (num * power exponent.natAbs) den
        else ofRatio num (den * power exponent.natAbs)
      else if num = 0 then some bits
      else if 0 ≤ exponent then none
      else (ofRatio num (den * power 308)).bind fun less => go fuel less (exponent + 308)
  go 4 (← ofRatio significand 1) exponent

/-- The digits and the power of ten of the shortest decimal that reads back as `m · 2 ^ q`, the
nearest such decimal where several are as short. -/
def shortest (m : Nat) (q : Int) : Nat × Int :=
  if m = 0 then (0, 0)
  else
    -- four times the value and the ends of the interval that rounds to it
    let lowGap := if m = Nat.pow 2 52 ∧ -1074 < q then 1 else 2
    let (value, den) := fraction (4 * m) (q - 2)
    let (low, _) := fraction (4 * m - lowGap) (q - 2)
    let (high, _) := fraction (4 * m + 2) (q - 2)
    let inside (num den' : Nat) : Bool :=
      if m % 2 = 0 then low * den' ≤ num * den && num * den ≤ high * den'
      else low * den' < num * den && num * den < high * den'
    let magnitude : Int :=
      let digits := (value / den).repr.length
      if value / den = 0 then
        -- below one: the number of zeros after the point
        let zeros := (den / value).repr.length - 1
        if value * Nat.pow 10 zeros ≥ den then 1 - (zeros : Int) else -(zeros : Int)
      else digits
    let rec search : Nat → Nat → Nat × Int
      | 0, _ => (0, 0)
      | fuel + 1, count =>
        let unit : Int := magnitude - count
        let (unitNum, unitDen) : Nat × Nat :=
          if 0 ≤ unit then (Nat.pow 10 unit.toNat, 1) else (1, Nat.pow 10 (-unit).toNat)
        let below := value * unitDen / (den * unitNum)
        let rest := value * unitDen % (den * unitNum)
        let first := inside (below * unitNum) unitDen
        let second := inside ((below + 1) * unitNum) unitDen
        if first && (!second || 2 * rest < den * unitNum ||
            (2 * rest = den * unitNum && below % 2 = 0)) then (below, unit)
        else if second then (below + 1, unit)
        else search fuel (count + 1)
    search 18 1

/-- The text of a finite double: positional below `10 ^ 16` and from `10 ^ -5` on, with a point in
any case; else one digit before the point and an exponent. -/
def text (bits : UInt64) : String :=
  let (negative, m, q) := decompose bits
  let (digits, exponent) := shortest m q
  -- no digit at the end is a zero
  let rec trim : Nat → Nat → Int → Nat × Int
    | 0, d, e => (d, e)
    | fuel + 1, d, e => if d ≠ 0 ∧ d % 10 = 0 then trim fuel (d / 10) (e + 1) else (d, e)
  let (digits, exponent) := trim 400 digits exponent
  let cs := (toString digits).toList
  let point : Int := cs.length + exponent
  let zeros (n : Int) : List Char := List.replicate n.toNat '0'
  let body : List Char :=
    if digits = 0 then ['0', '.', '0']
    else if 0 ≤ exponent ∧ point ≤ 16 then cs ++ zeros exponent ++ ['.', '0']
    else if 0 < point ∧ point ≤ 16 then cs.take point.toNat ++ '.' :: cs.drop point.toNat
    else if -5 < point ∧ point ≤ 0 then '0' :: '.' :: zeros (-point) ++ cs
    else
      let mantissa := match cs with
        | [c] => [c]
        | c :: rest => c :: '.' :: rest
        | [] => []
      mantissa ++ 'e' :: (toString (point - 1)).toList
  String.ofList (if negative then '-' :: body else body)

end LanguageServer.Binary64

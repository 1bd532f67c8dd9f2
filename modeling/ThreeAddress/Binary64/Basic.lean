namespace ThreeAddress

/-- An IEEE 754 binary64 number, by its bit pattern. -/
structure Binary64 where
  bits : UInt64
  deriving DecidableEq

namespace Binary64

def signBit : Nat := 0x8000000000000000

/-- The weight of the exponent field: 52 bits hold the fraction. -/
def fractionSize : Nat := 0x10000000000000

def negative (x : Binary64) : Bool := signBit ≤ x.bits.toNat

def magnitude (x : Binary64) : Nat := x.bits.toNat % signBit

def ofMagnitude (negative : Bool) (n : Nat) : Binary64 :=
  ⟨UInt64.ofNat (if negative then signBit + n else n)⟩

theorem ofMagnitude_magnitude (x : Binary64) : ofMagnitude x.negative x.magnitude = x := by
  have h := x.bits.toNat_lt
  have hb : (if x.negative then signBit + x.magnitude else x.magnitude) = x.bits.toNat := by
    by_cases hs : signBit ≤ x.bits.toNat
    · simp only [negative, magnitude, hs, decide_true, ↓reduceIte]
      simp only [signBit] at *
      omega
    · simp only [negative, magnitude, hs, decide_false, Bool.false_eq_true, ↓reduceIte]
      simp only [signBit] at *
      omega
  simp only [ofMagnitude, hb, UInt64.ofNat_toNat]

theorem negative_ofMagnitude {b : Bool} {n : Nat} (h : n < signBit) :
    (ofMagnitude b n).negative = b := by
  simp only [signBit] at h
  cases b <;> simp [negative, ofMagnitude, signBit] <;> omega

theorem magnitude_ofMagnitude {b : Bool} {n : Nat} (h : n < signBit) :
    (ofMagnitude b n).magnitude = n := by
  simp only [signBit] at h
  cases b <;> simp [magnitude, ofMagnitude, signBit] <;> omega

/-- The magnitude of the infinities; all larger ones are no numbers. -/
def infinite : Nat := 2047 * fractionSize

def infinity (negative : Bool) : Binary64 := ofMagnitude negative infinite

def zero (negative : Bool) : Binary64 := ofMagnitude negative 0

def nan : Binary64 := ofMagnitude false (infinite + fractionSize / 2)

def isNaN (x : Binary64) : Bool := infinite < x.magnitude

def isInfinite (x : Binary64) : Bool := x.magnitude == infinite

def isZero (x : Binary64) : Bool := x.magnitude == 0

def biased (x : Binary64) : Nat := x.magnitude / fractionSize

def fraction (x : Binary64) : Nat := x.magnitude % fractionSize

/-- A finite number is `significand * 2 ^ exponent`, up to its sign. -/
def significand (x : Binary64) : Nat :=
  if x.biased = 0 then x.fraction else fractionSize + x.fraction

def exponent (x : Binary64) : Int :=
  if x.biased = 0 then -1074 else (x.biased : Int) - 1075

/-- `m / 2 ^ s` to the nearest integer, from halfway to the even one. With `sticky`, the numerator
is not `m` but somewhat larger. -/
def shiftDown (m s : Nat) (sticky : Bool) : Nat :=
  let n := m >>> s
  let unit := 1 <<< s
  let r := m % unit
  if unit < 2 * r ∨ 2 * r = unit ∧ (sticky ∨ n % 2 = 1) then n + 1 else n

/-- The magnitude of the number nearest to `m * 2 ^ q`, from halfway the even one. Normal numbers
have 53 significant bits, and no unit lies below `2 ^ -1074`; a carry out of the significand runs
into the exponent field, up to the infinities. -/
def round (m : Nat) (q : Int) : Nat :=
  let top := q + m.log2
  if m = 0 ∨ top < -1075 then 0
  else if 1023 < top then infinite
  else
    let unit := max (top - 52) (-1074)
    (unit + 1074).toNat * fractionSize +
      if unit ≤ q then m <<< (q - unit).toNat else shiftDown m (unit - q).toNat false

def nearest (negative : Bool) (m : Nat) (q : Int) : Binary64 := ofMagnitude negative (round m q)

/-- The same for `m / d * 2 ^ q`. The quotient is taken to at least 63 bits, and one more that
records whether it is exact. -/
def roundRatio (m d : Nat) (q : Int) : Nat :=
  let k := 64 + d.log2
  let n := m <<< k
  round (2 * (n / d) + if n % d = 0 then 0 else 1) (q - k - 1)

def ofInt (n : Int) : Binary64 := nearest (n < 0) n.natAbs 0

end Binary64

end ThreeAddress

import ThreeAddress.Binary64.Basic

namespace ThreeAddress.Binary64

def neg (x : Binary64) : Binary64 := ofMagnitude (!x.negative) x.magnitude

/-- A finite number in units of `2 ^ q`, for `q` no larger than its exponent. -/
def inUnits (x : Binary64) (q : Int) : Int :=
  let n := x.significand <<< (x.exponent - q).toNat
  if x.negative then -(n : Int) else n

def add (x y : Binary64) : Binary64 :=
  if x.isNaN || y.isNaN || x.isInfinite && y.isInfinite && x.negative != y.negative then nan
  else if x.isInfinite then x
  else if y.isInfinite then y
  else
    let q := min x.exponent y.exponent
    let s := x.inUnits q + y.inUnits q
    nearest (if s = 0 then x.negative && y.negative else s < 0) s.natAbs q

def sub (x y : Binary64) : Binary64 := x.add y.neg

def mul (x y : Binary64) : Binary64 :=
  let sign := x.negative != y.negative
  if x.isNaN || y.isNaN || x.isInfinite && y.isZero || x.isZero && y.isInfinite then nan
  else if x.isInfinite || y.isInfinite then infinity sign
  else nearest sign (x.significand * y.significand) (x.exponent + y.exponent)

def div (x y : Binary64) : Binary64 :=
  let sign := x.negative != y.negative
  if x.isNaN || y.isNaN || x.isInfinite && y.isInfinite || x.isZero && y.isZero then nan
  else if x.isInfinite || y.isZero then infinity sign
  else if y.isInfinite then zero sign
  else ofMagnitude sign (roundRatio x.significand y.significand (x.exponent - y.exponent))

/-- What is left of `x` after a whole multiple of `y`, with the sign of `x` and below `y` in
magnitude. It is exact. -/
def rem (x y : Binary64) : Binary64 :=
  if x.isNaN || y.isNaN || x.isInfinite || y.isZero then nan
  else if y.isInfinite then x
  else
    let q := min x.exponent y.exponent
    nearest x.negative ((x.inUnits q).natAbs % (y.inUnits q).natAbs) q

def truncate? (x : Binary64) : Option Int :=
  if x.isNaN || x.isInfinite then none
  else
    let n := if 0 ≤ x.exponent then x.significand <<< x.exponent.toNat
      else x.significand >>> (-x.exponent).toNat
    some (if x.negative then -(n : Int) else n)

def floor (x : Binary64) : Binary64 :=
  if x.isNaN || x.isInfinite || 0 ≤ x.exponent then x
  else
    let unit := 1 <<< (-x.exponent).toNat
    let n := x.significand / unit
    nearest x.negative (if x.negative && x.significand % unit != 0 then n + 1 else n) 0

/-- The position among the numbers; both zeros have the same. -/
def rank (x : Binary64) : Int := if x.negative then -(x.magnitude : Int) else x.magnitude

def lt (x y : Binary64) : Bool := !x.isNaN && !y.isNaN && x.rank < y.rank

def eq (x y : Binary64) : Bool := !x.isNaN && !y.isNaN && x.rank == y.rank

def one : Binary64 := ofInt 1

def half : Binary64 := nearest false 1 (-1)

instance : Add Binary64 := ⟨add⟩

instance : Sub Binary64 := ⟨sub⟩

instance : Mul Binary64 := ⟨mul⟩

instance : Div Binary64 := ⟨div⟩

/-- The quotient of `x` by `y`, rounded down: the remainder is taken off first, so that the division
is of a multiple of `y`, and what the division rounded is rounded back to a whole number. -/
def floorDiv (x y : Binary64) : Binary64 :=
  let r := x.rem y
  let d := (x - r) / y
  let d := if !r.eq (zero false) && y.lt (zero false) != r.lt (zero false) then d - one else d
  if d.eq (zero false) then zero (x / y).negative
  else if half.lt (d - d.floor) then d.floor + one else d.floor

end ThreeAddress.Binary64

import ThreeAddress.Binary64.Basic

namespace ThreeAddress.Binary64

def saturate (n : Int) : Int := max Int64.minValue.toInt (min n Int64.maxValue.toInt)

/-- What is kept of a number whose digits are read one by one: up to 64 leading bits, the power of
two that they count, and whether something was left out below them. -/
structure Leading where
  bits : Nat := 0
  scale : Int
  sticky : Bool := false
  deriving DecidableEq

namespace Leading

/-- Whether there is no room for four more bits. -/
def full (a : Leading) : Bool := a.bits >>> 60 != 0

def addWhole (a : Leading) (digit : Nat) : Leading :=
  if a.full then { a with sticky := a.sticky || digit != 0, scale := saturate (a.scale + 4) }
  else { a with bits := 16 * a.bits + digit }

def addPlace (a : Leading) (digit : Nat) : Leading :=
  if a.full then { a with sticky := a.sticky || digit != 0 }
  else { a with bits := 16 * a.bits + digit, scale := saturate (a.scale - 4) }

/-- The magnitude of the nearest number. The leading bit is first moved to the top of 64 bits;
subnormal numbers keep fewer bits than normal ones. -/
def round (a : Leading) : Nat :=
  if a.bits = 0 then 0
  else
    let zeros := 63 - a.bits.log2
    let bits := a.bits <<< zeros
    let exponent := saturate (saturate (a.scale - zeros) + 63)
    if 1023 < exponent then infinite
    else
      let shift := if -1022 ≤ exponent then 11 else -1011 - exponent
      if 64 < shift then 0
      else
        let kept := shiftDown bits shift.toNat a.sticky
        if -1022 ≤ exponent then
          let carry := kept == 2 * fractionSize
          let biased := (exponent + if carry then 1024 else 1023).toNat
          let kept := if carry then kept / 2 else kept
          if 2047 ≤ biased then infinite else biased * fractionSize + kept % fractionSize
        else kept

end Leading

end ThreeAddress.Binary64

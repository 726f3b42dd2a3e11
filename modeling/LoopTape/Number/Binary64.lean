/-! Floating-point numbers of 64 bits.

A number is its bit pattern: a sign, eleven bits of exponent and a fraction of 52 bits. A finite
number is a whole number times a power of two.
-/

set_option autoImplicit false

namespace LoopTape

structure Binary64 where
  bits : UInt64
  deriving Repr, DecidableEq

namespace Binary64

inductive Meaning where
  | notANumber
  | infinity (negative : Bool)
  | finite (negative : Bool) (mantissa : Nat) (exponent : Int)
  deriving Repr, DecidableEq

def isNegative (x : Binary64) : Bool := Nat.pow 2 63 ≤ x.bits.toNat

def exponentBits (x : Binary64) : Nat := x.bits.toNat / Nat.pow 2 52 % Nat.pow 2 11

def fraction (x : Binary64) : Nat := x.bits.toNat % Nat.pow 2 52

def meaning (x : Binary64) : Meaning :=
  if x.exponentBits = 2047 then
    if x.fraction = 0 then .infinity x.isNegative else .notANumber
  else if x.exponentBits = 0 then .finite x.isNegative x.fraction (-1074)
  else .finite x.isNegative (Nat.pow 2 52 + x.fraction) (x.exponentBits - 1075)

def whole? (x : Binary64) : Option Int :=
  match x.meaning with
  | .finite negative mantissa exponent =>
    let magnitude : Option Nat :=
      if 0 ≤ exponent then some (mantissa * Nat.pow 2 exponent.toNat)
      else
        let unit := Nat.pow 2 (-exponent).toNat
        if mantissa % unit = 0 then some (mantissa / unit) else none
    magnitude.map fun n => if negative then -(n : Int) else n
  | _ => none

def equal (x y : Binary64) : Bool :=
  match x.meaning, y.meaning with
  | .notANumber, _ | _, .notANumber => false
  | .finite _ 0 _, .finite _ 0 _ => true
  | _, _ => x.bits = y.bits

def ofParts (negative : Bool) (exponentBits fraction : Nat) : Binary64 :=
  ⟨.ofNat ((if negative then Nat.pow 2 63 else 0) + exponentBits * Nat.pow 2 52 + fraction)⟩

/-- The quotient by a power of two, rounded to the nearest whole number, a half to the even one. -/
def roundShift (n shift : Nat) : Nat :=
  let unit := Nat.pow 2 shift
  let down := n / unit
  let rest := n % unit
  if 2 * rest > unit ∨ (2 * rest = unit ∧ down % 2 = 1) then down + 1 else down

def ofInt (value : Int) : Binary64 :=
  let negative := value < 0
  let n := value.natAbs
  if n = 0 then ⟨0⟩
  else
    let length := n.log2 + 1
    let shift := length - 53
    let mantissa := roundShift n shift * Nat.pow 2 (53 - length)
    -- rounding up may carry into one more bit
    let (mantissa, shift) :=
      if mantissa = Nat.pow 2 53 then (Nat.pow 2 52, shift + 1) else (mantissa, shift)
    let exponentBits := shift + 1075 - (53 - length)
    if exponentBits ≥ 2047 then ofParts negative 2047 0
    else ofParts negative exponentBits (mantissa - Nat.pow 2 52)

end Binary64

end LoopTape

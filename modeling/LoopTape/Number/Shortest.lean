import LoopTape.Number.Binary64

/-! Numbers in as few decimal digits as tell them apart.

A number `m * 2 ^ q` is told apart from its neighbours by every decimal that is nearer to it than to
them; a decimal halfway to a neighbour counts if `m` is even. Of the decimals with the fewest digits
the nearest is taken, and of two equally near ones the larger.
-/

set_option autoImplicit false

namespace LoopTape

structure Decimal where
  digits : Nat
  exponent : Int
  deriving Repr, DecidableEq

namespace Decimal

def digitCount (n : Nat) : Nat := (Nat.toDigits 10 n).length

def leadingExponent (num den : Nat) : Int :=
  if den ≤ num then (digitCount (num / den) : Int) - 1
  else -(digitCount ((den + num - 1) / num - 1) : Int)

/-- The reals that a number stands for: those from `low / den` to `high / den`, where the ends count
if `closed` is set. The number itself is `value / den`. -/
structure Cell where
  low : Nat
  value : Nat
  high : Nat
  den : Nat
  closed : Bool
  deriving Repr, DecidableEq

/-- The cell of `mantissa * 2 ^ exponent`. The neighbour below is only half as far away where
`narrow` is set. -/
def Cell.of (mantissa : Nat) (exponent : Int) (narrow : Bool) : Cell :=
  let low := if narrow then 4 * mantissa - 1 else 4 * mantissa - 2
  let scale := Nat.pow 2 (exponent - 2).toNat
  ⟨low * scale, 4 * mantissa * scale, (4 * mantissa + 2) * scale, Nat.pow 2 (2 - exponent).toNat,
    mantissa % 2 = 0⟩

def Cell.inUnits (cell : Cell) (exponent : Int) : Cell :=
  let up := Nat.pow 10 (-exponent).toNat
  ⟨cell.low * up, cell.value * up, cell.high * up, cell.den * Nat.pow 10 exponent.toNat,
    cell.closed⟩

def Cell.holds (cell : Cell) (n : Nat) : Bool :=
  let point := n * cell.den
  if cell.closed then cell.low ≤ point && point ≤ cell.high
  else cell.low < point && point < cell.high

def Cell.nearest? (cell : Cell) : Option Nat :=
  let down := cell.value / cell.den
  let rest := cell.value % cell.den
  if cell.holds down then
    if cell.holds (down + 1) && cell.den ≤ 2 * rest then some (down + 1) else some down
  else if cell.holds (down + 1) then some (down + 1)
  else none

/-- The decimal of the fewest digits in a cell, where `exponent` is that of the next digit to try.
Seventeen digits always suffice; `tries` counts those left. -/
def Cell.shortest (cell : Cell) (exponent : Int) : (tries : Nat) → Decimal
  | 0 => ⟨cell.value / cell.den, 0⟩
  | tries + 1 =>
    match (cell.inUnits exponent).nearest? with
    | some digits => ⟨digits, exponent⟩
    | none => cell.shortest (exponent - 1) tries

def ofBinary (mantissa : Nat) (exponent : Int) (narrow : Bool) : Decimal :=
  let cell := Cell.of mantissa exponent narrow
  cell.shortest (leadingExponent cell.value cell.den) 17

/-- A decimal in full, without an exponent and without a fraction of zeros only. -/
def text (d : Decimal) : List Char :=
  if 0 ≤ d.exponent then Nat.toDigits 10 d.digits ++ List.replicate d.exponent.toNat '0'
  else
    -- at most one digit is zero, when a round-up carried through all of them
    let (digits, places) :=
      if d.digits % 10 = 0 then (d.digits / 10, (-d.exponent).toNat - 1)
      else (d.digits, (-d.exponent).toNat)
    let written := Nat.toDigits 10 digits
    let padded := List.replicate (places + 1 - written.length) '0' ++ written
    let whole := padded.take (padded.length - places)
    if places = 0 then whole else whole ++ '.' :: padded.drop (padded.length - places)

end Decimal

namespace Binary64

def leastWhole : Int := -(Nat.pow 2 63 : Nat)

def greatestWhole : Int := (Nat.pow 2 63 : Nat) - 1

def shortText (x : Binary64) : String :=
  match x.meaning with
  | .notANumber => "NaN"
  | .infinity negative => if negative then "-inf" else "inf"
  | .finite negative mantissa exponent =>
    let narrow := x.fraction = 0 && 1 < x.exponentBits
    let digits := (Decimal.ofBinary mantissa exponent narrow).text
    String.ofList (if negative then '-' :: digits else digits)

/-- A number as it is shown. A whole number from `-2 ^ 63` to `2 ^ 63` is written exactly, but never
above `greatestWhole`; any other number has the fewest digits that tell it apart. -/
def text (x : Binary64) : String :=
  match x.whole? with
  | some n =>
    if leastWhole ≤ n ∧ n ≤ greatestWhole + 1 then toString (min n greatestWhole) else x.shortText
  | none => x.shortText

end Binary64

end LoopTape

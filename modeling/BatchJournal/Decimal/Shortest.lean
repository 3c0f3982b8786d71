import BatchJournal.Decimal.Binary64

namespace BatchJournal

/-!
# The shortest decimal that reads back

A finite positive number is written with the fewest significant digits that lie nearer to it than
to any other number, and of the decimals with that many digits the nearest is taken
(`Shortest.ofFinite`).  For each count of digits only the two neighbours of the number on that
decimal grid can qualify, so both are tested in exact arithmetic and the first grid with a hit
wins; seventeen digits always suffice.
-/

/-- A positive decimal `0.d₁d₂… · 10 ^ point`: its digits as one number, their count, and the place
    of the point. -/
structure Decimal where
  /-- The significant digits, read as a natural. -/
  digits : Nat
  /-- How many they are. -/
  count : Nat
  /-- How many digits stand before the point; negative when zeros follow it first. -/
  point : Int
deriving DecidableEq, Repr

namespace Shortest

open Binary64 (tenTo)

/-- A positive rational number that a decimal grid is laid over: the number itself and the ends of
    the interval that rounds to it, over one common denominator `unit`. -/
structure Target where
  /-- Numerator of the lower end. -/
  low : Nat
  /-- Numerator of the number. -/
  mid : Nat
  /-- Numerator of the upper end. -/
  high : Nat
  /-- The common denominator. -/
  unit : Nat
  /-- The ends themselves round to the number. -/
  closed : Bool

/-- **The interval of a finite number** `significand · 2 ^ exponent`.  Its ends lie half way to the
    neighbours; the lower neighbour is nearer at a power of two.  An end belongs to the interval
    when the significand is even. -/
def target (significand : Nat) (exponent : Int) : Target :=
  let gap := if significand = Binary64.hiddenBit ∧ -1074 < exponent then 1 else 2
  let scale := if 0 ≤ exponent - 2 then 1 <<< (exponent - 2).toNat else 1
  let unit := if 0 ≤ exponent - 2 then 1 else 1 <<< (2 - exponent).toNat
  ⟨(4 * significand - gap) * scale, 4 * significand * scale, (4 * significand + 2) * scale, unit,
    significand % 2 = 0⟩

/-- The fraction `n / d` lies in the interval. -/
def Target.holds (t : Target) (n d : Nat) : Bool :=
  if t.closed then t.low * d ≤ n * t.unit && n * t.unit ≤ t.high * d
  else t.low * d < n * t.unit && n * t.unit < t.high * d

/-- The fraction with grid step `10 ^ step`: numerator and denominator of `c` steps. -/
def onGrid (c : Nat) (step : Int) : Nat × Nat :=
  if 0 ≤ step then (c * tenTo step.toNat, 1) else (c, tenTo (-step).toNat)

/-- The last grid point not above the number, as a multiple of `10 ^ step`. -/
def Target.floor (t : Target) (step : Int) : Nat :=
  if 0 ≤ step then t.mid / (t.unit * tenTo step.toNat) else t.mid * tenTo (-step).toNat / t.unit

/-- The number lies below the middle between the grid point `c` and its successor, so the lower
    point is the nearer; the middle itself goes up. -/
def Target.lowerNearer (t : Target) (c : Nat) (step : Int) : Bool :=
  let (n, d) := onGrid (2 * c + 1) step
  2 * t.mid * d < n * t.unit

/-- The qualifying neighbour of the number on one grid, `floor` or the next one, the nearer one if
    both qualify. -/
def Target.hit (t : Target) (step : Int) : Option Nat :=
  let c := t.floor step
  let lower := t.holds (onGrid c step).1 (onGrid c step).2 && c != 0
  let upper := t.holds (onGrid (c + 1) step).1 (onGrid (c + 1) step).2
  match lower, upper with
  | true, true => some (if t.lowerNearer c step then c else c + 1)
  | true, false => some c
  | false, true => some (c + 1)
  | false, false => none

/-- How many decimal digits stand before the point of the number: the least `p` with the number
    below `10 ^ p`, found from an estimate that is at most two too low. -/
def Target.places (t : Target) : Int :=
  let estimate : Int := ((t.mid.log2 : Int) - t.unit.log2 - 1) * 30103 / 100000
  let fits (p : Int) : Bool := t.mid < t.unit * tenTo p.toNat ∧ 0 ≤ p ∨
    t.mid * tenTo (-p).toNat < t.unit ∧ p < 0
  if fits estimate then estimate else if fits (estimate + 1) then estimate + 1
  else if fits (estimate + 2) then estimate + 2 else estimate + 3

/-- The first grid of `n, n + 1, …` digits with a hit, among at most `fuel` grids. -/
def Target.search (t : Target) (places : Int) : Nat → Nat → Decimal
  | 0, n => ⟨t.floor (places - n), n, places⟩
  | fuel + 1, n =>
    match t.hit (places - n) with
    -- The upper neighbour can be the next power of ten, which is a single digit.
    | some c => if c = tenTo n then ⟨1, 1, places + 1⟩ else ⟨c, n, places⟩
    | none => t.search places fuel (n + 1)

/-- The digits without the zeros at their end, and how many are left. -/
def dropZeros : Nat → Nat → Nat × Nat
  | digits, 0 => (digits, 0)
  | digits, count + 1 =>
    if digits % 10 = 0 ∧ count ≠ 0 then dropZeros (digits / 10) count else (digits, count + 1)

/-- **Shortest digits** of the positive number `significand · 2 ^ exponent`. -/
def ofFinite (significand : Nat) (exponent : Int) : Decimal :=
  let t := target significand exponent
  let d := t.search t.places 17 1
  let (digits, count) := dropZeros d.digits d.count
  ⟨digits, count, d.point⟩

end Shortest

end BatchJournal

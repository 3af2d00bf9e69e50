import PageStore.Decimal.Binary

/-!
# PageStore.Decimal.Shortest

The shortest decimal that reads back as a given binary number. The reals that round to
`m * 2 ^ q` form an interval, its ends included when `m` is even. Decimals are searched grid by
grid, from coarse to fine: the multiples of `10 ^ e` for falling `e`. The first grid with a point
in the interval gives the fewest digits; of a grid's two points next to the number the nearer wins,
and of two equally near the greater.

All arithmetic is on natural numbers: bounds are kept in quarters of `2 ^ q`.
-/

namespace PageStore.Decimal

structure Numeral where
  digits : Nat
  exponent : Int
  deriving DecidableEq, Repr

/-- The reals that round to a number, in quarters of `2 ^ q`: from `low` to `high` around `mid`. -/
structure Interval where
  low : Nat
  mid : Nat
  high : Nat
  closed : Bool
  deriving DecidableEq, Repr

/-- The interval of `m * 2 ^ q`. Below a power of two the next number is only half as far away,
unless the exponent is the least one. -/
def Interval.of (f : Format) (m : Nat) (q : Int) : Interval :=
  let least : Int := 1 - f.bias - f.fraction
  { low := if m = Nat.pow 2 f.fraction ∧ q ≠ least then 4 * m - 1 else 4 * m - 2
    mid := 4 * m
    high := 4 * m + 2
    closed := m % 2 = 0 }

/-- The factors that turn quarters of `2 ^ q` into multiples of `10 ^ e`: `x * num / den`. -/
def scale (q e : Int) : Nat × Nat :=
  (Nat.pow 2 (q - 2).toNat * Nat.pow 10 (-e).toNat, Nat.pow 2 (2 - q).toNat * Nat.pow 10 e.toNat)

def Interval.holds (i : Interval) (num den k : Nat) : Bool :=
  if i.closed then i.low * num ≤ k * den && k * den ≤ i.high * num
  else i.low * num < k * den && k * den < i.high * num

def Interval.hit (i : Interval) (num den : Nat) : Option Nat :=
  let below := i.mid * num / den
  let above := below + 1
  let nearer := if 2 * (i.mid * num - below * den) < den then below else above
  let farther := if nearer = below then above else below
  if nearer ≠ 0 && i.holds num den nearer then some nearer
  else if farther ≠ 0 && i.holds num den farther then some farther
  else none

def search (i : Interval) (q : Int) : (fuel : Nat) → (e : Int) → Numeral
  | 0, e => ⟨i.mid, e⟩
  | fuel + 1, e =>
    let (num, den) := scale q e
    match i.hit num den with
    | some digits => ⟨digits, e⟩
    | none => search i q fuel (e - 1)

/-- The shortest decimal for `m * 2 ^ q`, with `m` positive. The search starts above the number and
ends at the latest on a grid that holds the number itself. -/
def shortest (f : Format) (m : Nat) (q : Int) : Numeral :=
  let first := ((m.log2 + 1 + q) * 30103 / 100000) + 1
  let last := min q 0
  search (Interval.of f m q) q ((first - last).toNat + 1) first

end PageStore.Decimal

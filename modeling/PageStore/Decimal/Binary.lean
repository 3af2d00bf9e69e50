/-!
# PageStore.Decimal.Binary

Binary floating-point numbers as bit patterns. A pattern is a NaN, an infinity or the number
`m * 2 ^ q`; `Format.read` says which. Patterns are compared as numbers, and the narrow format is
widened into the wide one.
-/

namespace PageStore.Decimal

/-- A binary interchange format: how many bits the fraction and the exponent have. -/
structure Format where
  fraction : Nat
  exponent : Nat
  deriving DecidableEq, Repr

def single : Format := ⟨23, 8⟩

def double : Format := ⟨52, 11⟩

/-- What a bit pattern stands for. `finite negative m q` is the number `m * 2 ^ q`, negated if
`negative`; zero has `m = 0`. -/
inductive Reading where
  | nan
  | infinite (negative : Bool)
  | finite (negative : Bool) (m : Nat) (q : Int)
  deriving DecidableEq, Repr

namespace Format

/-- The largest exponent field, which marks NaN and the infinities. -/
def top (f : Format) : Nat := Nat.pow 2 f.exponent - 1

def bias (f : Format) : Nat := Nat.pow 2 (f.exponent - 1) - 1

def negative (f : Format) (bits : Nat) : Bool := bits.testBit (f.fraction + f.exponent)

def exponentField (f : Format) (bits : Nat) : Nat :=
  bits / Nat.pow 2 f.fraction % Nat.pow 2 f.exponent

def fractionField (f : Format) (bits : Nat) : Nat := bits % Nat.pow 2 f.fraction

def read (f : Format) (bits : Nat) : Reading :=
  let e := f.exponentField bits
  let m := f.fractionField bits
  if e = f.top then
    if m = 0 then .infinite (f.negative bits) else .nan
  else if e = 0 then .finite (f.negative bits) m (1 - f.bias - f.fraction)
  else .finite (f.negative bits) (Nat.pow 2 f.fraction + m) (e - f.bias - f.fraction)

def isNaN (f : Format) (bits : Nat) : Bool :=
  f.exponentField bits = f.top && f.fractionField bits ≠ 0

def isZero (f : Format) (bits : Nat) : Bool :=
  f.exponentField bits = 0 && f.fractionField bits = 0

/-- Whether two patterns are equal as numbers: a NaN equals nothing, the two zeros are equal. -/
def same (f : Format) (a b : Nat) : Bool :=
  !f.isNaN a && !f.isNaN b && (a = b || (f.isZero a && f.isZero b))

/-- The pattern of a number with the given parts. -/
def assemble (f : Format) (negative : Bool) (exponentField fractionField : Nat) : Nat :=
  (if negative then Nat.pow 2 (f.fraction + f.exponent) else 0)
    + exponentField * Nat.pow 2 f.fraction + fractionField

end Format

/-- The double with the value of a single. A NaN keeps its sign and payload and becomes quiet. -/
def widen (bits : Nat) : Nat :=
  let negative := single.negative bits
  let e := single.exponentField bits
  let m := single.fractionField bits
  let shift := double.fraction - single.fraction
  if e = single.top then
    if m = 0 then double.assemble negative double.top 0
    else
      double.assemble negative double.top (m * Nat.pow 2 shift ||| Nat.pow 2 (double.fraction - 1))
  else if e = 0 then
    if m = 0 then double.assemble negative 0 0
    else
      -- a number below the normal range of the narrow format is normal in the wide one
      let k := m.log2
      double.assemble negative (double.bias + 1 + k - single.bias - single.fraction)
        (m * Nat.pow 2 (double.fraction - k) - Nat.pow 2 double.fraction)
  else double.assemble negative (e + double.bias - single.bias) (m * Nat.pow 2 shift)

end PageStore.Decimal

import PageStore.Decimal.Text

/-!
# PageStore.Tuple.Value

The values a column can hold. Floating-point values are kept as bit patterns, so `=` compares them
bit for bit; `Value.agrees` compares them as numbers, where a NaN agrees with nothing and the two
zeros agree.
-/

namespace PageStore

inductive Value where
  | null
  | boolean (b : Bool)
  | tinyInt (n : Int8)
  | smallInt (n : Int16)
  | integer (n : Int32)
  | bigInt (n : Int64)
  | float (bits : UInt32)
  | double (bits : UInt64)
  | string (s : String)
  | timestamp (micros : Int64)
  deriving DecidableEq

namespace Value

def isNull : Value → Bool
  | .null => true
  | _ => false

/-- Equality of values, with floating-point values compared as numbers. -/
def agrees : Value → Value → Bool
  | .float a, .float b => Decimal.single.same a.toNat b.toNat
  | .double a, .double b => Decimal.double.same a.toNat b.toNat
  | v, w => v = w

/-- The value as it is shown. -/
def text : Value → String
  | .null => "NULL"
  | .boolean b => if b then "true" else "false"
  | .tinyInt n => toString n.toInt
  | .smallInt n => toString n.toInt
  | .integer n => toString n.toInt
  | .bigInt n => toString n.toInt
  | .float bits => Decimal.text Decimal.single bits.toNat
  | .double bits => Decimal.text Decimal.double bits.toNat
  | .string s => "'" ++ s ++ "'"
  | .timestamp n => "TIMESTAMP(" ++ toString n.toInt ++ ")"

theorem isNull_iff (v : Value) : v.isNull = true ↔ v = .null := by
  cases v <;> simp [isNull]

end Value
end PageStore

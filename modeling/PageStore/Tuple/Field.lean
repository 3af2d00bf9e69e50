import PageStore.Text.Blank
import PageStore.Text.Utf8
import PageStore.Tuple.ColumnType
import PageStore.Tuple.Number
import PageStore.Tuple.Value

/-!
# PageStore.Tuple.Field

One value in one column: which values a column takes, the bytes it stores for them, and the value
that bytes show. Narrow integers and floats are widened, texts are padded with spaces, and NULL is
a run of zero bytes (that it was NULL is recorded elsewhere).

A column always stores exactly its width (`length_encode`), and always shows some value. What a
value looks like after it has been stored is its normal form, `Value.normal`.
-/

namespace PageStore

def space : UInt8 := 0x20

namespace Value

/-- Whether a column of the type takes the value. -/
def fits : Value → ColumnType → Bool
  | .null, _ => true
  | .boolean _, .boolean => true
  | .tinyInt _, .tinyInt => true
  | .tinyInt _, .smallInt => true
  | .tinyInt _, .integer => true
  | .tinyInt _, .bigInt => true
  | .smallInt _, .smallInt => true
  | .smallInt _, .integer => true
  | .smallInt _, .bigInt => true
  | .integer _, .integer => true
  | .integer _, .bigInt => true
  | .bigInt _, .bigInt => true
  | .float _, .float => true
  | .float _, .double => true
  | .double _, .double => true
  | .string s, .char n => (Text.encode s.toList).length ≤ n
  | .timestamp _, .timestamp => true
  | _, _ => false

def bytes (v : Value) (t : ColumnType) : List UInt8 :=
  match v with
  | .null => List.replicate t.size 0
  | .boolean b => [if b then 1 else 0]
  | .tinyInt n => Number.ofInt t.size n.toInt
  | .smallInt n => Number.ofInt t.size n.toInt
  | .integer n => Number.ofInt t.size n.toInt
  | .bigInt n => Number.ofInt 8 n.toInt
  | .float b =>
    if t = .double then Number.ofNat 8 (Decimal.widen b.toNat) else Number.ofNat 4 b.toNat
  | .double b => Number.ofNat 8 b.toNat
  | .string s =>
    let text := Text.encode s.toList
    text ++ List.replicate (t.size - text.length) space
  | .timestamp n => Number.ofInt 8 n.toInt

/-- What a column stores for a value; nothing for one that does not fit. -/
def encode (v : Value) (t : ColumnType) : Option (List UInt8) :=
  if v.fits t then some (v.bytes t) else none

/-- The value in the form in which a column of the type gives it back. -/
def normal (v : Value) (t : ColumnType) : Value :=
  match v, t with
  | .tinyInt n, .smallInt => .smallInt (Int16.ofInt n.toInt)
  | .tinyInt n, .integer => .integer (Int32.ofInt n.toInt)
  | .tinyInt n, .bigInt => .bigInt (Int64.ofInt n.toInt)
  | .smallInt n, .integer => .integer (Int32.ofInt n.toInt)
  | .smallInt n, .bigInt => .bigInt (Int64.ofInt n.toInt)
  | .integer n, .bigInt => .bigInt (Int64.ofInt n.toInt)
  | .float b, .double => .double (Decimal.widen b.toNat).toUInt64
  | .string s, .char _ => .string (String.ofList (Text.trimEnd s.toList))
  | v, _ => v

end Value

namespace ColumnType

def decode (t : ColumnType) (bytes : List UInt8) : Value :=
  match t with
  | .boolean => .boolean (Number.toNat bytes ≠ 0)
  | .tinyInt => .tinyInt (Int8.ofNat (Number.toNat bytes))
  | .smallInt => .smallInt (Int16.ofNat (Number.toNat bytes))
  | .integer => .integer (Int32.ofNat (Number.toNat bytes))
  | .bigInt => .bigInt (Int64.ofNat (Number.toNat bytes))
  | .float => .float (Number.toNat bytes).toUInt32
  | .double => .double (Number.toNat bytes).toUInt64
  | .char _ => .string (String.ofList (Text.trimEnd (Text.decode bytes)))
  | .timestamp => .timestamp (Int64.ofNat (Number.toNat bytes))

/-- Reads a value off the front of some bytes, and the rest; nothing if they are too few. -/
def read (t : ColumnType) (bytes : List UInt8) : Option (Value × List UInt8) :=
  if bytes.length < t.size then none
  else some (t.decode (bytes.take t.size), bytes.drop t.size)

end ColumnType

namespace Value

theorem length_encode {v : Value} {t : ColumnType} {bs : List UInt8} (h : v.encode t = some bs) :
    bs.length = t.size := by
  unfold encode at h
  split at h
  · rename_i hf
    cases h
    cases v <;> cases t <;> simp_all [fits, bytes, ColumnType.size]
  · cases h

theorem fits_null (t : ColumnType) : Value.null.fits t = true := by
  cases t <;> rfl

end Value
end PageStore

/-!
# PageStore.Tuple.ColumnType

The types a column can have. Every type has a fixed width in bytes, so all tuples of a table are
equally wide.
-/

namespace PageStore

inductive ColumnType where
  | boolean
  | tinyInt
  | smallInt
  | integer
  | bigInt
  | float
  | double
  /-- Text of at most `n` bytes, filled up with spaces. -/
  | char (n : Nat)
  /-- Microseconds since the epoch. -/
  | timestamp
  deriving DecidableEq, Repr

namespace ColumnType

/-- Width in bytes. -/
def size : ColumnType → Nat
  | .boolean => 1
  | .tinyInt => 1
  | .smallInt => 2
  | .integer => 4
  | .bigInt => 8
  | .float => 4
  | .double => 8
  | .char n => n
  | .timestamp => 8

def text : ColumnType → String
  | .boolean => "BOOLEAN"
  | .tinyInt => "TINYINT"
  | .smallInt => "SMALLINT"
  | .integer => "INTEGER"
  | .bigInt => "BIGINT"
  | .float => "FLOAT"
  | .double => "DOUBLE"
  | .char n => s!"CHAR({n})"
  | .timestamp => "TIMESTAMP"

end ColumnType
end PageStore

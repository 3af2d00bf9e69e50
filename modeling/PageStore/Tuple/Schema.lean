import PageStore.Tuple.ColumnType

/-!
# PageStore.Tuple.Schema

The columns of a table and where they lie in a tuple. A tuple starts with its null bitmap, one bit
per column; the columns follow in order without gaps. `Schema.layout` runs through the columns with
the offset of the next one, `Schema.width` adds the sizes up; `layout_end` says that both meet.
-/

namespace PageStore

structure Column where
  name : String
  type : ColumnType
  nullable : Bool := false
  deriving DecidableEq, Repr

/-- A column and the offset of its bytes in a tuple. -/
structure PlacedColumn extends Column where
  offset : Nat
  deriving DecidableEq, Repr

/-- Schemas are equal when their columns are, in order. -/
structure Schema where
  columns : List Column
  deriving DecidableEq, Repr

namespace Schema

def bitmapSize (s : Schema) : Nat := (s.columns.length + 7) / 8

/-- Columns placed one after the other, the first at `offset`. -/
def placeFrom (offset : Nat) : List Column → List PlacedColumn
  | [] => []
  | c :: rest => { c with offset } :: placeFrom (offset + c.type.size) rest

def layout (s : Schema) : List PlacedColumn := placeFrom s.bitmapSize s.columns

def totalSize : List Column → Nat
  | [] => 0
  | c :: rest => c.type.size + totalSize rest

def width (s : Schema) : Nat := s.bitmapSize + totalSize s.columns

/-- The column of a name; of several, the last. -/
def indexOf? (s : Schema) (name : String) : Option Nat :=
  (s.columns.zipIdx.reverse.find? fun (c, _) => c.name = name).map fun (_, i) => i

def column? (s : Schema) (i : Nat) : Option PlacedColumn := s.layout[i]?

/-- The offset of a column is the start plus the sizes before it. -/
theorem offset_placeFrom (offset : Nat) (cs : List Column) (i : Nat) (c : PlacedColumn)
    (h : (placeFrom offset cs)[i]? = some c) :
    c.offset = offset + totalSize (cs.take i) := by
  induction cs generalizing offset i with
  | nil => simp [placeFrom] at h
  | cons d rest ih =>
    cases i with
    | zero => simp [placeFrom] at h; subst h; simp [totalSize]
    | succ i =>
      have := ih (offset + d.type.size) i (by simpa [placeFrom] using h)
      simp [this, totalSize]
      omega

/-- The last column ends where the tuple ends. -/
theorem layout_end (s : Schema) (c : PlacedColumn) (h : s.layout.getLast? = some c) :
    c.offset + c.type.size = s.width := by
  unfold layout at h
  unfold width
  generalize s.bitmapSize = start at h ⊢
  generalize s.columns = cs at h ⊢
  induction cs generalizing start with
  | nil => simp [placeFrom] at h
  | cons d rest ih =>
    cases rest with
    | nil => simp [placeFrom] at h; subst h; simp [totalSize]
    | cons e rest =>
      have := ih (start + d.type.size) (by simpa [placeFrom] using h)
      simp [totalSize] at this ⊢
      omega

end Schema
end PageStore

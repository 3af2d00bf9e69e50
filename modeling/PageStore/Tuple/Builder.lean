import PageStore.Tuple.Basic

/-!
# PageStore.Tuple.Builder

Tuples put together value by value. A builder starts with NULL everywhere and a position at the
first column; `value` fills the position and moves on, `skip` only moves on, `setNamed` fills a
column by its name and leaves the position alone.
-/

namespace PageStore

structure TupleBuilder where
  schema : Schema
  values : List Value
  position : Nat
  complete : values.length = schema.columns.length

namespace TupleBuilder

def start (schema : Schema) : TupleBuilder :=
  { schema
    values := List.replicate schema.columns.length .null
    position := 0
    complete := by simp }

/-- Fills the current position and moves on. Past the last column nothing happens. -/
def value (b : TupleBuilder) (v : Value) : TupleBuilder :=
  if b.position < b.values.length then
    { b with
      values := b.values.set b.position v
      position := b.position + 1
      complete := by simp [b.complete] }
  else b

/-- Moves on, leaving the current position as it is. -/
def skip (b : TupleBuilder) : TupleBuilder := { b with position := b.position + 1 }

/-- Fills the column of a name, if there is one. -/
def setNamed (b : TupleBuilder) (name : String) (v : Value) : TupleBuilder :=
  match b.schema.indexOf? name with
  | none => b
  | some i => { b with values := b.values.set i v, complete := by simp [b.complete] }

def build (b : TupleBuilder) : Tuple :=
  { schema := b.schema, values := b.values, complete := b.complete }

end TupleBuilder
end PageStore

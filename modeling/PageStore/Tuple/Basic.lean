import PageStore.Error
import PageStore.Tuple.Field
import PageStore.Tuple.Schema

/-!
# PageStore.Tuple.Basic

Tuples and their bytes. Encoding goes through the columns in order and stops at the first value
that its column does not take; what was written up to there stays written, so a failed write leaves
a partly overwritten place (`Tuple.writeTo`). Decoding reads the columns in order and puts NULL
where the bitmap says so.

`encodeFields` shows the bits, the bytes and the fault side by side, so statements about a write
are statements about its three parts.
-/

namespace PageStore

/-- One value per column, and where the tuple is stored, if anywhere. -/
structure Tuple where
  schema : Schema
  values : List Value
  record : Option RecordId := none
  complete : values.length = schema.columns.length
  deriving DecidableEq

/-- How far the encoding of columns went: the null bits and the bytes of the columns that were
written, and the fault that stopped it, if one did. -/
structure Written where
  nulls : List Bool
  body : List UInt8
  fault : Option Mismatch
  deriving DecidableEq

/-- Encodes columns in order. A NULL is noted in the bitmap before its column is written, a NULL
that the column does not take is not noted. -/
def encodeFields : List (Column × Value) → Written
  | [] => ⟨[], [], none⟩
  | (c, v) :: rest =>
    if v.isNull && !c.nullable then ⟨[], [], some (.notNullable c.name)⟩
    else
      match v.encode c.type with
      | none => ⟨[v.isNull], [], some (.misfit v c.name c.type)⟩
      | some bytes =>
        let w := encodeFields rest
        ⟨v.isNull :: w.nulls, bytes ++ w.body, w.fault⟩

def decodeFields (bitmap : List UInt8) :
    (i : Nat) → List Column → List UInt8 → Except Mismatch (List Value)
  | _, [], _ => .ok []
  | i, c :: rest, bytes =>
    match c.type.read bytes with
    | none => .error (.truncated c.name)
    | some (v, left) =>
      match decodeFields bitmap (i + 1) rest left with
      | .error e => .error e
      | .ok vs => .ok ((if Bits.get bitmap i then .null else v) :: vs)

theorem length_decodeFields {bitmap : List UInt8} {i : Nat} {cs : List Column} {bytes : List UInt8}
    {vs : List Value} (h : decodeFields bitmap i cs bytes = .ok vs) : vs.length = cs.length := by
  induction cs generalizing i bytes vs with
  | nil => simp [decodeFields] at h; subst h; rfl
  | cons c rest ih =>
    simp only [decodeFields] at h
    split at h
    · cases h
    · split at h
      · cases h
      · rename_i hvs; cases h; simp [ih hvs]

namespace Tuple

/-- A new tuple, stored nowhere. There is none unless there is one value per column. -/
def ofValues? (schema : Schema) (values : List Value) : Option Tuple :=
  if h : values.length = schema.columns.length then some { schema, values, complete := h } else none

def get? (t : Tuple) (i : Nat) : Option Value := t.values[i]?

def getNamed? (t : Tuple) (name : String) : Option Value :=
  (t.schema.indexOf? name).bind fun i => t.values[i]?

def set (t : Tuple) (i : Nat) (v : Value) : Tuple :=
  { t with values := t.values.set i v, complete := by simp [t.complete] }

/-- Equality of schemas and values. Where the tuples are stored plays no part. -/
def agrees (t u : Tuple) : Bool :=
  t.schema = u.schema && t.values.length = u.values.length &&
    (t.values.zip u.values).all fun (v, w) => v.agrees w

def written (t : Tuple) : Written := encodeFields (t.schema.columns.zip t.values)

/-- Writes the tuple over the front of `out`, and returns what is there afterwards. -/
def writeTo (t : Tuple) (out : List UInt8) : List UInt8 × Except Error Unit :=
  let s := t.schema
  if out.length < s.width then
    (out, .error (.schemaMismatch (.slotTooShort out.length s.width)))
  else
    let w := t.written
    let front := Bits.pack s.bitmapSize w.nulls ++ w.body
    (front ++ out.drop front.length,
      match w.fault with
      | none => .ok ()
      | some cause => .error (.schemaMismatch cause))

def encode (t : Tuple) : Except Error (List UInt8) :=
  match t.writeTo (List.replicate t.schema.width 0) with
  | (bytes, .ok ()) => .ok bytes
  | (_, .error e) => .error e

/-- The tuple that some bytes show. Bytes past the width of the schema play no part. -/
def decode (schema : Schema) (bytes : List UInt8) : Except Error Tuple :=
  if bytes.length < schema.width then
    .error (.schemaMismatch (.tupleTooShort schema.width bytes.length))
  else
    let bitmap := bytes.take schema.bitmapSize
    let body := (bytes.take schema.width).drop schema.bitmapSize
    match h : decodeFields bitmap 0 schema.columns body with
    | .error cause => .error (.schemaMismatch cause)
    | .ok values => .ok { schema, values, complete := length_decodeFields h }

def normal (t : Tuple) : List Value :=
  (t.schema.columns.zip t.values).map fun (c, v) => v.normal c.type

end Tuple
end PageStore

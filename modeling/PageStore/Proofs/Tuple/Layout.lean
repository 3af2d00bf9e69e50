import Mathlib.Data.List.Chain
import Mathlib.Data.List.GetD
import PageStore.Proofs.Tuple.Normal

/-!
# PageStore.Proofs.Tuple.Layout

Which tuples can be encoded, and where their values then lie. The schema computes the offsets of its
columns ahead of time, while an encoding puts one value behind the other. Both agree
(`body_window` and `offset_placeFrom` measure the same prefix), so each value lies in the range of
its column, encoded as if it were alone. `codec_layout` says this of all tuples, with the tuples that
columns accept as exactly those that can be encoded.
-/

namespace PageStore

namespace Bits

theorem get_append {a : List UInt8} {i : Nat} (h : i < 8 * a.length) (b : List UInt8) :
    get (a ++ b) i = get a i := by
  have hbyte : i / 8 < a.length := by omega
  unfold get
  rw [List.getD_append _ _ _ _ hbyte]

end Bits

section Fields

variable {c : Column} {v : Value} {fields : List (Column × Value)}

theorem nulls_eq (h : (encodeFields fields).fault = none) :
    (encodeFields fields).nulls = fields.map fun f => f.2.isNull := by
  induction fields with
  | nil => rfl
  | cons f rest ih =>
    rw [fault_eq_none, List.forall_mem_cons, ← fault_eq_none] at h
    rw [encodeFields_cons h.1, ih h.2]
    rfl

/-- The bytes of a field begin where those of the fields before it end. -/
theorem body_window {i : Nat} (h : (encodeFields fields).fault = none)
    (hi : fields[i]? = some (c, v)) :
    v.encode c.type =
      some (((encodeFields fields).body.drop (Schema.totalSize ((fields.take i).map (·.1)))).take
        c.type.size) := by
  induction fields generalizing i with
  | nil => simp at hi
  | cons f rest ih =>
    rw [fault_eq_none, List.forall_mem_cons, ← fault_eq_none] at h
    obtain ⟨htakes, hrest⟩ := h
    have hbytes : f.2.encode f.1.type = some (f.2.bytes f.1.type) := if_pos htakes.1
    have hlen := Value.length_encode hbytes
    rw [encodeFields_cons htakes]
    cases i with
    | zero =>
      simp only [List.getElem?_cons_zero, Option.some.injEq] at hi
      subst hi
      rw [hbytes]
      simp [Schema.totalSize, hlen]
    | succ i =>
      rw [List.getElem?_cons_succ] at hi
      rw [ih hrest hi]
      simp only [List.take_succ_cons, List.map_cons, Schema.totalSize]
      rw [← hlen, List.drop_length_add_append]

end Fields

namespace Schema

variable {s : Schema} {cs : List Column} {offset i : Nat} {c : PlacedColumn}

/-- The columns of a schema, in order: the first follows the null bitmap, each of the others begins
where the one before it ends, and the last ends where the tuple ends. -/
structure Contiguous (s : Schema) : Prop where
  bitmap : s.columns.length ≤ 8 * s.bitmapSize ∧ 8 * s.bitmapSize < s.columns.length + 8
  columns : s.layout.map (·.toColumn) = s.columns
  first : ∀ c, s.layout.head? = some c → c.offset = s.bitmapSize
  next : s.layout.IsChain fun c d => d.offset = c.offset + c.type.size
  last : ∀ c, s.layout.getLast? = some c → c.offset + c.type.size = s.width
  bare : s.layout = [] → s.width = s.bitmapSize

theorem columns_placeFrom (offset : Nat) (cs : List Column) :
    (placeFrom offset cs).map (·.toColumn) = cs := by
  induction cs generalizing offset with
  | nil => rfl
  | cons c rest ih => simp [placeFrom, ih]

theorem first_placeFrom (h : (placeFrom offset cs).head? = some c) : c.offset = offset := by
  cases cs with
  | nil => simp [placeFrom] at h
  | cons d rest =>
    simp only [placeFrom, List.head?_cons, Option.some.injEq] at h
    rw [← h]

theorem next_placeFrom (offset : Nat) (cs : List Column) :
    (placeFrom offset cs).IsChain fun c d => d.offset = c.offset + c.type.size := by
  induction cs generalizing offset with
  | nil => simp [placeFrom]
  | cons c rest ih =>
    unfold placeFrom
    rw [List.isChain_cons]
    refine ⟨?_, ih _⟩
    intro d hd
    exact first_placeFrom hd

theorem contiguous (s : Schema) : s.Contiguous where
  bitmap := by
    unfold bitmapSize
    omega
  columns := columns_placeFrom _ _
  first := by
    intro c hc
    exact first_placeFrom hc
  next := next_placeFrom _ _
  last := s.layout_end
  bare := by
    intro h
    have hcolumns : s.columns = [] := by
      rw [← columns_placeFrom s.bitmapSize s.columns]
      exact congrArg (List.map _) h
    simp [width, hcolumns, totalSize]

theorem getElem?_columns (s : Schema) (i : Nat) :
    s.columns[i]? = s.layout[i]?.map (·.toColumn) := by
  rw [← List.getElem?_map]
  unfold layout
  rw [columns_placeFrom]

theorem column_of_layout (h : s.layout[i]? = some c) : s.columns[i]? = some c.toColumn := by
  rw [getElem?_columns, h]
  rfl

theorem offset_of_layout (h : s.layout[i]? = some c) :
    c.offset = s.bitmapSize + totalSize (s.columns.take i) :=
  offset_placeFrom _ _ _ _ h

end Schema

namespace Tuple

variable {t : Tuple} {bytes : List UInt8}

/-- Every column takes its value. -/
def Accepted (t : Tuple) : Prop :=
  ∀ (i : Nat) (c : Column) (v : Value), t.schema.columns[i]? = some c → t.values[i]? = some v →
    c.Takes v

/-- The bitmap notes the values that are NULL and nothing else, and the range of a column has what
the column stores for its value alone. -/
structure LaidOut (t : Tuple) (bytes : List UInt8) : Prop where
  nulls : ∀ i < 8 * t.schema.bitmapSize, Bits.get bytes i = true ↔ t.values[i]? = some .null
  fields : ∀ (i : Nat) (c : PlacedColumn) (v : Value), t.schema.layout[i]? = some c →
    t.values[i]? = some v → v.encode c.type = some ((bytes.drop c.offset).take c.type.size)

theorem fault_written : t.written.fault = none ↔ t.Accepted := by
  unfold written
  rw [fault_eq_none]
  constructor
  · intro h i c v hc hv
    exact h (c, v) (List.mem_of_getElem? (List.getElem?_zip_eq_some.2 ⟨hc, hv⟩))
  · intro h f hf
    obtain ⟨i, hi⟩ := List.mem_iff_getElem?.1 hf
    obtain ⟨hc, hv⟩ := List.getElem?_zip_eq_some.1 hi
    exact h i _ _ hc hv

theorem writeTo_accepted (out : List UInt8) :
    (t.writeTo out).2 = .ok () ↔ t.schema.width ≤ out.length ∧ t.Accepted := by
  rw [← fault_written]
  unfold writeTo
  by_cases hshort : out.length < t.schema.width
  · rw [if_pos hshort]
    simp
    omega
  · rw [if_neg hshort]
    dsimp only
    cases hf : t.written.fault with
    | none => simp; omega
    | some cause => simp

theorem encode_accepted : (∃ bytes, t.encode = .ok bytes) ↔ t.Accepted := by
  have hwrite := t.writeTo_accepted (List.replicate t.schema.width 0)
  rw [List.length_replicate] at hwrite
  unfold encode
  split
  · next bytes hok =>
    rw [hok] at hwrite
    simpa using hwrite
  · next bytes e herror =>
    rw [herror] at hwrite
    simpa using hwrite

theorem encode_fails : (∃ e, t.encode = .error e) ↔ ¬ t.Accepted := by
  rw [← encode_accepted]
  cases t.encode with
  | ok bytes => simp
  | error e => simp

theorem laidOut_encode (h : t.encode = .ok bytes) : t.LaidOut bytes := by
  obtain ⟨hok, rfl⟩ := encode_eq_ok h
  unfold written at hok ⊢
  constructor
  · intro i hi
    rw [Bits.get_append (by simpa using hi), Bits.get_pack _ _ hi, nulls_eq hok,
      List.getD_eq_getElem?_getD, List.getElem?_map]
    cases hv : t.values[i]? with
    | none =>
      have hnone : (t.schema.columns.zip t.values)[i]? = none := by
        rw [List.getElem?_eq_none_iff] at hv ⊢
        simp; omega
      simp [hnone]
    | some v =>
      have hin : i < t.schema.columns.length := by
        rw [← t.complete]
        exact (List.getElem?_eq_some_iff.1 hv).1
      have hfield : (t.schema.columns.zip t.values)[i]? = some (t.schema.columns[i], v) :=
        List.getElem?_zip_eq_some.2 ⟨List.getElem?_eq_getElem hin, hv⟩
      rw [hfield]
      simp [Value.isNull_iff]
  · intro i c v hc hv
    have hfield : (t.schema.columns.zip t.values)[i]? = some (c.toColumn, v) :=
      List.getElem?_zip_eq_some.2 ⟨Schema.column_of_layout hc, hv⟩
    have hbefore : ((t.schema.columns.zip t.values).take i).map (·.1) = t.schema.columns.take i := by
      rw [List.map_take, columns_zip]
    rw [body_window hok hfield, hbefore, Schema.offset_of_layout hc, ← List.drop_drop,
      List.drop_left' (Bits.length_pack _ _)]

theorem drop_writeTo (t : Tuple) (out : List UInt8) :
    (t.writeTo out).1.drop t.schema.width = out.drop t.schema.width := by
  have hbody := (length_encodeFields (t.schema.columns.zip t.values)).1
  rw [columns_zip] at hbody
  unfold writeTo
  dsimp only
  by_cases hshort : out.length < t.schema.width
  · rw [if_pos hshort]
  · rw [if_neg hshort]
    have hfront : (Bits.pack t.schema.bitmapSize t.written.nulls ++ t.written.body).length ≤
        t.schema.width := by
      rw [List.length_append, Bits.length_pack]
      exact Nat.add_le_add_left hbody _
    generalize Bits.pack t.schema.bitmapSize t.written.nulls ++ t.written.body = front at hfront ⊢
    rw [List.drop_append, List.drop_eq_nil_of_le hfront, List.nil_append, List.drop_drop,
      Nat.add_sub_of_le hfront]

/-- The columns of a schema lie one behind the other. A tuple can be encoded just if its columns
accept its values, and its values then lie in the ranges of their columns. Written over something
longer, it leaves what lies past its width as it was, also if the writing fails. -/
theorem codec_layout (t : Tuple) :
    t.schema.Contiguous ∧
    ((∃ bytes, t.encode = .ok bytes) ↔ t.Accepted) ∧
    (∀ bytes, t.encode = .ok bytes → bytes.length = t.schema.width ∧ t.LaidOut bytes) ∧
    ∀ out, ((t.writeTo out).2 = .ok () ↔ t.schema.width ≤ out.length ∧ t.Accepted) ∧
      ((t.writeTo out).2 = .ok () → t.encode = .ok ((t.writeTo out).1.take t.schema.width)) ∧
      (t.writeTo out).1.length = out.length ∧
      (t.writeTo out).1.drop t.schema.width = out.drop t.schema.width := by
  refine ⟨t.schema.contiguous, encode_accepted, ?_, ?_⟩
  · intro bytes h
    exact ⟨length_encode h, laidOut_encode h⟩
  · intro out
    refine ⟨writeTo_accepted out, ?_, t.length_writeTo out, ?_⟩
    · intro h
      obtain ⟨bytes, hwrite⟩ : ∃ bytes, t.writeTo out = (bytes, .ok ()) := ⟨_, Prod.ext rfl h⟩
      obtain ⟨front, hfront, hwidth, _, rfl⟩ := writeTo_eq_ok hwrite
      rw [hwrite, List.take_left' hwidth, hfront]
    · exact t.drop_writeTo out

/-- Nine columns, so two bytes of bitmap, one of them without a byte of its own. -/
def wide : Tuple where
  schema := ⟨[⟨"mark", .char 0, false⟩, ⟨"small", .tinyInt, false⟩, ⟨"count", .smallInt, true⟩,
    ⟨"a", .boolean, true⟩, ⟨"b", .boolean, true⟩, ⟨"c", .boolean, true⟩, ⟨"d", .boolean, true⟩,
    ⟨"name", .char 3, true⟩, ⟨"last", .integer, true⟩]⟩
  values := [.string "", .tinyInt 5, .tinyInt (-1), .boolean true, .null, .boolean false,
    .boolean true, .string "x", .null]
  complete := rfl

def wideBytes : List UInt8 :=
  [0x10, 0x01] ++ [5] ++ [0xFF, 0xFF] ++ [1, 0, 0, 1] ++ [0x78, 0x20, 0x20] ++ [0, 0, 0, 0]

theorem wide_layout :
    wide.encode = .ok wideBytes ∧ wide.Accepted ∧ wideBytes.length = 16 ∧ wide.LaidOut wideBytes ∧
      wide.schema.Contiguous ∧
      wide.schema.layout.map (·.offset) = [2, 2, 3, 5, 6, 7, 8, 9, 12] ∧
      (wide.writeTo (List.replicate 16 7 ++ [1, 2])).1.drop 16 = [1, 2] ∧
      ¬ (wide.set 0 (.string "x")).Accepted ∧ ¬ (wide.set 1 .null).Accepted := by
  have hencode : wide.encode = .ok wideBytes := by decide +kernel
  have hlong : ∀ bytes, (wide.set 0 (.string "x")).encode ≠ .ok bytes := by
    intro bytes h
    have hfault := (encode_eq_ok h).1
    revert hfault
    decide +kernel
  have hnull : ∀ bytes, (wide.set 1 .null).encode ≠ .ok bytes := by
    intro bytes h
    have hfault := (encode_eq_ok h).1
    revert hfault
    decide +kernel
  obtain ⟨hcontiguous, haccepted, hlaid, hwrite⟩ := codec_layout wide
  obtain ⟨hlen, hlaid⟩ := hlaid _ hencode
  refine ⟨hencode, haccepted.1 ⟨_, hencode⟩, hlen, hlaid, hcontiguous, by decide +kernel,
    (hwrite (List.replicate 16 7 ++ [1, 2])).2.2.2, ?_, ?_⟩
  · intro h
    obtain ⟨bytes, hbytes⟩ := (codec_layout (wide.set 0 (.string "x"))).2.1.2 h
    exact hlong bytes hbytes
  · intro h
    obtain ⟨bytes, hbytes⟩ := (codec_layout (wide.set 1 .null)).2.1.2 h
    exact hnull bytes hbytes

end Tuple
end PageStore

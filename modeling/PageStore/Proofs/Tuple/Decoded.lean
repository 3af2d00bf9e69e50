import PageStore.Proofs.Page.Tuples
import PageStore.Proofs.Tuple.Layout
import PageStore.Proofs.Tuple.Padding

/-!
# PageStore.Proofs.Tuple.Decoded

Tuples read from arbitrary bytes. Bytes of the width of the schema always show a tuple, whatever
they are: each column shows the bytes of its range, or NULL where the bitmap says so
(`value_of_decode`). Such a tuple is in normal form already (`normal_of_decode`), so if it can be
encoded at all, what it is encoded to shows the same tuple. It cannot be encoded just if the bitmap
has NULL where the schema does not, or a text became too long when its bytes were made into
characters. `decoding_total_and_stable` has all of it.
-/

namespace PageStore

namespace Bits

theorem get_take {i n : Nat} (h : i < 8 * n) (bytes : List UInt8) :
    get (bytes.take n) i = get bytes i := by
  have hbyte : i / 8 < n := by omega
  unfold get
  simp [List.getD_eq_getElem?_getD, hbyte]

end Bits

namespace ColumnType

/-- A column shows values in normal form. -/
theorem normal_decode (t : ColumnType) (bytes : List UInt8) :
    (t.decode bytes).normal t = t.decode bytes := by
  cases t with
  | char n =>
    have hsolid := (Text.trims_trimEnd (Text.decode bytes)).solid
    simp only [decode, Value.normal, String.toList_ofList, Text.trimEnd_of_solid hsolid]
  | _ => rfl

theorem decode_ne_null (t : ColumnType) (bytes : List UInt8) : t.decode bytes ≠ .null := by
  cases t <;> simp [decode]

/-- A column takes what it shows, except for texts that it has no room for. -/
theorem fits_decode (t : ColumnType) (bytes : List UInt8) :
    (t.decode bytes).fits t = true ↔
      ∀ n, t = .char n →
        (String.ofList (Text.trimEnd (Text.decode bytes))).utf8ByteSize ≤ n := by
  cases t with
  | char n =>
    unfold decode
    rw [Value.fits_char]
    simp
  | _ => simp [decode, Value.fits]

end ColumnType

/-- What the columns show, one by one. -/
theorem getElem?_decodeFields {bitmap bytes : List UInt8} {cs : List Column} {k i : Nat}
    {vs : List Value} {c : Column} (h : decodeFields bitmap k cs bytes = .ok vs)
    (hc : cs[i]? = some c) :
    vs[i]? = some (if Bits.get bitmap (k + i) then .null
      else c.type.decode ((bytes.drop (Schema.totalSize (cs.take i))).take c.type.size)) := by
  induction cs generalizing k i bytes vs with
  | nil => simp at hc
  | cons d rest ih =>
    unfold decodeFields ColumnType.read at h
    by_cases hshort : bytes.length < d.type.size
    · rw [if_pos hshort] at h
      cases h
    · rw [if_neg hshort] at h
      dsimp only at h
      cases hrest : decodeFields bitmap (k + 1) rest (bytes.drop d.type.size) with
      | error e =>
        rw [hrest] at h
        cases h
      | ok ws =>
        rw [hrest] at h
        cases h
        cases i with
        | zero =>
          simp only [List.getElem?_cons_zero, Option.some.injEq] at hc
          subst hc
          simp [Schema.totalSize]
        | succ i =>
          rw [List.getElem?_cons_succ] at hc ⊢
          rw [ih hrest hc, List.drop_drop, show k + 1 + i = k + (i + 1) by omega]
          rfl

namespace Schema

variable {s : Schema} {i : Nat} {c : PlacedColumn}

theorem totalSize_take {cs : List Column} {c : Column} (h : cs[i]? = some c) :
    totalSize (cs.take i) + c.type.size ≤ totalSize cs := by
  induction cs generalizing i with
  | nil => simp at h
  | cons d rest ih =>
    cases i with
    | zero =>
      simp only [List.getElem?_cons_zero, Option.some.injEq] at h
      subst h
      simp [totalSize]
    | succ i =>
      have := ih (i := i) (by simpa using h)
      simp only [List.take_succ_cons, totalSize]
      omega

theorem range_le_width (h : s.layout[i]? = some c) : c.offset + c.type.size ≤ s.width := by
  have := totalSize_take (column_of_layout h)
  rw [offset_of_layout h]
  unfold width
  omega

/-- The bitmap has a NULL in a column that takes none. -/
def NullMisplaced (s : Schema) (bytes : List UInt8) : Prop :=
  ∃ (i : Nat) (c : Column), s.columns[i]? = some c ∧ Bits.get bytes i = true ∧ c.nullable = false

/-- A column that is not NULL shows a text longer than the column is wide. -/
def TextOverlong (s : Schema) (bytes : List UInt8) : Prop :=
  ∃ (i : Nat) (c : PlacedColumn) (n : Nat), s.layout[i]? = some c ∧ c.type = .char n ∧
    Bits.get bytes i = false ∧
    n < (String.ofList (Text.trimEnd (Text.decode ((bytes.drop c.offset).take n)))).utf8ByteSize

end Schema

namespace Tuple

variable {schema : Schema} {bytes : List UInt8} {u : Tuple} {i : Nat}

/-- Each column shows the bytes of its range, or NULL where the bitmap says so. -/
theorem value_of_decode {c : PlacedColumn} (h : Tuple.decode schema bytes = .ok u)
    (hc : schema.layout[i]? = some c) :
    u.values[i]? = some (if Bits.get bytes i then .null
      else c.type.decode ((bytes.drop c.offset).take c.type.size)) := by
  obtain ⟨hlong, -, -, hfields⟩ := decode_eq_ok.1 h
  have hcolumn := Schema.column_of_layout hc
  have hin : i < schema.columns.length := (List.getElem?_eq_some_iff.1 hcolumn).1
  have hbit : i < 8 * schema.bitmapSize := by
    have := schema.contiguous.bitmap
    omega
  have hend := Schema.range_le_width hc
  rw [getElem?_decodeFields hfields hcolumn, Nat.zero_add, Bits.get_take hbit, List.drop_drop,
    ← Schema.offset_of_layout hc, List.drop_take, List.take_take, Nat.min_eq_left (by omega)]

/-- A tuple that bytes show is in normal form. -/
theorem normal_of_decode (h : Tuple.decode schema bytes = .ok u) : u.normal = u.values := by
  obtain ⟨-, rfl, -, -⟩ := decode_eq_ok.1 h
  apply List.ext_getElem?
  intro i
  cases hc : u.schema.layout[i]? with
  | none =>
    have hout : u.schema.columns.length ≤ i := by
      rw [← List.getElem?_eq_none_iff, Schema.getElem?_columns, hc]
      rfl
    rw [List.getElem?_eq_none (by rwa [length_normal]), List.getElem?_eq_none (by rwa [u.complete])]
  | some c =>
    have hv := value_of_decode h hc
    generalize hshown : (if Bits.get bytes i then Value.null
      else c.type.decode ((bytes.drop c.offset).take c.type.size)) = v at hv
    have hfield : (u.schema.columns.zip u.values)[i]? = some (c.toColumn, v) :=
      List.getElem?_zip_eq_some.2 ⟨Schema.column_of_layout hc, hv⟩
    unfold normal
    rw [List.getElem?_map, hfield, hv, Option.map_some, Option.some.injEq, ← hshown]
    cases Bits.get bytes i with
    | true => exact Value.normal_null _
    | false => exact ColumnType.normal_decode _ _

/-- Columns accept what they show, except for misplaced NULLs and overlong texts. -/
theorem accepted_of_decode (h : Tuple.decode schema bytes = .ok u) :
    u.Accepted ↔ ¬ (schema.NullMisplaced bytes ∨ schema.TextOverlong bytes) := by
  obtain ⟨-, rfl, -, -⟩ := decode_eq_ok.1 h
  constructor
  · rintro haccepted (⟨i, c, hc, hbit, hnull⟩ | ⟨i, c, n, hc, hn, hbit, hlong⟩)
    · obtain ⟨p, hp, rfl⟩ : ∃ p, u.schema.layout[i]? = some p ∧ p.toColumn = c := by
        simpa [Schema.getElem?_columns] using hc
      have hv := value_of_decode h hp
      rw [if_pos hbit] at hv
      have := (haccepted i _ _ hc hv).2 rfl
      rw [hnull] at this
      cases this
    · have hv := value_of_decode h hc
      rw [if_neg (by simp [hbit])] at hv
      have := (ColumnType.fits_decode _ _).1 (haccepted i _ _ (Schema.column_of_layout hc) hv).1 n hn
      rw [hn] at this
      exact Nat.not_lt.2 this hlong
  · intro hgood i c v hc hv
    obtain ⟨p, hp, rfl⟩ : ∃ p, u.schema.layout[i]? = some p ∧ p.toColumn = c := by
      simpa [Schema.getElem?_columns] using hc
    rw [value_of_decode h hp, Option.some.injEq] at hv
    cases hbit : Bits.get bytes i with
    | true =>
      rw [if_pos hbit] at hv
      subst hv
      refine ⟨Value.fits_null _, ?_⟩
      intro _
      rw [← Bool.not_eq_false]
      intro hnull
      exact hgood (.inl ⟨i, _, hc, hbit, hnull⟩)
    | false =>
      rw [if_neg (by simp [hbit])] at hv
      subst hv
      refine ⟨(ColumnType.fits_decode _ _).2 ?_, fun hnull => absurd hnull (ColumnType.decode_ne_null _ _)⟩
      intro n hn
      rw [← Nat.not_lt]
      intro hlong
      refine hgood (.inr ⟨i, p, n, hp, hn, hbit, ?_⟩)
      rwa [hn] at hlong

/-- What a tuple that bytes show is encoded to shows the same tuple. -/
theorem decode_encode_of_decode {again : List UInt8} (h : Tuple.decode schema bytes = .ok u)
    (hagain : u.encode = .ok again) : Tuple.decode schema again = .ok u := by
  have hnormal := normal_of_decode h
  obtain ⟨-, rfl, hrecord, -⟩ := decode_eq_ok.1 h
  rw [decode_encode hagain]
  obtain ⟨s, values, record, complete⟩ := u
  cases hrecord
  simp only [hnormal]

end Tuple

namespace Page

variable {p : Page} {us : List Tuple} {u : Tuple} {slot : Nat}

theorem records_of_tuples (h : p.tuples = .ok us) :
    us.map (·.record) = p.usedSlots.map fun slot => some ⟨p.id, slot⟩ := by
  have hcontent := congrArg (List.map fun u? => u?.bind (·.record)) (tuples_eq_ok h)
  rw [List.map_map, List.map_map] at hcontent
  refine hcontent.trans (List.map_congr_left ?_)
  intro slot hslot
  obtain ⟨u, hu, hrecord⟩ := content_of_used (mem_usedSlots.1 hslot)
  have hat : p.content slot = some u := by
    unfold content
    rw [hu]
    rfl
  simp [hat, hrecord]

theorem decode_of_tuple (h : p.tuple slot = .ok u) :
    Tuple.decode p.schema (p.slotBytes slot) = .ok { u with record := none } := by
  unfold tuple at h
  by_cases hout : p.slots ≤ slot
  · rw [if_pos hout] at h
    cases h
  · rw [if_neg hout] at h
    by_cases hfree : (!p.image.bit slot) = true
    · rw [if_pos hfree] at h
      cases h
    · rw [if_neg hfree] at h
      cases hshown : Tuple.decode p.schema (p.slotBytes slot) with
      | error e =>
        rw [hshown] at h
        cases h
      | ok shown =>
        rw [hshown] at h
        cases h
        have hrecord := (Tuple.decode_eq_ok.1 hshown).2.2.1
        obtain ⟨schema, values, record, complete⟩ := shown
        cases hrecord
        rfl

theorem mem_tuples (h : p.tuples = .ok us) (hu : u ∈ us) :
    ∃ slot, u.record = some ⟨p.id, slot⟩ ∧
      Tuple.decode p.schema (p.slotBytes slot) = .ok { u with record := none } := by
  have hcontent : some u ∈ p.usedSlots.map p.content := by
    rw [← tuples_eq_ok h]
    exact List.mem_map_of_mem hu
  obtain ⟨slot, -, hslot⟩ := List.mem_map.1 hcontent
  refine ⟨slot, record_of_content hslot, decode_of_tuple ?_⟩
  unfold content at hslot
  cases ht : p.tuple slot with
  | error e =>
    rw [ht] at hslot
    cases hslot
  | ok u' =>
    rw [ht] at hslot
    cases hslot
    rfl

end Page

namespace Tuple

/-- Bytes of the width of a schema always show a tuple with a value for every column, and no column
is ever found cut off. The tuple cannot be encoded just if a NULL is misplaced or a text overlong,
and otherwise its encoding shows the same tuple again. A page shows one tuple for every bit in its
range, whatever its bytes are. -/
theorem decoding_total_and_stable (schema : Schema) :
    (∀ bytes, schema.width ≤ bytes.length →
      ∃ u, Tuple.decode schema bytes = .ok u ∧ u.schema = schema ∧
        u.values.length = schema.columns.length ∧
        ((∃ e, u.encode = .error e) ↔ schema.NullMisplaced bytes ∨ schema.TextOverlong bytes) ∧
        ∀ again, u.encode = .ok again → Tuple.decode schema again = .ok u) ∧
    (∀ bytes column, Tuple.decode schema bytes ≠ .error (.schemaMismatch (.truncated column))) ∧
    ∀ id image p, Page.ofImage id schema image = .ok p →
      ∃ us, p.tuples = .ok us ∧
        (us.map (·.record) = ((List.range (slotsPerPage schema.width)).filter image.bit).map
          fun slot => some ⟨id, slot⟩) ∧
        ∀ u ∈ us, ∃ slot, u.record = some ⟨id, slot⟩ ∧
          Tuple.decode schema (p.slotBytes slot) = .ok { u with record := none } := by
  refine ⟨?_, ?_, ?_⟩
  · intro bytes hlong
    obtain ⟨u, hu⟩ := decode_total hlong
    have haccepted := accepted_of_decode hu
    have hschema := (decode_eq_ok.1 hu).2.1
    refine ⟨u, hu, hschema, hschema ▸ u.complete, ?_, fun again => decode_encode_of_decode hu⟩
    rw [encode_fails, haccepted, Classical.not_not]
  · intro bytes column h
    by_cases hshort : bytes.length < schema.width
    · unfold Tuple.decode at h
      rw [if_pos hshort] at h
      cases h
    · obtain ⟨u, hu⟩ := decode_total (Nat.le_of_not_lt hshort)
      rw [hu] at h
      cases h
  · intro id image p hp
    unfold Page.ofImage at hp
    split at hp
    · cases hp
      obtain ⟨us, hus⟩ := Page.tuples_total _
      exact ⟨us, hus, Page.records_of_tuples hus, fun u => Page.mem_tuples hus⟩
    · cases hp

def torn : Schema :=
  ⟨[⟨"flag", .boolean, false⟩, ⟨"name", .char 3, false⟩, ⟨"real", .double, false⟩,
    ⟨"gone", .smallInt, true⟩]⟩

/-- Spare bits in the bitmap, an odd truth value, a byte that is no text, a tab, a NaN, and bytes
below a NULL. -/
def tornBytes : List UInt8 :=
  [0xF8] ++ [7] ++ [0xFF, 0x20, 0x09] ++ [1, 0, 0, 0, 0, 0, 0xF0, 0x7F] ++ [3, 4]

/-- What is left of them. -/
def mended : Tuple where
  schema := torn
  values := [.boolean true, .string "\uFFFD", .double 0x7FF0000000000001, .null]
  complete := rfl

def mendedBytes : List UInt8 :=
  [0x08] ++ [1] ++ [0xEF, 0xBF, 0xBD] ++ [1, 0, 0, 0, 0, 0, 0xF0, 0x7F] ++ [0, 0]

/-- Two of the three bytes of the text are characters, the third becomes one of three bytes. -/
def overlongBytes : List UInt8 := [0] ++ [0] ++ [0x61, 0xFF, 0x62] ++ List.replicate 10 0

theorem torn_decoded :
    torn.width = 15 ∧
    (Tuple.decode torn tornBytes = .ok mended ∧ mended.encode = .ok mendedBytes ∧
      Tuple.decode torn mendedBytes = .ok mended) ∧
    (∃ u, Tuple.decode torn overlongBytes = .ok u ∧ ∃ e, u.encode = .error e) ∧
    (∃ u, Tuple.decode torn (0x01 :: tornBytes.tail) = .ok u ∧ ∃ e, u.encode = .error e) ∧
    ∃ p us, Page.ofImage ⟨⟨7⟩, 3⟩ torn (Image.ofBytes [0x05]) = .ok p ∧ p.tuples = .ok us ∧
      us.map (·.record) = [some ⟨⟨⟨7⟩, 3⟩, 0⟩, some ⟨⟨⟨7⟩, 3⟩, 2⟩] := by
  obtain ⟨htotal, -, hpages⟩ := decoding_total_and_stable torn
  have hwidth : torn.width = 15 := by decide +kernel
  refine ⟨hwidth, ?_, ?_, ?_, ?_⟩
  · have hmended : Tuple.decode torn tornBytes = .ok mended := by decide +kernel
    have hencode : mended.encode = .ok mendedBytes := by decide +kernel
    obtain ⟨u, hu, -, -, -, hagain⟩ := htotal tornBytes (by decide +kernel)
    cases hmended.symm.trans hu
    exact ⟨hmended, hencode, hagain _ hencode⟩
  · obtain ⟨u, hu, -, -, hfails, -⟩ := htotal overlongBytes (by decide +kernel)
    refine ⟨u, hu, hfails.2 (.inr ⟨1, ⟨⟨"name", .char 3, false⟩, 2⟩, 3, ?_⟩)⟩
    refine ⟨by decide +kernel, rfl, by decide +kernel, ?_⟩
    decide +kernel
  · obtain ⟨u, hu, -, -, hfails, -⟩ := htotal (0x01 :: tornBytes.tail) (by decide +kernel)
    refine ⟨u, hu, hfails.2 (.inl ⟨0, ⟨"flag", .boolean, false⟩, rfl, ?_, rfl⟩)⟩
    decide +kernel
  · have hslots : (List.range (slotsPerPage torn.width)).filter (Image.ofBytes [0x05]).bit =
        [0, 2] := by decide +kernel
    have hpage : ∃ p, Page.ofImage ⟨⟨7⟩, 3⟩ torn (Image.ofBytes [0x05]) = .ok p := by
      unfold Page.ofImage
      rw [dif_pos (by decide +kernel)]
      exact ⟨_, rfl⟩
    obtain ⟨p, hp⟩ := hpage
    obtain ⟨us, hus, hrecords, -⟩ := hpages _ _ p hp
    rw [hslots] at hrecords
    exact ⟨p, us, hp, hus, hrecords⟩

end Tuple
end PageStore

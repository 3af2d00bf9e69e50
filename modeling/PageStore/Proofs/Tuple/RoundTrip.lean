import Mathlib.Algebra.Ring.Nat
import Mathlib.Data.List.Induction
import PageStore.Proofs.Page.Stored

/-!
# PageStore.Proofs.Tuple.RoundTrip

A tuple that was encoded decodes to its normal form. Field by field: a column reads off the bytes
it stored the value in its normal form (`decode_bytes`), and a run of fields reads back as long as
the bitmap has the null bits that were written (`decodeFields_encodeFields`).
-/

namespace PageStore

namespace Number

theorem toNat_ofInt (width : Nat) (i : Int) :
    toNat (ofInt width i) = (i % Nat.pow 256 width).toNat := by
  have hpos : (0 : Int) < (Nat.pow 256 width : Nat) := by
    have : 0 < 256 ^ width := Nat.pow_pos (by omega)
    exact Int.natCast_pos.2 this
  have hlt := Int.emod_lt_of_pos i hpos
  have hle := Int.emod_nonneg i (Int.ne_of_gt hpos)
  unfold ofInt
  rw [toNat_ofNat]
  exact Nat.mod_eq_of_lt (by omega)

end Number

namespace Text

theorem encode_append (a b : List Char) : encode (a ++ b) = encode a ++ encode b :=
  List.flatMap_append

theorem encode_spaces (n : Nat) :
    encode (List.replicate n ' ') = List.replicate n space := by
  induction n with
  | zero => rfl
  | succ n ih =>
    rw [List.replicate_succ, List.replicate_succ, ← ih]
    rfl

theorem trimEnd_append_blanks (s : List Char) {tail : List Char}
    (h : ∀ c ∈ tail, isBlank c = true) : trimEnd (s ++ tail) = trimEnd s := by
  induction tail using List.reverseRecOn with
  | nil => rw [List.append_nil]
  | append_singleton tail c ih =>
    rw [← List.append_assoc, trimEnd_append_blank _ (h c (by simp))]
    apply ih
    intro d hd
    exact h d (List.mem_append_left _ hd)

end Text

namespace ColumnType

variable {v : Value} {t : ColumnType}

theorem ofNat_toNat_ofInt (w : Nat) (i : Int) :
    BitVec.ofNat w (i % (2 ^ w : Nat)).toNat = BitVec.ofInt w i := by
  have hpos : (0 : Int) < (2 ^ w : Nat) := Int.natCast_pos.2 (Nat.pow_pos (by omega))
  have hlt := Int.emod_lt_of_pos i hpos
  have hle := Int.emod_nonneg i (Int.ne_of_gt hpos)
  apply BitVec.eq_of_toNat_eq
  rw [BitVec.toNat_ofNat, BitVec.toNat_ofInt]
  exact Nat.mod_eq_of_lt (by omega)

theorem decode_char (s : String) (n : Nat) :
    (ColumnType.char n).decode ((Value.string s).bytes (.char n)) =
      (Value.string s).normal (.char n) := by
  simp only [decode, Value.bytes, Value.normal, size]
  have hblank : ∀ c ∈ List.replicate (n - (Text.encode s.toList).length) ' ',
      Text.isBlank c = true := by
    intro c hc
    rw [List.eq_of_mem_replicate hc]
    rfl
  rw [← Text.encode_spaces, ← Text.encode_append, Text.decode_encode,
    Text.trimEnd_append_blanks _ hblank]

theorem int8_read (i : Int) : Int8.ofNat (Number.toNat (Number.ofInt 1 i)) = Int8.ofInt i := by
  rw [Number.toNat_ofInt]
  exact congrArg (fun b => Int8.ofUInt8 ⟨b⟩) (ofNat_toNat_ofInt 8 i)

theorem int16_read (i : Int) : Int16.ofNat (Number.toNat (Number.ofInt 2 i)) = Int16.ofInt i := by
  rw [Number.toNat_ofInt]
  exact congrArg (fun b => Int16.ofUInt16 ⟨b⟩) (ofNat_toNat_ofInt 16 i)

theorem int32_read (i : Int) : Int32.ofNat (Number.toNat (Number.ofInt 4 i)) = Int32.ofInt i := by
  rw [Number.toNat_ofInt]
  exact congrArg (fun b => Int32.ofUInt32 ⟨b⟩) (ofNat_toNat_ofInt 32 i)

theorem int64_read (i : Int) : Int64.ofNat (Number.toNat (Number.ofInt 8 i)) = Int64.ofInt i := by
  rw [Number.toNat_ofInt]
  exact congrArg (fun b => Int64.ofUInt64 ⟨b⟩) (ofNat_toNat_ofInt 64 i)

theorem bits32_read (n : Nat) : (Number.toNat (Number.ofNat 4 n)).toUInt32 = n.toUInt32 := by
  rw [Number.toNat_ofNat]
  apply UInt32.toNat_inj.1
  simp [Nat.toUInt32]

theorem bits64_read (n : Nat) : (Number.toNat (Number.ofNat 8 n)).toUInt64 = n.toUInt64 := by
  rw [Number.toNat_ofNat]
  apply UInt64.toNat_inj.1
  simp [Nat.toUInt64]

/-- A column reads off its bytes the normal form of the value that was stored. -/
theorem decode_bytes (hfits : v.fits t = true) (hnull : v ≠ .null) :
    t.decode (v.bytes t) = v.normal t := by
  cases v with
  | null => exact absurd rfl hnull
  | boolean b =>
    cases t with
    | boolean => cases b <;> rfl
    | _ => cases hfits
  | tinyInt n =>
    cases t with
    | tinyInt => simp [decode, Value.bytes, Value.normal, size, int8_read]
    | smallInt => simp [decode, Value.bytes, Value.normal, size, int16_read]
    | integer => simp [decode, Value.bytes, Value.normal, size, int32_read]
    | bigInt => simp [decode, Value.bytes, Value.normal, size, int64_read]
    | _ => cases hfits
  | smallInt n =>
    cases t with
    | smallInt => simp [decode, Value.bytes, Value.normal, size, int16_read]
    | integer => simp [decode, Value.bytes, Value.normal, size, int32_read]
    | bigInt => simp [decode, Value.bytes, Value.normal, size, int64_read]
    | _ => cases hfits
  | integer n =>
    cases t with
    | integer => simp [decode, Value.bytes, Value.normal, size, int32_read]
    | bigInt => simp [decode, Value.bytes, Value.normal, size, int64_read]
    | _ => cases hfits
  | bigInt n =>
    cases t with
    | bigInt => simp [decode, Value.bytes, Value.normal, int64_read]
    | _ => cases hfits
  | float b =>
    cases t with
    | float => simp [decode, Value.bytes, Value.normal, bits32_read]
    | double => simp [decode, Value.bytes, Value.normal, bits64_read]
    | _ => cases hfits
  | double b =>
    cases t with
    | double => simp [decode, Value.bytes, Value.normal, bits64_read]
    | _ => cases hfits
  | string s =>
    cases t with
    | char n => exact decode_char s n
    | _ => cases hfits
  | timestamp n =>
    cases t with
    | timestamp => simp [decode, Value.bytes, Value.normal, int64_read]
    | _ => cases hfits

theorem read_append {bytes rest : List UInt8} (h : bytes.length = t.size) :
    t.read (bytes ++ rest) = some (t.decode bytes, rest) := by
  unfold read
  rw [List.length_append, if_neg (by omega), ← h, List.take_left, List.drop_left]

end ColumnType

/-- A column takes what fits its type, and NULL only if it may be NULL. -/
def Column.Takes (c : Column) (v : Value) : Prop :=
  v.fits c.type = true ∧ (v = .null → c.nullable = true)

section Fields

variable {c : Column} {v : Value} {fields : List (Column × Value)} {bitmap : List UInt8}

theorem encodeFields_cons (h : c.Takes v) :
    encodeFields ((c, v) :: fields) =
      ⟨v.isNull :: (encodeFields fields).nulls, v.bytes c.type ++ (encodeFields fields).body,
        (encodeFields fields).fault⟩ := by
  have hbytes : v.encode c.type = some (v.bytes c.type) := if_pos h.1
  have hnull : ¬ (v.isNull && !c.nullable) = true := by
    intro hbad
    rw [Bool.and_eq_true, Value.isNull_iff] at hbad
    simp [h.2 hbad.1] at hbad
  conv_lhs => unfold encodeFields
  rw [if_neg hnull, hbytes]

theorem fault_of_not_takes (h : ¬ c.Takes v) : (encodeFields ((c, v) :: fields)).fault ≠ none := by
  unfold encodeFields
  by_cases hnull : (v.isNull && !c.nullable) = true
  · rw [if_pos hnull]
    simp
  · rw [if_neg hnull]
    have hfits : ¬ v.fits c.type = true := by
      intro hfits
      refine h ⟨hfits, ?_⟩
      rintro rfl
      simpa [Value.isNull] using hnull
    have hbytes : v.encode c.type = none := if_neg hfits
    rw [hbytes]
    simp

/-- Encoding goes through just if every column takes its value. -/
theorem fault_eq_none : (encodeFields fields).fault = none ↔ ∀ f ∈ fields, f.1.Takes f.2 := by
  induction fields with
  | nil => simp [encodeFields]
  | cons f rest ih =>
    obtain ⟨c, v⟩ := f
    rw [List.forall_mem_cons, ← ih]
    by_cases htakes : c.Takes v
    · simp [encodeFields_cons htakes, htakes]
    · simp [fault_of_not_takes htakes, htakes]

/-- Fields read back in their normal forms if the bitmap has their null bits. -/
theorem decodeFields_encodeFields (fields : List (Column × Value)) (i : Nat)
    (hok : (encodeFields fields).fault = none)
    (hbits : ∀ k < fields.length, Bits.get bitmap (i + k) = (encodeFields fields).nulls.getD k false) :
    decodeFields bitmap i (fields.map (·.1)) (encodeFields fields).body =
      .ok (fields.map fun (c, v) => v.normal c.type) := by
  induction fields generalizing i with
  | nil => rfl
  | cons f rest ih =>
    obtain ⟨c, v⟩ := f
    rw [fault_eq_none, List.forall_mem_cons, ← fault_eq_none] at hok
    obtain ⟨htakes, hok⟩ := hok
    have hbytes : v.encode c.type = some (v.bytes c.type) := if_pos htakes.1
    rw [encodeFields_cons htakes] at hbits ⊢
    dsimp only at hbits ⊢
    have hrest := ih (i + 1) hok fun k hk => by
      have := hbits (k + 1) (by simpa using hk)
      rwa [List.getD_cons_succ, show i + (k + 1) = i + 1 + k by omega] at this
    have hbit := hbits 0 (by simp)
    rw [Nat.add_zero, List.getD_cons_zero] at hbit
    simp only [List.map_cons, decodeFields]
    rw [ColumnType.read_append (Value.length_encode hbytes)]
    dsimp only
    rw [hrest, hbit]
    by_cases hnull : v = .null
    · subst hnull
      rfl
    · have hset : v.isNull = false := by
        rw [← Bool.not_eq_true, Value.isNull_iff]
        exact hnull
      rw [hset, ColumnType.decode_bytes htakes.1 hnull]
      rfl

end Fields

namespace Tuple

variable {t : Tuple} {bytes : List UInt8}

theorem encode_eq_ok (h : t.encode = .ok bytes) :
    t.written.fault = none ∧ bytes = Bits.pack t.schema.bitmapSize t.written.nulls ++ t.written.body := by
  have hbody := (length_encodeFields (t.schema.columns.zip t.values)).2
  rw [columns_zip] at hbody
  unfold encode writeTo at h
  dsimp only at h
  rw [if_neg (by simp)] at h
  cases hf : t.written.fault with
  | some cause => simp [hf] at h
  | none =>
    have hfront : (Bits.pack t.schema.bitmapSize t.written.nulls ++ t.written.body).length =
        t.schema.width := by
      rw [List.length_append, Bits.length_pack]
      unfold written at hf ⊢
      rw [hbody hf]
      rfl
    simp only [hf] at h
    rw [List.drop_eq_nil_of_le (by simp [hfront]), List.append_nil] at h
    exact ⟨rfl, (Except.ok.inj h).symm⟩

theorem length_normal (t : Tuple) : t.normal.length = t.schema.columns.length := by
  simp [normal, t.complete]

/-- An encoding is as long as the tuples of its schema are wide. -/
theorem length_encode (h : t.encode = .ok bytes) : bytes.length = t.schema.width := by
  obtain ⟨hok, rfl⟩ := encode_eq_ok h
  have hbody := (length_encodeFields (t.schema.columns.zip t.values)).2 hok
  rw [columns_zip] at hbody
  rw [List.length_append, Bits.length_pack]
  exact congrArg (t.schema.bitmapSize + ·) hbody

/-- Bytes decode to a tuple if their columns decode to its values. -/
theorem decode_eq_ok {schema : Schema} {u : Tuple} :
    Tuple.decode schema bytes = .ok u ↔
      schema.width ≤ bytes.length ∧ u.schema = schema ∧ u.record = none ∧
        decodeFields (bytes.take schema.bitmapSize) 0 schema.columns
          ((bytes.take schema.width).drop schema.bitmapSize) = .ok u.values := by
  unfold Tuple.decode
  by_cases hshort : bytes.length < schema.width
  · rw [if_pos hshort]
    constructor
    · intro h
      cases h
    · intro h
      omega
  · rw [if_neg hshort]
    dsimp only
    split
    · next cause hd =>
      rw [hd]
      constructor
      · intro h
        cases h
      · rintro ⟨-, -, -, h⟩
        cases h
    · next values hd =>
      constructor
      · intro h
        cases h
        exact ⟨by omega, rfl, rfl, hd⟩
      · obtain ⟨schema', values', record, complete⟩ := u
        rintro ⟨-, rfl, rfl, h⟩
        cases hd.symm.trans h
        rfl

/-- What a tuple was encoded to decodes to its values in their normal forms. -/
theorem decode_encode (h : t.encode = .ok bytes) :
    Tuple.decode t.schema bytes =
      .ok { schema := t.schema, values := t.normal, complete := t.length_normal } := by
  have hlen := length_encode h
  obtain ⟨hok, rfl⟩ := encode_eq_ok h
  have hfields : decodeFields (Bits.pack t.schema.bitmapSize t.written.nulls) 0 t.schema.columns
      t.written.body = .ok t.normal := by
    have hbits : ∀ k < (t.schema.columns.zip t.values).length,
        Bits.get (Bits.pack t.schema.bitmapSize t.written.nulls) (0 + k) =
          t.written.nulls.getD k false := by
      intro k hk
      rw [List.length_zip, t.complete, Nat.min_self] at hk
      rw [Nat.zero_add, Bits.get_pack]
      unfold Schema.bitmapSize
      omega
    have := decodeFields_encodeFields (t.schema.columns.zip t.values) 0 hok hbits
    rwa [columns_zip] at this
  refine decode_eq_ok.2 ⟨Nat.le_of_eq hlen.symm, rfl, rfl, ?_⟩
  rw [List.take_left' (Bits.length_pack _ _), List.take_of_length_le (Nat.le_of_eq hlen),
    List.drop_left' (Bits.length_pack _ _)]
  exact hfields

/-- The tuple as it is read back from a record. -/
def readBack (t : Tuple) (r : RecordId) : Tuple where
  schema := t.schema
  values := t.normal
  record := some r
  complete := t.length_normal

end Tuple

namespace Page

variable {p q : Page} {t : Tuple} {slot : Nat} {bytes : List UInt8}

theorem isUsed_eq (p : Page) (slot : Nat) : p.isUsed slot = (p.stored slot).isSome := by
  rw [stored_eq]
  unfold isUsed
  split
  · next h => simp [h]
  · next h =>
    rw [Option.isSome_none, Bool.and_eq_false_iff]
    by_cases hin : slot < p.slots
    · exact .inr (by simpa [hin] using h)
    · exact .inl (by simpa using hin)

theorem tuple_eq_ok (hstored : p.stored slot = some bytes) (hbytes : t.encode = .ok bytes)
    (hschema : p.schema = t.schema) : p.tuple slot = .ok (t.readBack ⟨p.id, slot⟩) := by
  rw [stored_eq] at hstored
  by_cases hin : slot < p.slots ∧ p.image.bit slot = true
  · rw [if_pos hin] at hstored
    unfold tuple
    rw [if_neg (by omega), if_neg (by simp [hin.2]), Option.some.inj hstored, hschema,
      Tuple.decode_encode hbytes, recordAt_eq hin.1]
    rfl
  · rw [if_neg hin] at hstored
    cases hstored

/-- Pages of one place that store the same are the same to look at. -/
theorem tuple_congr (hstored : p.stored = q.stored) (hid : p.id = q.id)
    (hschema : p.schema = q.schema) (slot : Nat) : p.tuple slot = q.tuple slot := by
  have hslots : p.slots = q.slots := by
    unfold slots
    rw [hschema]
  have hat := congrFun hstored slot
  rw [stored_eq, stored_eq, hslots] at hat
  unfold tuple
  rw [hslots]
  by_cases hin : q.slots ≤ slot
  · rw [if_pos hin, if_pos hin]
  · have hlt : slot < q.slots := by omega
    rw [if_neg hin, if_neg hin]
    cases hp : p.image.bit slot <;> cases hq : q.image.bit slot
    · rfl
    · simp [hlt, hp, hq] at hat
    · simp [hlt, hp, hq] at hat
    · simp only [hlt, hp, hq, and_self, if_true, Option.some.injEq] at hat
      have hrecord : p.recordAt slot = q.recordAt slot := by
        unfold recordAt
        rw [hid]
      rw [hat, hschema, hrecord]

theorem tuples_congr (hstored : p.stored = q.stored) (hid : p.id = q.id)
    (hschema : p.schema = q.schema) : p.tuples = q.tuples := by
  have hslots : p.slots = q.slots := by
    unfold slots
    rw [hschema]
  have hused : p.usedSlots = q.usedSlots := by
    unfold usedSlots
    rw [hslots]
    refine List.filter_congr fun slot hslot => ?_
    have hp := isUsed_eq p slot
    rw [hstored, ← isUsed_eq] at hp
    simpa [isUsed, hslots, List.mem_range.1 hslot] using hp
  unfold tuples
  rw [hused, funext (tuple_congr hstored hid hschema)]

end Page
end PageStore

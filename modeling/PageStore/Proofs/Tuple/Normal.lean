import Mathlib.Data.List.Induction
import Mathlib.Data.List.TakeWhile
import PageStore.Proofs.Tuple.RoundTrip

/-!
# PageStore.Proofs.Tuple.Normal

What a tuple is when it is read back. `GivenBack` says it value by value without looking at the
bytes or at `Value.normal`; it leaves a column no choice (`givenBack_iff`). `codec_round_trip` says
that an encoding has the width of the schema and decodes to such a tuple, alone or at the front of
something longer.
-/

namespace PageStore

namespace Text

variable {s kept : List Char}

/-- `kept` is a text without the white space at its end, and with everything else. -/
structure Trims (s kept : List Char) : Prop where
  rest : ∃ tail, s = kept ++ tail ∧ ∀ c ∈ tail, isBlank c = true
  solid : ∀ c, kept.getLast? = some c → isBlank c = false

theorem trims_trimEnd (s : List Char) : Trims s (trimEnd s) := by
  constructor
  · refine ⟨(s.reverse.takeWhile isBlank).reverse, ?_, ?_⟩
    · unfold trimEnd
      rw [← List.reverse_append, List.takeWhile_append_dropWhile, List.reverse_reverse]
    · intro c hc
      exact List.mem_takeWhile_imp (List.mem_reverse.1 hc)
  · intro c hc
    unfold trimEnd at hc
    rw [List.getLast?_reverse] at hc
    have hfront := List.head?_dropWhile_not isBlank s.reverse
    rw [hc] at hfront
    simpa using hfront

theorem trimEnd_of_solid (h : ∀ c, s.getLast? = some c → isBlank c = false) : trimEnd s = s := by
  rcases List.eq_nil_or_concat s with rfl | ⟨front, c, rfl⟩
  · rfl
  · rw [List.concat_eq_append] at h ⊢
    exact trimEnd_append_solid front (h c List.getLast?_concat)

theorem trims_iff : Trims s kept ↔ kept = trimEnd s := by
  constructor
  · rintro ⟨⟨tail, rfl, hblank⟩, hsolid⟩
    rw [trimEnd_append_blanks kept hblank, trimEnd_of_solid hsolid]
  · rintro rfl
    exact trims_trimEnd s

end Text

namespace Value

variable {v w : Value} {t : ColumnType} {n : Int}

/-- The number that an integer is. -/
def number? : Value → Option Int
  | .tinyInt n => some n.toInt
  | .smallInt n => some n.toInt
  | .integer n => some n.toInt
  | .bigInt n => some n.toInt
  | _ => none

/-- Whether a value has the very type of a column. -/
def isOf : Value → ColumnType → Bool
  | .boolean _, .boolean => true
  | .tinyInt _, .tinyInt => true
  | .smallInt _, .smallInt => true
  | .integer _, .integer => true
  | .bigInt _, .bigInt => true
  | .float _, .float => true
  | .double _, .double => true
  | .string _, .char _ => true
  | .timestamp _, .timestamp => true
  | _, _ => false

/-- What a column gives back for a value that it took. -/
inductive GivenBack : ColumnType → Value → Value → Prop where
  | null (t : ColumnType) : GivenBack t .null .null
  | number {t : ColumnType} {v w : Value} {n : Int} (hv : v.number? = some n)
      (hw : w.number? = some n) (htype : w.isOf t = true) : GivenBack t v w
  | widened (bits : UInt32) :
      GivenBack .double (.float bits) (.double (Decimal.widen bits.toNat).toUInt64)
  | text {s kept : String} (width : Nat) (h : Text.Trims s.toList kept.toList) :
      GivenBack (.char width) (.string s) (.string kept)
  | same {t : ColumnType} {v : Value} (htype : v.isOf t = true) (h : ∀ s, v ≠ .string s) :
      GivenBack t v v

theorem normal_null (t : ColumnType) : Value.null.normal t = .null := by
  cases t <;> rfl

/-- A wider column keeps the number. -/
theorem number_normal (hfits : v.fits t = true) (h : v.number? = some n) :
    (v.normal t).number? = some n := by
  rw [← h]
  cases v with
  | tinyInt m =>
    have hlo := m.le_toInt
    have hhi := m.toInt_lt
    cases t with
    | tinyInt => rfl
    | smallInt => exact congrArg some (Int16.toInt_ofInt_of_le (by omega) (by omega))
    | integer => exact congrArg some (Int32.toInt_ofInt_of_le (by omega) (by omega))
    | bigInt => exact congrArg some (Int64.toInt_ofInt_of_le (by omega) (by omega))
    | _ => cases hfits
  | smallInt m =>
    have hlo := m.le_toInt
    have hhi := m.toInt_lt
    cases t with
    | smallInt => rfl
    | integer => exact congrArg some (Int32.toInt_ofInt_of_le (by omega) (by omega))
    | bigInt => exact congrArg some (Int64.toInt_ofInt_of_le (by omega) (by omega))
    | _ => cases hfits
  | integer m =>
    have hlo := m.le_toInt
    have hhi := m.toInt_lt
    cases t with
    | integer => rfl
    | bigInt => exact congrArg some (Int64.toInt_ofInt_of_le (by omega) (by omega))
    | _ => cases hfits
  | bigInt m =>
    cases t with
    | bigInt => rfl
    | _ => cases hfits
  | _ => cases h

theorem isOf_normal (hfits : v.fits t = true) (hnull : v ≠ .null) :
    (v.normal t).isOf t = true := by
  cases v with
  | null => exact absurd rfl hnull
  | _ => cases t <;> first | rfl | cases hfits

/-- A column has one value for a number. -/
theorem eq_of_number (hv : v.isOf t = true) (hw : w.isOf t = true) (hvn : v.number? = some n)
    (hwn : w.number? = some n) : v = w := by
  have hsame := hvn.trans hwn.symm
  cases t with
  | tinyInt =>
    cases v <;> cases hv
    cases w <;> cases hw
    exact congrArg _ (Int8.toInt_inj.1 (Option.some.inj hsame))
  | smallInt =>
    cases v <;> cases hv
    cases w <;> cases hw
    exact congrArg _ (Int16.toInt_inj.1 (Option.some.inj hsame))
  | integer =>
    cases v <;> cases hv
    cases w <;> cases hw
    exact congrArg _ (Int32.toInt_inj.1 (Option.some.inj hsame))
  | bigInt =>
    cases v <;> cases hv
    cases w <;> cases hw
    exact congrArg _ (Int64.toInt_inj.1 (Option.some.inj hsame))
  | _ => cases v <;> simp_all [isOf, number?]

theorem givenBack_normal (h : v.fits t = true) : GivenBack t v (v.normal t) := by
  cases v with
  | null =>
    rw [normal_null]
    exact .null t
  | tinyInt m => exact .number rfl (number_normal h rfl) (isOf_normal h (by simp))
  | smallInt m => exact .number rfl (number_normal h rfl) (isOf_normal h (by simp))
  | integer m => exact .number rfl (number_normal h rfl) (isOf_normal h (by simp))
  | bigInt m => exact .number rfl (number_normal h rfl) (isOf_normal h (by simp))
  | float b =>
    cases t with
    | float => exact .same rfl (by simp)
    | double => exact .widened b
    | _ => cases h
  | string s =>
    cases t with
    | char width =>
      refine .text width ?_
      rw [String.toList_ofList]
      exact Text.trims_trimEnd s.toList
    | _ => cases h
  | boolean b =>
    cases t with
    | boolean => exact .same rfl (by simp)
    | _ => cases h
  | double b =>
    cases t with
    | double => exact .same rfl (by simp)
    | _ => cases h
  | timestamp m =>
    cases t with
    | timestamp => exact .same rfl (by simp)
    | _ => cases h

/-- A column has no choice in what it gives back. -/
theorem givenBack_iff (hfits : v.fits t = true) : GivenBack t v w ↔ w = v.normal t := by
  constructor
  · intro h
    cases h with
    | null => exact (normal_null t).symm
    | number hv hw htype =>
      refine eq_of_number htype (isOf_normal hfits ?_) hw (number_normal hfits hv)
      rintro rfl
      cases hv
    | widened => rfl
    | text width h =>
      rw [Text.trims_iff] at h
      simp only [normal]
      rw [← h, String.ofList_toList]
    | same htype h =>
      cases v with
      | string s => exact absurd rfl (h s)
      | _ => cases t <;> first | rfl | cases htype
  · rintro rfl
    exact givenBack_normal hfits

end Value

namespace Tuple

variable {t : Tuple} {schema : Schema} {bytes out : List UInt8}

/-- Some bytes decode to a tuple of the same schema that has what the columns give back. -/
def ReadsAs (t : Tuple) (bytes : List UInt8) : Prop :=
  ∃ u, Tuple.decode t.schema bytes = .ok u ∧ u.schema = t.schema ∧
    u.values.length = t.values.length ∧
    ∀ (i : Nat) (c : Column) (v : Value), t.schema.columns[i]? = some c → t.values[i]? = some v →
      ∃ w, u.values[i]? = some w ∧ Value.GivenBack c.type v w

/-- Bytes past the width play no part. -/
theorem decode_append {u : Tuple} (rest : List UInt8) (hlen : bytes.length = schema.width)
    (h : Tuple.decode schema bytes = .ok u) : Tuple.decode schema (bytes ++ rest) = .ok u := by
  have hbitmap : schema.bitmapSize ≤ bytes.length := by
    rw [hlen]
    exact Nat.le_add_right _ _
  rw [decode_eq_ok] at h ⊢
  rw [List.take_append_of_le_length hbitmap,
    List.take_append_of_le_length (Nat.le_of_eq hlen.symm), List.length_append]
  exact ⟨Nat.le_add_right_of_le h.1, h.2⟩

theorem readsAs_encode (h : t.encode = .ok bytes) : t.ReadsAs bytes := by
  refine ⟨_, decode_encode h, rfl, t.length_normal.trans t.complete.symm, ?_⟩
  intro i c v hc hv
  have hzip : (t.schema.columns.zip t.values)[i]? = some (c, v) :=
    List.getElem?_zip_eq_some.2 ⟨hc, hv⟩
  refine ⟨v.normal c.type, ?_, Value.givenBack_normal ?_⟩
  · unfold normal
    rw [List.getElem?_map, hzip]
    rfl
  · exact (fault_eq_none.1 (encode_eq_ok h).1 _ (List.mem_of_getElem? hzip)).1

/-- An encoding has the width of the schema and reads as the tuple, and so does the front of what
the tuple was written over; the rest of it is as it was. -/
theorem codec_round_trip (t : Tuple) :
    (∀ bytes, t.encode = .ok bytes → bytes.length = t.schema.width ∧ t.ReadsAs bytes) ∧
    ∀ out bytes, t.writeTo out = (bytes, .ok ()) →
      bytes.length = out.length ∧ bytes.drop t.schema.width = out.drop t.schema.width ∧
        t.ReadsAs bytes := by
  constructor
  · intro bytes h
    exact ⟨length_encode h, readsAs_encode h⟩
  · intro out bytes h
    have hlen := t.length_writeTo out
    rw [h] at hlen
    obtain ⟨front, hfront, hwidth, _, rfl⟩ := writeTo_eq_ok h
    refine ⟨hlen, List.drop_left' hwidth, ?_⟩
    obtain ⟨u, hu, hvalues⟩ := readsAs_encode hfront
    exact ⟨u, decode_append _ hwidth hu, hvalues⟩

/-- An integer and a float in wider columns, a text with a blank at its end, and a NULL. -/
def mixed : Tuple where
  schema := ⟨[⟨"id", .bigInt, false⟩, ⟨"ratio", .double, false⟩, ⟨"name", .char 4, false⟩,
    ⟨"count", .integer, true⟩]⟩
  values := [.tinyInt (-2), .float 0x3FC00000, .string "ab ", .null]
  complete := rfl

def mixedBytes : List UInt8 :=
  [0x08] ++ [0xFE, 0xFF, 0xFF, 0xFF, 0xFF, 0xFF, 0xFF, 0xFF] ++ [0, 0, 0, 0, 0, 0, 0xF8, 0x3F] ++
    [0x61, 0x62, 0x20, 0x20] ++ [0, 0, 0, 0]

theorem mixed_read_back :
    mixed.encode = .ok mixedBytes ∧ mixedBytes.length = 25 ∧ mixed.ReadsAs mixedBytes ∧
      mixed.ReadsAs (mixedBytes ++ [1, 2, 3]) ∧
      mixed.normal = [.bigInt (-2), .double 0x3FF8000000000000, .string "ab", .null] := by
  have hencode : mixed.encode = .ok mixedBytes := by decide +kernel
  have hwrite : mixed.writeTo (List.replicate 25 7 ++ [1, 2, 3]) =
      (mixedBytes ++ [1, 2, 3], .ok ()) := by decide +kernel
  obtain ⟨hlen, hreads⟩ := (codec_round_trip mixed).1 _ hencode
  obtain ⟨-, -, hlonger⟩ := (codec_round_trip mixed).2 _ _ hwrite
  exact ⟨hencode, hlen, hreads, hlonger, by decide +kernel⟩

end Tuple
end PageStore

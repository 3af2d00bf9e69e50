import Mathlib.Logic.Function.Basic
import PageStore.Page.Basic

/-!
# PageStore.Proofs.Page.Stored

What a page stores: the bytes of every slot in use, and nothing for a free slot. Bytes of free
slots, the mark, and spare bits play no part in it.

* `insert_cases`: a tuple that goes in fills one free slot with its encoding; an insertion that
  fails leaves what is stored as it was.
* `delete_cases`: a deletion empties the slot that the record names.
* `holds_stored`: the tuple in a slot is read off what the slot stores.
-/

namespace PageStore

/-- What each slot stores: its bytes, or nothing if it is free. -/
abbrev Content := Nat → Option (List UInt8)

namespace Image

variable {im : Image} {schema : Schema} {slot : Nat} {bytes : List UInt8}

/-- What an image stores when it is divided into slots for a schema. -/
def stored (im : Image) (schema : Schema) : Content := fun slot =>
  if slot < slotsPerPage schema.width ∧ im.bit slot = true then
    some (im.window (slotOffset schema.width slot) schema.width)
  else none

theorem window_congr {a b : Image} {offset n : Nat}
    (h : ∀ k < n, a.get (offset + k) = b.get (offset + k)) :
    a.window offset n = b.window offset n :=
  List.map_congr_left fun k hk => h k (List.mem_range.1 hk)

theorem stored_blank (schema : Schema) : blank.stored schema = fun _ => none := by
  funext slot
  unfold stored bit
  rw [get_blank, if_neg]
  simp [Bits.bit]

theorem header_le_offset (width slot : Nat) :
    headerSize (slotsPerPage width) ≤ slotOffset width slot := Nat.le_add_right _ _

theorem bit_patch (hs : slot < slotsPerPage schema.width) (hb : bytes.length = schema.width)
    {i : Nat} (hi : i < slotsPerPage schema.width) :
    (im.patch (slotOffset schema.width slot) bytes).bit i = im.bit i := by
  have hfits := slotOffset_add_le hs
  have hcover := header_covers hi
  have hle := header_le_offset schema.width slot
  unfold bit
  rw [patch_get im _ _ (by omega), if_neg (by omega)]

theorem window_patch_self (hs : slot < slotsPerPage schema.width)
    (hb : bytes.length = schema.width) :
    (im.patch (slotOffset schema.width slot) bytes).window (slotOffset schema.width slot)
      schema.width = bytes := by
  have hfits := slotOffset_add_le hs
  unfold window
  refine List.ext_getElem (by simp [hb]) fun k hk hk' => ?_
  rw [List.getElem_map, List.getElem_range, patch_get im _ _ (by omega), if_pos (by omega)]
  simp [hk']

theorem window_patch_other (hs : slot < slotsPerPage schema.width)
    (hb : bytes.length = schema.width) {i : Nat} (hne : i ≠ slot) :
    (im.patch (slotOffset schema.width slot) bytes).window (slotOffset schema.width i)
      schema.width = im.window (slotOffset schema.width i) schema.width := by
  have hfits := slotOffset_add_le hs
  refine window_congr fun k hk => ?_
  rw [patch_get im _ _ (by omega), if_neg]
  unfold slotOffset
  rw [hb]
  rintro ⟨h₁, h₂⟩
  rcases Nat.lt_or_gt_of_ne hne with h | h
  · have := Nat.mul_le_mul_right schema.width (Nat.succ_le_of_lt h)
    rw [Nat.succ_mul] at this
    omega
  · have := Nat.mul_le_mul_right schema.width (Nat.succ_le_of_lt h)
    rw [Nat.succ_mul] at this
    omega

theorem bit_lt_page (hs : slot < slotsPerPage schema.width) : slot / 8 < pageSize := by
  have := header_covers hs
  have := header_slots_le schema.width
  omega

theorem window_putBit (hs : slot < slotsPerPage schema.width) (on : Bool) (i : Nat) :
    (im.putBit slot on).window (slotOffset schema.width i) schema.width =
      im.window (slotOffset schema.width i) schema.width := by
  have hcover := header_covers hs
  have hle := header_le_offset schema.width i
  exact window_congr fun k _ => get_putBit im (bit_lt_page hs) on (by omega)

/-- The bytes of a free slot play no part. -/
theorem stored_patch (hs : slot < slotsPerPage schema.width) (hb : bytes.length = schema.width)
    (hfree : im.bit slot = false) :
    (im.patch (slotOffset schema.width slot) bytes).stored schema = im.stored schema := by
  funext i
  unfold stored
  by_cases hi : i < slotsPerPage schema.width
  · rw [bit_patch hs hb hi]
    by_cases hne : i = slot
    · subst hne
      simp [hfree]
    · rw [window_patch_other hs hb hne]
  · simp [hi]

/-- Setting the bit of a slot shows its bytes, clearing it hides them. -/
theorem stored_putBit (hs : slot < slotsPerPage schema.width) (on : Bool) :
    (im.putBit slot on).stored schema =
      Function.update (im.stored schema) slot
        (if on then some (im.window (slotOffset schema.width slot) schema.width) else none) := by
  funext i
  unfold stored
  rw [window_putBit hs, bit_putBit im (bit_lt_page hs)]
  by_cases hi : i = slot
  · subst hi
    rw [Function.update_self]
    cases on <;> simp [hs]
  · rw [Function.update_of_ne hi, if_neg hi]

theorem stored_fill (hs : slot < slotsPerPage schema.width) (hb : bytes.length = schema.width)
    (hfree : im.bit slot = false) :
    ((im.patch (slotOffset schema.width slot) bytes).putBit slot true).stored schema =
      Function.update (im.stored schema) slot (some bytes) := by
  rw [stored_putBit hs, stored_patch hs hb hfree, if_pos rfl, window_patch_self hs hb]

end Image

/-! ## Encoding into a slot -/

theorem length_encodeFields (fields : List (Column × Value)) :
    (encodeFields fields).body.length ≤ Schema.totalSize (fields.map (·.1)) ∧
      ((encodeFields fields).fault = none →
        (encodeFields fields).body.length = Schema.totalSize (fields.map (·.1))) := by
  induction fields with
  | nil => exact ⟨Nat.le_refl _, fun _ => rfl⟩
  | cons f rest ih =>
    obtain ⟨c, v⟩ := f
    unfold encodeFields
    by_cases hn : (v.isNull && !c.nullable) = true
    · rw [if_pos hn]
      exact ⟨Nat.zero_le _, fun h => by cases h⟩
    · rw [if_neg hn]
      cases he : v.encode c.type with
      | none => exact ⟨Nat.zero_le _, fun h => by cases h⟩
      | some bytes =>
        have hl := Value.length_encode he
        simp only [List.length_append, List.map_cons, Schema.totalSize, hl]
        exact ⟨Nat.add_le_add_left ih.1 _, fun h => congrArg _ (ih.2 h)⟩

namespace Tuple

variable {t : Tuple} {out bytes : List UInt8}

theorem columns_zip (t : Tuple) : (t.schema.columns.zip t.values).map (·.1) = t.schema.columns :=
  List.map_fst_zip (Nat.le_of_eq t.complete.symm)

theorem length_writeTo (t : Tuple) (out : List UInt8) : (t.writeTo out).1.length = out.length := by
  have hbody := (length_encodeFields (t.schema.columns.zip t.values)).1
  rw [columns_zip] at hbody
  unfold writeTo
  dsimp only
  by_cases hshort : out.length < t.schema.width
  · rw [if_pos hshort]
  · rw [if_neg hshort]
    unfold Schema.width at hshort
    unfold written
    simp only [List.length_append, Bits.length_pack, List.length_drop]
    omega

/-- A tuple that is written to a place leaves its encoding there, and what was behind it. -/
theorem writeTo_eq_ok (h : t.writeTo out = (bytes, .ok ())) :
    ∃ front, t.encode = .ok front ∧ front.length = t.schema.width ∧
      t.schema.width ≤ out.length ∧ bytes = front ++ out.drop t.schema.width := by
  have hbody := (length_encodeFields (t.schema.columns.zip t.values)).2
  rw [columns_zip] at hbody
  have hzero : (List.replicate t.schema.width (0 : UInt8)).length = t.schema.width := by simp
  unfold encode
  unfold writeTo written at h ⊢
  dsimp only at h ⊢
  by_cases hshort : out.length < t.schema.width
  · rw [if_pos hshort] at h
    cases h
  · rw [if_neg hshort] at h
    rw [if_neg (by omega)]
    generalize encodeFields (t.schema.columns.zip t.values) = w at h hbody
    cases hf : w.fault with
    | some cause => simp [hf] at h
    | none =>
      have hfront : (Bits.pack t.schema.bitmapSize w.nulls ++ w.body).length = t.schema.width := by
        rw [List.length_append, Bits.length_pack, hbody hf]
        rfl
      simp only [hf] at h ⊢
      rw [hfront] at h ⊢
      rw [List.drop_eq_nil_of_le (by omega), List.append_nil]
      injection h with h
      exact ⟨_, rfl, hfront, by omega, h.symm⟩

/-- A tuple that is written to a place of its width leaves its encoding there. -/
theorem encode_of_writeTo (hout : out.length = t.schema.width)
    (h : t.writeTo out = (bytes, .ok ())) : t.encode = .ok bytes := by
  obtain ⟨front, hfront, _, _, rfl⟩ := writeTo_eq_ok h
  rw [hfront, List.drop_eq_nil_of_le (by omega), List.append_nil]

end Tuple

/-! ## Pages -/

namespace Page

variable {p p' : Page} {t t' : Tuple} {slot : Nat}

/-- What a page stores. -/
def stored (p : Page) : Content := p.image.stored p.schema

theorem stored_eq (p : Page) (slot : Nat) :
    p.stored slot =
      if slot < p.slots ∧ p.image.bit slot = true then some (p.slotBytes slot) else none := rfl

@[simp] theorem stored_mark (p : Page) (d : Option TxnId) : (p.mark d).stored = p.stored := rfl

theorem length_slotBytes (p : Page) (slot : Nat) : (p.slotBytes slot).length = p.schema.width :=
  Image.length_window _ _ _

theorem firstFree?_eq_some (h : p.firstFree? = some slot) :
    slot < p.slots ∧ p.image.bit slot = false := by
  unfold firstFree? at h
  have hin := List.mem_of_find?_eq_some h
  have hbit := List.find?_some h
  exact ⟨List.mem_range.1 hin, by simpa using hbit⟩

/-- The tuple that the bytes of a slot stand for. -/
def decoded (p : Page) (slot : Nat) (bytes : List UInt8) : Option Tuple :=
  (Tuple.decode p.schema bytes).toOption.map fun t => { t with record := some (p.recordAt slot) }

/-- The slots of a page store a content, and give its tuples. -/
structure Holds (p : Page) (c : Content) : Prop where
  stored : p.stored = c
  tuple : ∀ slot, (p.tuple slot).toOption = (c slot).bind (p.decoded slot)

theorem holds_stored (p : Page) : p.Holds p.stored := by
  refine ⟨rfl, fun slot => ?_⟩
  unfold tuple
  rw [stored_eq]
  by_cases hin : slot < p.slots
  · rw [if_neg (by omega)]
    cases hb : p.image.bit slot with
    | false => simp [Except.toOption]
    | true =>
      simp only [hin, Bool.not_true, Bool.false_eq_true, if_false, and_self, if_true,
        Option.bind_some]
      unfold decoded
      cases Tuple.decode p.schema (p.slotBytes slot) <;> rfl
  · rw [if_pos (by omega)]
    simp [hin, Except.toOption]

theorem holds_of_stored {c : Content} (h : p.stored = c) : p.Holds c := by
  rw [← h]
  exact p.holds_stored

theorem recordAt_eq (h : slot < p.slots) : p.recordAt slot = ⟨p.id, slot⟩ := by
  have hlt : slot < 32768 := slot_lt h
  unfold recordAt RecordId.narrow
  rw [Nat.mod_eq_of_lt (by omega)]

theorem insert_cases (p : Page) (t : Tuple) :
    (∃ image e, p.insert t = ({ p with image }, .error e) ∧
      image.stored p.schema = p.stored) ∨
    ∃ image slot bytes, p.insert t =
        ({ p with image }, .ok { t with record := some (p.recordAt slot) }) ∧
      p.firstFree? = some slot ∧ t.schema = p.schema ∧ t.encode = .ok bytes ∧
      image.stored p.schema = Function.update p.stored slot (some bytes) := by
  unfold insert
  by_cases hschema : t.schema ≠ p.schema
  · rw [if_pos hschema]
    exact .inl ⟨p.image, _, rfl, rfl⟩
  · rw [if_neg hschema]
    have hschema : t.schema = p.schema := not_not.1 hschema
    cases hfree : p.firstFree? with
    | none => exact .inl ⟨p.image, _, rfl, rfl⟩
    | some slot =>
      obtain ⟨hs, hbit⟩ := firstFree?_eq_some hfree
      have hout : (p.slotBytes slot).length = t.schema.width := by
        rw [hschema]
        exact p.length_slotBytes slot
      have hlen := (t.length_writeTo (p.slotBytes slot)).trans (p.length_slotBytes slot)
      dsimp only
      generalize hw : t.writeTo (p.slotBytes slot) = r at hlen ⊢
      obtain ⟨bytes, result⟩ := r
      cases result with
      | error e => exact .inl ⟨_, e, rfl, Image.stored_patch hs hlen hbit⟩
      | ok u =>
        refine .inr ⟨_, slot, bytes, rfl, rfl, hschema, ?_, Image.stored_fill hs hlen hbit⟩
        exact Tuple.encode_of_writeTo hout hw

theorem delete_eq_ok (h : p.delete t = .ok p') :
    ∃ r, t.record = some r ∧ r.page = p.id ∧ (p.stored r.slot).isSome ∧
      p' = { p with image := p.image.putBit r.slot false } ∧
      p'.stored = Function.update p.stored r.slot none := by
  unfold delete at h
  cases hr : t.record with
  | none => rw [hr] at h; cases h
  | some r =>
    rw [hr] at h
    dsimp only at h
    by_cases hpage : r.page ≠ p.id
    · rw [if_pos hpage] at h
      cases h
    · rw [if_neg hpage] at h
      by_cases hslot : p.slots ≤ r.slot
      · rw [if_pos hslot] at h
        cases h
      · rw [if_neg hslot] at h
        cases hbit : p.image.bit r.slot with
        | false => simp [hbit] at h
        | true =>
          simp only [hbit, Bool.not_true, Bool.false_eq_true, if_false, Except.ok.injEq] at h
          subst h
          have hin : r.slot < slotsPerPage p.schema.width := Nat.lt_of_not_le hslot
          refine ⟨r, rfl, not_not.1 hpage, ?_, rfl, Image.stored_putBit hin false⟩
          rw [stored_eq, if_pos ⟨hin, hbit⟩]
          rfl

end Page
end PageStore

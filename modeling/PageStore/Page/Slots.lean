import PageStore.Config

/-!
# PageStore.Page.Slots

How a page is divided into slots. Each slot costs the bytes of one tuple and one bit of the slot
bitmap at the front, so a page has `⌊8 · pageSize / (8 · width + 1)⌋` slots; the bitmap's last byte
may have bits to spare, and so may the end of the page.
-/

namespace PageStore

def slotsPerPage (width : Nat) : Nat := pageSize * 8 / (width * 8 + 1)

def headerSize (slots : Nat) : Nat := (slots + 7) / 8

def slotOffset (width slot : Nat) : Nat := headerSize (slotsPerPage width) + slot * width

/-- A page has no slot exactly when a tuple is as large as the page. -/
theorem slotsPerPage_eq_zero_iff (width : Nat) : slotsPerPage width = 0 ↔ pageSize ≤ width := by
  unfold slotsPerPage pageSize
  rw [Nat.div_eq_zero_iff]
  omega

theorem slots_bits_le (width : Nat) :
    slotsPerPage width * (width * 8 + 1) ≤ pageSize * 8 := Nat.div_mul_le_self _ _

/-- Bitmap and slots fit into the page: the bitmap's spare bits never cost a slot. -/
theorem header_slots_le (width : Nat) :
    headerSize (slotsPerPage width) + slotsPerPage width * width ≤ pageSize := by
  have h := slots_bits_le width
  rw [Nat.mul_add, Nat.mul_one, ← Nat.mul_assoc] at h
  unfold headerSize
  generalize slotsPerPage width * width = body at h ⊢
  generalize slotsPerPage width = n at h ⊢
  omega

theorem slotOffset_add_le {width slot : Nat} (h : slot < slotsPerPage width) :
    slotOffset width slot + width ≤ pageSize := by
  have := header_slots_le width
  have : (slot + 1) * width ≤ slotsPerPage width * width := Nat.mul_le_mul_right _ h
  unfold slotOffset
  rw [Nat.add_mul, Nat.one_mul] at this
  omega

theorem header_covers {width slot : Nat} (h : slot < slotsPerPage width) :
    slot / 8 < headerSize (slotsPerPage width) := by
  unfold headerSize
  omega

/-- Every slot's number is kept whole in a record id. -/
theorem slot_lt {width slot : Nat} (h : slot < slotsPerPage width) : slot < 32768 := by
  have := slots_bits_le width
  have : slotsPerPage width * 1 ≤ slotsPerPage width * (width * 8 + 1) :=
    Nat.mul_le_mul_left _ (by omega)
  unfold pageSize at *
  omega

end PageStore

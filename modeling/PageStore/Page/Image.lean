import PageStore.Config
import PageStore.Tuple.Number

/-!
# PageStore.Page.Image

The bytes of a page. An image is read and written by windows: `window` takes the bytes from an
offset on, `patch` puts bytes there. `patch_get` says what a byte is after a patch, so a window is
read back where it was written and is untouched elsewhere. Bits are addressed across the bytes, the
least significant bit of a byte first.
-/

namespace PageStore

structure Image where
  bytes : Vector UInt8 pageSize
  deriving DecidableEq

namespace Image

def blank : Image := ⟨Vector.replicate pageSize 0⟩

/-- Byte `i`; zero past the end. -/
def get (im : Image) (i : Nat) : UInt8 := im.bytes[i]?.getD 0

/-- The image with byte `i` replaced. -/
def set (im : Image) (i : Nat) (b : UInt8) : Image := ⟨im.bytes.setIfInBounds i b⟩

/-- `n` bytes from `offset` on. -/
def window (im : Image) (offset n : Nat) : List UInt8 :=
  (List.range n).map fun k => im.get (offset + k)

/-- Puts bytes at `offset`. Bytes past the end of the page are dropped. -/
def patch (im : Image) (offset : Nat) : List UInt8 → Image
  | [] => im
  | b :: rest => patch (im.set offset b) (offset + 1) rest

/-- The image with the given bytes at its front and zeros behind. -/
def ofBytes (bytes : List UInt8) : Image := blank.patch 0 bytes

/-- The image made of exactly these bytes; none if they do not fill a page. -/
def ofBytes? (bytes : List UInt8) : Option Image :=
  if bytes.length = pageSize then some (ofBytes bytes) else none

/-- Bit `i`, counted through the bytes. -/
def bit (im : Image) (i : Nat) : Bool := Bits.bit (im.get (i / 8)) (i % 8)

def putBit (im : Image) (i : Nat) (on : Bool) : Image :=
  im.set (i / 8) (Bits.put (im.get (i / 8)) (i % 8) on)

/-- The image with zeros from byte `n` on. -/
def cut (im : Image) (n : Nat) : Image :=
  ⟨Vector.ofFn fun i => if i < n then im.bytes[i] else 0⟩

def toList (im : Image) : List UInt8 := im.bytes.toList

@[simp] theorem length_window (im : Image) (offset n : Nat) : (im.window offset n).length = n := by
  simp [window]

theorem get_of_lt (im : Image) {i : Nat} (h : i < pageSize) : im.get i = im.bytes[i] := by
  simp [get, h]

theorem get_of_le (im : Image) {i : Nat} (h : pageSize ≤ i) : im.get i = 0 := by
  simp [get, h]

/-- Images with the same bytes are the same. -/
theorem ext_get {a b : Image} (h : ∀ i < pageSize, a.get i = b.get i) : a = b := by
  cases a with | mk a =>
  cases b with | mk b =>
  exact congrArg Image.mk (Vector.ext fun i hi => by simpa [get_of_lt _ hi] using h i hi)

theorem get_blank (i : Nat) : blank.get i = 0 := by
  unfold blank get
  by_cases h : i < pageSize <;> simp [h]

theorem get_set (im : Image) {i : Nat} (hi : i < pageSize) (b : UInt8) (j : Nat) :
    (im.set i b).get j = if j = i then b else im.get j := by
  by_cases hj : j < pageSize
  · rw [get_of_lt _ hj, get_of_lt _ hj]
    unfold set
    by_cases h : j = i
    · subst h; simp
    · have h' : i ≠ j := fun e => h e.symm
      simp [h, h']
  · have : j ≠ i := by omega
    rw [if_neg this, get_of_le _ (by omega), get_of_le _ (by omega)]

theorem get_cut (im : Image) (n i : Nat) : (im.cut n).get i = if i < n then im.get i else 0 := by
  by_cases hi : i < pageSize
  · rw [get_of_lt _ hi, get_of_lt _ hi]
    simp [cut]
  · rw [get_of_le _ (by omega), get_of_le _ (by omega)]
    simp

/-- A byte after a patch: the patch's own byte within it, the old byte elsewhere. -/
theorem patch_get (im : Image) (offset : Nat) (bytes : List UInt8)
    (h : offset + bytes.length ≤ pageSize) (j : Nat) :
    (im.patch offset bytes).get j =
      if offset ≤ j ∧ j < offset + bytes.length then bytes.getD (j - offset) 0 else im.get j := by
  induction bytes generalizing im offset with
  | nil =>
    rw [patch, if_neg (by simp only [List.length_nil]; omega)]
  | cons b rest ih =>
    simp only [List.length_cons] at h
    rw [patch, ih _ _ (by omega), get_set im (by omega)]
    by_cases h1 : j = offset
    · subst h1
      rw [if_neg (by omega), if_pos rfl, if_pos (by simp only [List.length_cons]; omega)]
      simp
    · by_cases h2 : offset + 1 ≤ j ∧ j < offset + 1 + rest.length
      · have : j - offset = (j - (offset + 1)) + 1 := by omega
        rw [if_pos h2, if_pos (by simp only [List.length_cons]; omega), this, List.getD_cons_succ]
      · rw [if_neg h2, if_neg h1, if_neg (by simp only [List.length_cons]; omega)]

/-- A bit after a bit was put. -/
theorem bit_putBit (im : Image) {i : Nat} (hi : i / 8 < pageSize) (on : Bool) (j : Nat) :
    (im.putBit i on).bit j = if j = i then on else im.bit j := by
  unfold bit putBit
  rw [get_set im hi]
  by_cases h : j / 8 = i / 8
  · rw [if_pos h, Bits.bit_put (by omega), ← h]
    have : j % 8 = i % 8 ↔ j = i := by omega
    simp [this]
  · rw [if_neg h, if_neg (by rintro rfl; exact h rfl)]

/-- Putting a bit changes no byte but the one it lies in. -/
theorem get_putBit (im : Image) {i : Nat} (hi : i / 8 < pageSize) (on : Bool) {j : Nat}
    (h : j ≠ i / 8) : (im.putBit i on).get j = im.get j := by
  rw [putBit, get_set im hi, if_neg h]

end Image
end PageStore

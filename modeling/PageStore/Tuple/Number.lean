/-!
# PageStore.Tuple.Number

Numbers as bytes, least significant byte first, and bits packed into bytes, least significant bit
first. `Number.toNat_ofNat` and `Bits.get_pack` say that both read back.
-/

namespace PageStore

namespace Number

/-- The `width` low bytes of a number, the lowest first. -/
def ofNat : (width n : Nat) → List UInt8
  | 0, _ => []
  | width + 1, n => n.toUInt8 :: ofNat width (n / 256)

/-- The number that bytes spell, the lowest first. -/
def toNat : List UInt8 → Nat
  | [] => 0
  | b :: rest => b.toNat + 256 * toNat rest

/-- The two's complement of an integer in `width` bytes. -/
def ofInt (width : Nat) (i : Int) : List UInt8 := ofNat width (i % Nat.pow 256 width).toNat

@[simp] theorem length_ofNat (width n : Nat) : (ofNat width n).length = width := by
  induction width generalizing n with
  | zero => rfl
  | succ w ih => simp [ofNat, ih]

@[simp] theorem length_ofInt (width : Nat) (i : Int) : (ofInt width i).length = width :=
  length_ofNat _ _

/-- Bytes hold a number up to their width. -/
theorem toNat_ofNat (width n : Nat) : toNat (ofNat width n) = n % Nat.pow 256 width := by
  induction width generalizing n with
  | zero => simp [ofNat, toNat, Nat.mod_one]
  | succ w ih =>
    have : n.toUInt8.toNat = n % 256 := by simp [Nat.toUInt8]
    rw [ofNat, toNat, ih, this]
    show n % 256 + 256 * (n / 256 % Nat.pow 256 w) = n % (Nat.pow 256 w * 256)
    rw [Nat.mul_comm (Nat.pow 256 w), Nat.mod_mul]

theorem toNat_lt (bytes : List UInt8) : toNat bytes < Nat.pow 256 bytes.length := by
  induction bytes with
  | nil => simp [toNat]
  | cons b rest ih =>
    have hb := b.toNat_lt
    show b.toNat + 256 * toNat rest < Nat.pow 256 rest.length * 256
    omega

end Number

namespace Bits

/-- Bit `k` of a byte, bit 0 being the least significant. -/
def bit (b : UInt8) (k : Nat) : Bool := b.toBitVec.getLsbD k

/-- The byte with bit `k` set or cleared. -/
def put (b : UInt8) (k : Nat) (on : Bool) : UInt8 :=
  if on then ⟨b.toBitVec ||| BitVec.twoPow 8 k⟩ else ⟨b.toBitVec &&& ~~~BitVec.twoPow 8 k⟩

theorem bit_put {k : Nat} (h : k < 8) (b : UInt8) (on : Bool) (j : Nat) :
    bit (put b k on) j = if j = k then on else bit b j := by
  unfold put bit
  by_cases hj : j < 8
  · cases on
    · by_cases e : j = k
      · simp [e, h]
      · simp [e, hj]
    · by_cases e : j = k
      · simp [e, h]
      · have e' : k ≠ j := fun h => e h.symm
        simp [e, e', h, BitVec.getLsbD_or, BitVec.getLsbD_twoPow]
  · have hne : j ≠ k := by omega
    rw [if_neg hne, BitVec.getLsbD_of_ge _ _ (by omega), BitVec.getLsbD_of_ge _ _ (by omega)]

/-- The number whose binary digits are the bits, the first being the least significant. -/
def value : List Bool → Nat
  | [] => 0
  | b :: rest => b.toNat + 2 * value rest

/-- The byte whose bits are the first eight of a list, the first being the least significant. -/
def byte (bits : List Bool) : UInt8 := (value (bits.take 8)).toUInt8

/-- Bits in `width` bytes; the bits past the list are clear. -/
def pack : (width : Nat) → List Bool → List UInt8
  | 0, _ => []
  | width + 1, bits => byte bits :: pack width (bits.drop 8)

/-- Bit `i` of a row of bytes; bits past the bytes are clear. -/
def get (bytes : List UInt8) (i : Nat) : Bool := bit (bytes.getD (i / 8) 0) (i % 8)

@[simp] theorem length_pack (width : Nat) (bits : List Bool) :
    (pack width bits).length = width := by
  induction width generalizing bits with
  | zero => rfl
  | succ w ih => simp [pack, ih]

theorem testBit_value (bits : List Bool) (k : Nat) :
    (value bits).testBit k = bits.getD k false := by
  induction bits generalizing k with
  | nil => simp [value]
  | cons b rest ih =>
    cases k with
    | zero => cases b <;> simp [value, Nat.testBit_zero]
    | succ k =>
      rw [Nat.testBit_succ, value, show (b.toNat + 2 * value rest) / 2 = value rest by
        cases b <;> simp
        omega, ih]
      simp

theorem bit_byte (bits : List Bool) {k : Nat} (h : k < 8) :
    bit (byte bits) k = bits.getD k false := by
  have : bit (byte bits) k = (value (bits.take 8)).testBit k := by
    have cut := Nat.testBit_mod_two_pow (value (bits.take 8)) 8 k
    simp only [h, decide_true, Bool.true_and] at cut
    rw [← cut]
    simp [bit, byte, Nat.toUInt8, UInt8.ofNat, h, BitVec.getElem_eq_testBit_toNat]
  rw [this, testBit_value]
  simp [List.getD_eq_getElem?_getD, h]

/-- Packed bits read back, up to the width. -/
theorem get_pack (width : Nat) (bits : List Bool) {i : Nat} (h : i < 8 * width) :
    get (pack width bits) i = bits.getD i false := by
  induction width generalizing bits i with
  | zero => omega
  | succ w ih =>
    by_cases hi : i < 8
    · have : i / 8 = 0 := by omega
      have hm : i % 8 = i := by omega
      simp [get, pack, this, hm, bit_byte bits hi]
    · have hd : i / 8 = (i - 8) / 8 + 1 := by omega
      have hm : i % 8 = (i - 8) % 8 := by omega
      have := ih (bits.drop 8) (i := i - 8) (by omega)
      simp only [get] at this
      simp only [get, pack, hd, hm, List.getD_cons_succ, this]
      simp [List.getD_eq_getElem?_getD, List.getElem?_drop, show 8 + (i - 8) = i by omega]

end Bits
end PageStore

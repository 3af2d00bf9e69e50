/-!
# PageStore.Text.Utf8

Texts as bytes. `encode` writes each character in its UTF-8 form; `decode` reads any bytes, putting
U+FFFD for what is no character.

A lead byte fixes how many bytes must follow and in which range the first of them lies (`follow`);
later ones lie in 0x80 to 0xBF. Where the bytes break off, the longest stretch that could still
have begun a character counts as one fault. So decoding never fails, and it never skips a byte that
could begin a character. `decode_encode` says that nothing is lost on the way there and back.
-/

namespace PageStore.Text

/-- The bytes of one character: one byte below 0x80, else a lead byte and six bits per byte. -/
def encodeChar (c : Char) : List UInt8 :=
  let n := c.toNat
  if n < 0x80 then [n.toUInt8]
  else if n < 0x800 then [(0xC0 + n / 0x40).toUInt8, (0x80 + n % 0x40).toUInt8]
  else if n < 0x10000 then
    [(0xE0 + n / 0x1000).toUInt8, (0x80 + n / 0x40 % 0x40).toUInt8, (0x80 + n % 0x40).toUInt8]
  else
    [(0xF0 + n / 0x40000).toUInt8, (0x80 + n / 0x1000 % 0x40).toUInt8,
      (0x80 + n / 0x40 % 0x40).toUInt8, (0x80 + n % 0x40).toUInt8]

def encode (s : List Char) : List UInt8 := s.flatMap encodeChar

def replacement : Char := Char.ofNat 0xFFFD

/-- What must follow a lead byte: how many bytes, the range of the first of them, and the bits the
lead byte itself contributes. `none` for a byte that leads nothing. -/
def follow (b : Nat) : Option (Nat × Nat × Nat × Nat) :=
  if b < 0x80 then some (0, 0, 0, b)
  else if b < 0xC2 then none
  else if b < 0xE0 then some (1, 0x80, 0xBF, b - 0xC0)
  else if b = 0xE0 then some (2, 0xA0, 0xBF, 0)
  else if b = 0xED then some (2, 0x80, 0x9F, 0xD)
  else if b < 0xF0 then some (2, 0x80, 0xBF, b - 0xE0)
  else if b = 0xF0 then some (3, 0x90, 0xBF, 0)
  else if b < 0xF4 then some (3, 0x80, 0xBF, b - 0xF0)
  else if b = 0xF4 then some (3, 0x80, 0x8F, 4)
  else none

/-- Reads up to `owed` following bytes, the first of them within `lo` and `hi`: the code so far
when all came, and in any case how many were read. -/
def tails : (owed lo hi code : Nat) → List UInt8 → Option Nat × Nat
  | 0, _, _, code, _ => (some code, 0)
  | _ + 1, _, _, _, [] => (none, 0)
  | owed + 1, lo, hi, code, b :: rest =>
    if lo ≤ b.toNat ∧ b.toNat ≤ hi then
      let (code, read) := tails owed 0x80 0xBF (code * 0x40 + (b.toNat - 0x80)) rest
      (code, read + 1)
    else (none, 0)

/-- The character at the front of `b :: rest`, and how many bytes of `rest` belong to it. -/
def front (b : UInt8) (rest : List UInt8) : Char × Nat :=
  match follow b.toNat with
  | none => (replacement, 0)
  | some (owed, lo, hi, code) =>
    match tails owed lo hi code rest with
    | (some code, read) => (Char.ofNat code, read)
    | (none, read) => (replacement, read)

/-- Decodes after skipping bytes that the character before has used. -/
def decodeFrom : (skip : Nat) → List UInt8 → List Char
  | _, [] => []
  | skip + 1, _ :: rest => decodeFrom skip rest
  | 0, b :: rest =>
    let (c, read) := front b rest
    c :: decodeFrom read rest

def decode (bytes : List UInt8) : List Char := decodeFrom 0 bytes

theorem toNat_toUInt8 {n : Nat} (h : n < 256) : n.toUInt8.toNat = n := by
  simp [Nat.toUInt8, UInt8.toNat_ofNat', Nat.mod_eq_of_lt h]

theorem char_toNat_valid (c : Char) :
    c.toNat < 0xD800 ∨ (0xDFFF < c.toNat ∧ c.toNat < 0x110000) := by
  have := c.valid
  simpa [UInt32.isValidChar, Nat.isValidChar] using this

/-- The front of a character's bytes, whatever follows them, is that character. -/
theorem front_encodeChar (c : Char) :
    ∃ b r, encodeChar c = b :: r ∧ ∀ rest, front b (r ++ rest) = (c, r.length) := by
  have hv := char_toNat_valid c
  have hc : Char.ofNat c.toNat = c := Char.ofNat_toNat c
  unfold encodeChar
  generalize c.toNat = n at hv hc ⊢
  simp only
  split
  · refine ⟨_, _, rfl, fun rest => ?_⟩
    have h0 := toNat_toUInt8 (n := n) (by omega)
    simp [front, follow, *, tails]
  split
  · refine ⟨_, _, rfl, fun rest => ?_⟩
    have h0 := toNat_toUInt8 (n := 0xC0 + n / 0x40) (by omega)
    have h1 := toNat_toUInt8 (n := 0x80 + n % 0x40) (by omega)
    have e : (n / 0x40) * 0x40 + (n % 0x40) = n := by omega
    have f : follow (0xC0 + n / 0x40) = some (1, 0x80, 0xBF, n / 0x40) := by
      unfold follow
      simp only [show ¬ 0xC0 + n / 0x40 < 0x80 by omega, show ¬ 0xC0 + n / 0x40 < 0xC2 by omega,
        show 0xC0 + n / 0x40 < 0xE0 by omega, if_true, if_false]
      simp
    simp only [front, h0, f, List.cons_append, List.nil_append, tails, h1]
    rw [if_pos (by omega)]
    simp [e, hc]
  split
  · refine ⟨_, _, rfl, fun rest => ?_⟩
    have h0 := toNat_toUInt8 (n := 0xE0 + n / 0x1000) (by omega)
    have h1 := toNat_toUInt8 (n := 0x80 + n / 0x40 % 0x40) (by omega)
    have h2 := toNat_toUInt8 (n := 0x80 + n % 0x40) (by omega)
    have e : (n / 0x1000 * 0x40 + n / 0x40 % 0x40) * 0x40 + (n % 0x40) = n := by omega
    have f : ∃ lo hi, follow (0xE0 + n / 0x1000) = some (2, lo, hi, n / 0x1000) ∧
        lo ≤ 0x80 + n / 0x40 % 0x40 ∧ 0x80 + n / 0x40 % 0x40 ≤ hi := by
      unfold follow
      rw [if_neg (by omega), if_neg (by omega), if_neg (by omega)]
      by_cases h : n / 0x1000 = 0
      · exact ⟨0xA0, 0xBF, by simp [h], by omega, by omega⟩
      · rw [if_neg (by omega)]
        by_cases h' : n / 0x1000 = 0xD
        · exact ⟨0x80, 0x9F, by simp [h'], by omega, by omega⟩
        · rw [if_neg (by omega), if_pos (by omega)]
          exact ⟨0x80, 0xBF, by simp, by omega, by omega⟩
    obtain ⟨lo, hi, f, hlo, hhi⟩ := f
    simp only [front, h0, f, List.cons_append, List.nil_append, tails, h1, h2]
    rw [if_pos ⟨hlo, hhi⟩, if_pos (by omega)]
    simp [e, hc]
  · refine ⟨_, _, rfl, fun rest => ?_⟩
    have h0 := toNat_toUInt8 (n := 0xF0 + n / 0x40000) (by omega)
    have h1 := toNat_toUInt8 (n := 0x80 + n / 0x1000 % 0x40) (by omega)
    have h2 := toNat_toUInt8 (n := 0x80 + n / 0x40 % 0x40) (by omega)
    have h3 := toNat_toUInt8 (n := 0x80 + n % 0x40) (by omega)
    have e : ((n / 0x40000 * 0x40 + n / 0x1000 % 0x40) * 0x40 + n / 0x40 % 0x40) * 0x40
        + (n % 0x40) = n := by omega
    have f : ∃ lo hi, follow (0xF0 + n / 0x40000) = some (3, lo, hi, n / 0x40000) ∧
        lo ≤ 0x80 + n / 0x1000 % 0x40 ∧ 0x80 + n / 0x1000 % 0x40 ≤ hi := by
      unfold follow
      rw [if_neg (by omega), if_neg (by omega), if_neg (by omega), if_neg (by omega),
        if_neg (by omega), if_neg (by omega)]
      by_cases h : n / 0x40000 = 0
      · exact ⟨0x90, 0xBF, by simp [h], by omega, by omega⟩
      · rw [if_neg (by omega)]
        by_cases h' : n / 0x40000 = 4
        · exact ⟨0x80, 0x8F, by simp [h'], by omega, by omega⟩
        · rw [if_pos (by omega)]
          exact ⟨0x80, 0xBF, by simp, by omega, by omega⟩
    obtain ⟨lo, hi, f, hlo, hhi⟩ := f
    simp only [front, h0, f, List.cons_append, List.nil_append, tails, h1, h2, h3]
    rw [if_pos ⟨hlo, hhi⟩, if_pos (by omega), if_pos (by omega)]
    simp [e, hc]

theorem decodeFrom_append (skipped rest : List UInt8) :
    decodeFrom skipped.length (skipped ++ rest) = decodeFrom 0 rest := by
  induction skipped with
  | nil => rfl
  | cons b s ih => simpa [decodeFrom] using ih

/-- Decoding what was encoded gives the text back. -/
theorem decode_encode (s : List Char) : decode (encode s) = s := by
  induction s with
  | nil => rfl
  | cons c s ih =>
    obtain ⟨b, r, hb, hf⟩ := front_encodeChar c
    have : encode (c :: s) = b :: (r ++ encode s) := by simp [encode, hb]
    rw [this, decode, decodeFrom, hf]
    simp only [decodeFrom_append]
    exact congrArg (c :: ·) ih

end PageStore.Text

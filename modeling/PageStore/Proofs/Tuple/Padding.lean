import PageStore.Proofs.Tuple.Normal

/-!
# PageStore.Proofs.Tuple.Padding

Texts in columns of fixed width. A column takes every text that is not longer than it is wide,
counted in bytes, and fills it up with spaces (`encode_char`). Reading takes all white space away from
the end, not only the spaces that filled the column up, so a text is given back whole just if it does
not end in white space of any kind (`texts_given_back`). A tab at the end is lost
(`tab_at_end_is_lost`).
-/

namespace PageStore

namespace Text

variable {s : List Char}

theorem encodeChar_eq (c : Char) : encodeChar c = String.utf8EncodeChar c := by
  have hv := char_toNat_valid c
  unfold encodeChar String.utf8EncodeChar
  rw [show c.val.toNat = c.toNat from rfl]
  generalize c.toNat = n at hv ⊢
  have hlow : n / 64 % 64 + 128 = 128 + n / 64 % 64 := by omega
  have hlast : n % 64 + 128 = 128 + n % 64 := by omega
  dsimp only
  by_cases h1 : n < 0x80
  · have h1' : n ≤ 127 := by omega
    rw [if_pos h1, if_pos h1']
  · have h1' : ¬ n ≤ 127 := by omega
    rw [if_neg h1, if_neg h1']
    by_cases h2 : n < 0x800
    · have h2' : n ≤ 2047 := by omega
      have hlead : n / 64 % 32 + 192 = 192 + n / 64 := by omega
      rw [if_pos h2, if_pos h2', hlead, hlast]
    · have h2' : ¬ n ≤ 2047 := by omega
      rw [if_neg h2, if_neg h2']
      by_cases h3 : n < 0x10000
      · have h3' : n ≤ 65535 := by omega
        have hlead : n / 4096 % 16 + 224 = 224 + n / 4096 := by omega
        rw [if_pos h3, if_pos h3', hlead, hlow, hlast]
      · have h3' : ¬ n ≤ 65535 := by omega
        have hlead : n / 262144 % 8 + 240 = 240 + n / 262144 := by omega
        have hmid : n / 4096 % 64 + 128 = 128 + n / 4096 % 64 := by omega
        rw [if_neg h3, if_neg h3', hlead, hmid, hlow, hlast]

theorem length_encode (s : String) : (encode s.toList).length = s.utf8ByteSize := by
  rw [← String.size_toByteArray, ← s.ofList_toList, String.toByteArray_ofList,
    String.toList_ofList]
  unfold encode List.utf8Encode
  rw [List.size_toByteArray, funext encodeChar_eq]

/-- The text does not end in white space. -/
def Solid (s : List Char) : Prop := ∀ c ∈ s.getLast?, isBlank c = false

instance (s : List Char) : Decidable (Solid s) :=
  decidable_of_iff (s.getLast?.all (fun c => !isBlank c) = true) <| by
    unfold Solid
    cases s.getLast? <;> simp

theorem Trims.eq_iff {kept : List Char} (h : Trims s kept) : kept = s ↔ Solid s := by
  constructor
  · rintro rfl c hc
    exact h.solid c hc
  · intro hs
    rw [trims_iff.1 h]
    exact trimEnd_of_solid hs

end Text

namespace Value

variable {s : String} {n : Nat}

theorem fits_char : (Value.string s).fits (.char n) = true ↔ s.utf8ByteSize ≤ n := by
  rw [← Text.length_encode]
  exact decide_eq_true_iff

/-- A column takes the texts that are not longer than it is wide, and fills them up with spaces. -/
theorem encode_char (h : s.utf8ByteSize ≤ n) :
    (Value.string s).encode (.char n) =
      some (Text.encode s.toList ++ List.replicate (n - s.utf8ByteSize) space) := by
  unfold encode
  rw [if_pos (fits_char.2 h)]
  unfold bytes
  rw [← Text.length_encode]
  rfl

/-- A column gives back a text without the white space at its end, and leaves what follows. -/
theorem read_char (h : s.utf8ByteSize ≤ n) (rest : List UInt8) :
    (ColumnType.char n).read
      (Text.encode s.toList ++ List.replicate (n - s.utf8ByteSize) space ++ rest) =
      some (.string (String.ofList (Text.trimEnd s.toList)), rest) := by
  have hencode := encode_char h
  rw [ColumnType.read_append (length_encode hencode)]
  unfold encode at hencode
  rw [if_pos (fits_char.2 h)] at hencode
  rw [← Option.some.inj hencode, ColumnType.decode_char]
  rfl

theorem givenBack_string {w : Value} (h : GivenBack (.char n) (.string s) w) :
    w = .string s ↔ Text.Solid s.toList := by
  cases h with
  | text _ ht =>
    rw [← ht.eq_iff, Value.string.injEq, String.toList_inj]
  | number hv _ _ => cases hv
  | same _ hne => exact absurd rfl (hne s)

end Value

namespace Tuple

/-- A text that is not longer than its column is wide is stored with spaces behind it, and is given
back without the white space at its end: whole just if it does not end in white space. The same text
in a tuple is given back whole just if it does not end in white space. -/
theorem texts_given_back {s : String} {n : Nat} (h : s.utf8ByteSize ≤ n) :
    (∃ bytes kept, (Value.string s).encode (.char n) = some bytes ∧
      bytes = Text.encode s.toList ++ List.replicate (n - s.utf8ByteSize) space ∧
      (∀ rest, (ColumnType.char n).read (bytes ++ rest) = some (.string kept, rest)) ∧
      Text.Trims s.toList kept.toList ∧ (kept = s ↔ Text.Solid s.toList)) ∧
    ∀ (t : Tuple) (bytes : List UInt8), t.encode = .ok bytes →
      ∃ u, Tuple.decode t.schema bytes = .ok u ∧
        ∀ (i : Nat) (c : Column), t.schema.columns[i]? = some c → c.type = .char n →
          t.values[i]? = some (.string s) →
          (u.values[i]? = some (.string s) ↔ Text.Solid s.toList) := by
  constructor
  · have htrims : Text.Trims s.toList (String.ofList (Text.trimEnd s.toList)).toList := by
      rw [String.toList_ofList]
      exact Text.trims_trimEnd s.toList
    refine ⟨_, _, Value.encode_char h, rfl, Value.read_char h, htrims, ?_⟩
    rw [← htrims.eq_iff, String.toList_inj]
  · intro t bytes hencode
    obtain ⟨u, hu, _, _, hvalues⟩ := readsAs_encode hencode
    refine ⟨u, hu, ?_⟩
    intro i c hc hn hs
    obtain ⟨w, hw, hback⟩ := hvalues i c _ hc hs
    rw [hn] at hback
    rw [hw, Option.some.injEq]
    exact Value.givenBack_string hback

/-- A word that ends in a letter of two bytes, and one with a no-break space behind it. -/
def padded : Tuple where
  schema := ⟨[⟨"name", .char 6, false⟩, ⟨"note", .char 8, false⟩]⟩
  values := [.string "été", .string "ab\u00a0"]
  complete := rfl

def paddedBytes : List UInt8 :=
  [0] ++ [0xC3, 0xA9, 0x74, 0xC3, 0xA9, 0x20] ++
    [0x61, 0x62, 0xC2, 0xA0, 0x20, 0x20, 0x20, 0x20]

theorem padded_given_back :
    "été".utf8ByteSize ≤ 6 ∧ (Value.string "été").encode (.char 6) = some (paddedBytes.extract 1 7) ∧
    (ColumnType.char 6).read (paddedBytes.extract 1 7 ++ [1, 2]) = some (.string "été", [1, 2]) ∧
    padded.encode = .ok paddedBytes ∧
    ∃ u, Tuple.decode padded.schema paddedBytes = .ok u ∧
      u.values[0]? = some (.string "été") ∧ u.values[1]? ≠ some (.string "ab\u00a0") := by
  have hfits : "été".utf8ByteSize ≤ 6 := by decide +kernel
  have hnoteFits : "ab\u00a0".utf8ByteSize ≤ 8 := by decide +kernel
  have hencode : padded.encode = .ok paddedBytes := by decide +kernel
  have hword : "été".toList = ['é', 't', 'é'] := String.toList_ofList
  have hnote : "ab\u00a0".toList = ['a', 'b', '\u00a0'] := String.toList_ofList
  have hsolid : Text.Solid "été".toList := by
    rw [hword]
    decide
  have hblank : ¬ Text.Solid "ab\u00a0".toList := by
    rw [hnote]
    decide
  obtain ⟨⟨bytes, kept, hbytes, hpad, hread, _, hkept⟩, htuple⟩ := texts_given_back hfits
  have hpad : bytes = paddedBytes.extract 1 7 := hpad.trans (by decide +kernel)
  subst hpad
  obtain ⟨u, hu, hvalues⟩ := htuple padded paddedBytes hencode
  obtain ⟨u', hu', hvalues'⟩ := (texts_given_back hnoteFits).2 padded paddedBytes hencode
  rw [hu] at hu'
  cases hu'
  refine ⟨hfits, hbytes, ?_, hencode, u, hu, ?_, ?_⟩
  · rw [hread, hkept.2 hsolid]
  · exact (hvalues 0 _ rfl rfl rfl).2 hsolid
  · exact fun h => hblank ((hvalues' 1 _ rfl rfl rfl).1 h)

/-- A text of two bytes that does not end in the space that columns are filled up with, and that a
column of two bytes does not give back. -/
theorem tab_at_end_is_lost :
    "a\t".utf8ByteSize ≤ 2 ∧ "a\t".toList.getLast? ≠ some ' ' ∧
    (Value.string "a\t").encode (.char 2) = some [0x61, 0x09] ∧
    (ColumnType.char 2).read [0x61, 0x09] = some (.string "a", []) ∧
    Value.string "a" ≠ .string "a\t" := by
  refine ⟨by decide +kernel, by decide +kernel, by decide +kernel, by decide +kernel, ?_⟩
  decide +kernel

end Tuple
end PageStore

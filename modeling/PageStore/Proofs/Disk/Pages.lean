import Mathlib.Data.List.GetD
import PageStore.Disk.File

/-!
# PageStore.Proofs.Disk.Pages

The bytes of a file, and the bytes that a page of it is read with.

* `toList_page`: a page is read as the bytes that it has in the file, with zeros behind them.
* `toBytes_write`: a page that is written is put over the bytes that were there, and a file that
  was shorter is extended with zeros up to it.
* `filled_iff`: the bytes of a page may come in pieces of any length, and what the file does not have
  is made zero. Whatever the pieces, the buffer then holds the page as it is read.
-/

namespace PageStore

namespace Image

theorem length_toList (im : Image) : im.toList.length = pageSize := by simp [toList]

theorem getD_toList (im : Image) (k : Nat) : im.toList.getD k 0 = im.get k := by
  simp [toList, get, List.getD_eq_getElem?_getD]

theorem toList_blank : blank.toList = List.replicate pageSize 0 := by
  rw [toList, blank, Vector.toList_replicate]

theorem get_ofBytes {bytes : List UInt8} (h : bytes.length ≤ pageSize) (k : Nat) :
    (ofBytes bytes).get k = bytes.getD k 0 := by
  rw [ofBytes, patch_get _ _ _ (by omega), get_blank, Nat.sub_zero, Nat.zero_add]
  by_cases hk : k < bytes.length
  · rw [if_pos ⟨Nat.zero_le k, hk⟩]
  · rw [if_neg (fun hin => hk hin.2), List.getD_eq_default _ _ (by omega)]

theorem toList_eq (im : Image) : im.toList = (List.range pageSize).map im.get := by
  refine List.ext_getElem (by simp [length_toList]) fun k hk _ => ?_
  rw [List.getElem_map, List.getElem_range, ← getD_toList, List.getD_eq_getElem _ _ hk]

end Image

/-! ## Bytes from a position on -/

/-- So many bytes from a position on, filled up with zeros where they have ended. -/
def padded (bytes : List UInt8) (pos room : Nat) : List UInt8 :=
  let own := (bytes.drop pos).take room
  own ++ List.replicate (room - own.length) 0

theorem padded_eq_map (bytes : List UInt8) (pos room : Nat) :
    padded bytes pos room = (List.range room).map fun k => bytes.getD (pos + k) 0 := by
  have hown : ((bytes.drop pos).take room).length = min room (bytes.length - pos) := by
    rw [List.length_take, List.length_drop]
  unfold padded
  have hlen : (List.range room).length = room := List.length_range
  refine List.ext_getElem ?_ fun k _ hk => ?_
  · rw [List.length_append, List.length_replicate, List.length_map, hown, hlen]
    omega
  rw [List.length_map, hlen] at hk
  rw [List.getElem_map, List.getElem_range]
  by_cases hin : k < ((bytes.drop pos).take room).length
  · rw [List.getElem_append_left hin, List.getElem_take, List.getElem_drop, List.getD_eq_getElem]
  · rw [List.getElem_append_right (by omega), List.getElem_replicate,
      List.getD_eq_default _ _ (by omega)]

theorem padded_of_le {bytes : List UInt8} {pos room : Nat} (h : pos + room ≤ bytes.length) :
    padded bytes pos room = (bytes.drop pos).take room := by
  have hlen : ((bytes.drop pos).take room).length = room := by
    rw [List.length_take, List.length_drop]
    omega
  rw [padded, hlen, Nat.sub_self, List.replicate_zero, List.append_nil]

theorem padded_of_ended {bytes : List UInt8} {pos : Nat} (h : bytes.length ≤ pos) (room : Nat) :
    padded bytes pos room = List.replicate room 0 := by
  rw [padded, List.drop_eq_nil_of_le h, List.take_nil, List.nil_append, List.length_nil, Nat.sub_zero]

theorem padded_append (bytes : List UInt8) (pos : Nat) {n room : Nat} (h : n ≤ room) :
    padded bytes pos n ++ padded bytes (pos + n) (room - n) = padded bytes pos room := by
  obtain ⟨rest, rfl⟩ := Nat.exists_eq_add_of_le h
  simp only [padded_eq_map, Nat.add_sub_cancel_left, List.range_add, List.map_append, List.map_map,
    Function.comp_def, Nat.add_assoc]

namespace ByteFile

/-! ## The bytes of a file -/

theorem length_flatMap_toList (f : ByteFile) (count : Nat) :
    ((List.range count).flatMap fun n => (f.page n).toList).length = count * pageSize := by
  induction count with
  | zero => simp
  | succ n ih =>
    rw [List.range_succ, List.flatMap_append, List.length_append, ih, List.flatMap_singleton,
      Image.length_toList, Nat.succ_mul]

theorem getD_flatMap_toList (f : ByteFile) {count i : Nat} (hi : i < count * pageSize) :
    ((List.range count).flatMap fun n => (f.page n).toList).getD i 0 = f.byte i := by
  induction count with
  | zero => omega
  | succ n ih =>
    have hlen := f.length_flatMap_toList n
    rw [List.range_succ, List.flatMap_append, List.flatMap_singleton]
    by_cases hin : i < n * pageSize
    · rw [List.getD_append _ _ _ _ (by omega), ih hin]
    · rw [List.getD_append_right _ _ _ _ (by omega), hlen, Image.getD_toList]
      have hdiv : i / pageSize = n := by
        rw [Nat.succ_mul] at hi
        exact Nat.div_eq_of_lt_le (by omega) (by rw [Nat.succ_mul]; exact hi)
      have hmod : i % pageSize = i - n * pageSize := by
        have := Nat.div_add_mod' i pageSize
        rw [hdiv] at this
        omega
      rw [byte, hdiv, hmod]

theorem length_le (f : ByteFile) : f.length ≤ f.wholeCount * pageSize := by
  unfold wholeCount pageSize
  omega

theorem length_toBytes (f : ByteFile) : f.toBytes.length = f.length := by
  rw [toBytes, List.length_take, length_flatMap_toList]
  exact Nat.min_eq_left f.length_le

theorem getD_toBytes (f : ByteFile) (i : Nat) : f.toBytes.getD i 0 = f.byte i := by
  by_cases hi : i < f.length
  · have hle := f.length_le
    rw [toBytes, ← f.getD_flatMap_toList (Nat.lt_of_lt_of_le hi hle)]
    simp only [List.getD_eq_getElem?_getD, List.getElem?_take, hi, if_true]
  · rw [List.getD_eq_default _ _ (by rw [length_toBytes]; omega), f.byte_past_end (by omega)]

theorem get_page (f : ByteFile) (n : Nat) {k : Nat} (hk : k < pageSize) :
    (f.page n).get k = f.byte (n * pageSize + k) := by
  have hdiv : (n * pageSize + k) / pageSize = n := by unfold pageSize at *; omega
  have hmod : (n * pageSize + k) % pageSize = k := by unfold pageSize at *; omega
  rw [byte, hdiv, hmod]

theorem toList_page (f : ByteFile) (n : Nat) :
    (f.page n).toList = padded f.toBytes (n * pageSize) pageSize := by
  rw [Image.toList_eq, padded_eq_map]
  refine List.map_congr_left fun k hk => ?_
  rw [getD_toBytes, get_page f n (List.mem_range.1 hk)]

theorem page_blank_of_le (f : ByteFile) {n : Nat} (h : f.wholeCount ≤ n) :
    f.page n = Image.blank := by
  refine Image.ext_get fun k hk => ?_
  have hle := f.length_le
  have hmul := Nat.mul_le_mul_right pageSize h
  rw [get_page f n hk, f.byte_past_end (by omega), Image.get_blank]

/-- Some bytes with others put over them from a position on. What lies between the end of the first
and that position is zero. -/
def overwritten (bytes : List UInt8) (pos : Nat) (data : List UInt8) : List UInt8 :=
  (List.range (max bytes.length (pos + data.length))).map fun i =>
    if pos ≤ i ∧ i < pos + data.length then data.getD (i - pos) 0 else bytes.getD i 0

theorem toBytes_eq (f : ByteFile) : f.toBytes = (List.range f.length).map f.byte := by
  refine List.ext_getElem (by simp [length_toBytes]) fun i hi _ => ?_
  rw [List.getElem_map, List.getElem_range, ← getD_toBytes, List.getD_eq_getElem _ _ hi]

theorem toBytes_write (f : ByteFile) (n : Nat) (im : Image) :
    (f.write n im).toBytes = overwritten f.toBytes (n * pageSize) im.toList := by
  rw [toBytes_eq, overwritten, length_toBytes, Image.length_toList]
  have hlen : (f.write n im).length = max f.length (n * pageSize + pageSize) := by
    rw [← Nat.succ_mul]
    rfl
  rw [hlen]
  refine List.map_congr_left fun i _ => ?_
  rw [byte_write, getD_toBytes, Image.getD_toList]
  by_cases hi : n * pageSize ≤ i ∧ i < n * pageSize + pageSize
  · have hdiv : i / pageSize = n := by unfold pageSize at *; omega
    have hmod : i % pageSize = i - n * pageSize := by unfold pageSize at *; omega
    rw [if_pos hi, if_pos hdiv, hmod]
  · have hdiv : i / pageSize ≠ n := by unfold pageSize at *; omega
    rw [if_neg hi, if_neg hdiv]

theorem byte_foldl_write (bytes : List UInt8) (count i : Nat) :
    ((List.range count).foldl (fun f n =>
        f.write n (Image.ofBytes ((bytes.drop (n * pageSize)).take pageSize))) empty).byte i =
      if i < count * pageSize then bytes.getD i 0 else 0 := by
  induction count with
  | zero => exact (byte_past_end _ (Nat.zero_le i)).trans (if_neg (by omega)).symm
  | succ count ih =>
    rw [List.range_succ, List.foldl_append, List.foldl_cons, List.foldl_nil, byte_write, ih]
    have hmul := Nat.div_add_mod' i pageSize
    have hmod : i % pageSize < pageSize := Nat.mod_lt _ (by decide)
    by_cases hdiv : i / pageSize = count
    · rw [hdiv] at hmul
      rw [if_pos hdiv, if_pos (by rw [Nat.succ_mul]; omega),
        Image.get_ofBytes (by rw [List.length_take]; omega)]
      simp only [List.getD_eq_getElem?_getD, List.getElem?_take, List.getElem?_drop, hmod, if_true,
        hmul]
    · have hside : i < count * pageSize ↔ i < (count + 1) * pageSize := by
        rw [← Nat.div_lt_iff_lt_mul (by decide), ← Nat.div_lt_iff_lt_mul (by decide)]
        omega
      simp only [hdiv, if_false, hside]

/-- Any bytes are the content of a file. -/
theorem toBytes_ofBytes (bytes : List UInt8) : (ofBytes bytes).toBytes = bytes := by
  rw [toBytes_eq]
  refine List.ext_getElem (by simp [ofBytes, resize]) fun i _ hi => ?_
  have hin : i < (bytes.length + pageSize - 1) / pageSize * pageSize := by
    unfold pageSize
    omega
  rw [List.getElem_map, List.getElem_range, ofBytes, byte_resize, if_pos hi, byte_foldl_write,
    if_pos hin, List.getD_eq_getElem _ _ hi]

end ByteFile

/-! ## Filling a buffer in pieces -/

/-- A buffer that was filled with bytes from a position on. Each piece that the system gives has at
least one byte; where the bytes have ended it gives none, and what is not filled is made zero. -/
inductive Filled (bytes : List UInt8) : (pos room : Nat) → List UInt8 → Prop where
  | full {pos : Nat} : Filled bytes pos 0 []
  | ended {pos room : Nat} : bytes.length ≤ pos → Filled bytes pos room (List.replicate room 0)
  | piece {pos room n : Nat} {rest : List UInt8} : 0 < n → n ≤ room → pos + n ≤ bytes.length →
      Filled bytes (pos + n) (room - n) rest →
      Filled bytes pos room ((bytes.drop pos).take n ++ rest)

theorem filled_iff {bytes buffer : List UInt8} {pos room : Nat} :
    Filled bytes pos room buffer ↔ buffer = padded bytes pos room := by
  constructor
  · intro h
    induction h with
    | full => rfl
    | @ended pos room hend => exact (padded_of_ended hend room).symm
    | @piece pos room n rest _ hroom hin _ ih =>
      rw [ih, ← padded_of_le hin]
      exact padded_append bytes pos hroom
  · rintro rfl
    induction room using Nat.strongRecOn generalizing pos with
    | ind room ih =>
      by_cases hend : bytes.length ≤ pos
      · rw [padded_of_ended hend]
        exact .ended hend
      · rcases Nat.eq_zero_or_pos room with rfl | hroom
        · exact .full
        · -- the longest piece that there is
          have hle : min room (bytes.length - pos) ≤ room := Nat.min_le_left _ _
          rw [← padded_append bytes pos hle, padded_of_le (by omega)]
          exact .piece (by omega) hle (by omega) (ih _ (by omega))

end PageStore

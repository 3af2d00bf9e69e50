import PageStore.Page.Image
import Std.Data.TreeMap
import Std.Data.TreeMap.Lemmas

/-!
# PageStore.Disk.File

The content of a file: a length, and the pages that are not all zero. Bytes past the length are
zero, which is kept with the content, so a file that grows shows zeros in the new part and a page
that the file ends in reads as if it were filled up with zeros. `byte_write` and `byte_resize` say
what each change does to every byte.

Page counts are kept in 32 bits (`pageCount`).
-/

namespace PageStore

structure ByteFile where
  length : Nat
  pages : Std.TreeMap Nat Image
  /-- Nothing but zeros past the end. -/
  clean : ∀ n k, length ≤ n * pageSize + k → (pages.getD n Image.blank).get k = 0

namespace ByteFile

def empty : ByteFile where
  length := 0
  pages := ∅
  clean n k _ := by simp [Image.get_blank]

def page (f : ByteFile) (n : Nat) : Image := f.pages.getD n Image.blank

def byte (f : ByteFile) (i : Nat) : UInt8 := (f.page (i / pageSize)).get (i % pageSize)

/-- How many pages the file has, counting one it ends in. -/
def wholeCount (f : ByteFile) : Nat := (f.length + pageSize - 1) / pageSize

/-- The page count in 32 bits. -/
def pageCount (f : ByteFile) : Nat := f.wholeCount % 4294967296

/-- Page `n` if it starts within the file. -/
def read? (f : ByteFile) (n : Nat) : Option Image :=
  if n * pageSize < f.length then some (f.page n) else none

/-- Replaces page `n`; the file grows to hold it. -/
def write (f : ByteFile) (n : Nat) (im : Image) : ByteFile where
  length := max f.length ((n + 1) * pageSize)
  pages := f.pages.insert n im
  clean m k h := by
    rw [Std.TreeMap.getD_insert]
    split
    · rename_i e
      have e : n = m := by simpa using e
      subst e
      exact Image.get_of_le _ (by rw [Nat.add_mul] at h; omega)
    · exact f.clean m k (by omega)

def resize (f : ByteFile) (length : Nat) : ByteFile where
  length := length
  pages := f.pages.map fun n im => im.cut (length - n * pageSize)
  clean n k h := by
    rw [Std.TreeMap.getD_eq_getD_getElem?, Std.TreeMap.getElem?_map]
    cases f.pages[n]? with
    | none => simp [Image.get_blank]
    | some im => simp [Image.get_cut, show ¬ k < length - n * pageSize by omega]

def ofBytes (bytes : List UInt8) : ByteFile :=
  let count := (bytes.length + pageSize - 1) / pageSize
  let whole := (List.range count).foldl
    (fun f n => f.write n (Image.ofBytes ((bytes.drop (n * pageSize)).take pageSize))) empty
  whole.resize bytes.length

def toBytes (f : ByteFile) : List UInt8 :=
  ((List.range f.wholeCount).flatMap fun n => (f.page n).toList).take f.length

theorem page_write (f : ByteFile) (n : Nat) (im : Image) (m : Nat) :
    (f.write n im).page m = if m = n then im else f.page m := by
  simp only [page, write, Std.TreeMap.getD_insert]
  by_cases h : m = n
  · simp [h]
  · have h' : n ≠ m := fun e => h e.symm
    simp [h, h']

theorem get_page_resize (f : ByteFile) (length n k : Nat) :
    ((f.resize length).page n).get k =
      if n * pageSize + k < length then (f.page n).get k else 0 := by
  simp only [page, resize, Std.TreeMap.getD_eq_getD_getElem?, Std.TreeMap.getElem?_map]
  have : n * pageSize + k < length ↔ k < length - n * pageSize := by omega
  cases f.pages[n]? with
  | none => simp [Image.get_blank]
  | some im => simp [Image.get_cut, this]

/-- Nothing but zeros is read past the end. -/
theorem byte_past_end (f : ByteFile) {i : Nat} (h : f.length ≤ i) : f.byte i = 0 :=
  f.clean _ _ (by rw [Nat.div_add_mod']; exact h)

/-- After a write, the page's bytes are the written ones and all others are as before. -/
theorem byte_write (f : ByteFile) (n : Nat) (im : Image) (i : Nat) :
    (f.write n im).byte i = if i / pageSize = n then im.get (i % pageSize) else f.byte i := by
  unfold byte
  rw [page_write]
  split <;> rfl

/-- After a change of length, bytes within it are as before and the others are zero. -/
theorem byte_resize (f : ByteFile) (length i : Nat) :
    (f.resize length).byte i = if i < length then f.byte i else 0 := by
  unfold byte
  rw [get_page_resize, Nat.div_add_mod']

/-- A page can be read exactly if its number is below the count. -/
theorem read?_isSome_iff (f : ByteFile) (n : Nat) : (f.read? n).isSome ↔ n < f.wholeCount := by
  unfold read? wholeCount pageSize
  split <;> simp <;> omega

theorem wholeCount_write (f : ByteFile) (n : Nat) (im : Image) :
    (f.write n im).wholeCount = max f.wholeCount (n + 1) := by
  simp only [wholeCount, write, pageSize]
  omega

end ByteFile
end PageStore

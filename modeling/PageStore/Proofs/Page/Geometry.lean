import Mathlib.Order.Bounds.Defs
import Mathlib.Order.Interval.Finset.Nat
import PageStore.Catalog
import PageStore.Proofs.Disk.Pages
import PageStore.Proofs.Page.Tuples

/-!
# PageStore.Proofs.Page.Geometry

How a page is divided, and that nothing is read or written outside of it.

* `Divided w`: in a page for tuples of width `w`, the bitmap and the slots lie inside the page and
  apart from each other (`divided`).
* `isGreatest_slotsPerPage`: no more slots would fit. The number is computed in bits and rounded
  down, the bitmap is measured in bytes and rounded up, and both come to the same.
* `Page.Checked`: the operations on a page with every access checked against its bounds. They never
  fail for leaving the page, and answer what the operations answer (`Page.InBounds`).

`slot_geometry` puts these together, with the tables that are refused as exactly those whose pages
would have no slot.
-/

namespace PageStore

section Division

variable {w i j n : Nat}

/-- The bytes of the slot bitmap. -/
def headerBytes (w : Nat) : Finset Nat := Finset.range (headerSize (slotsPerPage w))

/-- The bytes of a slot. -/
def bytesOfSlot (w slot : Nat) : Finset Nat :=
  Finset.Ico (slotOffset w slot) (slotOffset w slot + w)

/-- The bitmap and the slots of a page lie inside the page, apart from each other, and the bitmap
has a bit for every slot. -/
structure Divided (w : Nat) : Prop where
  header_inside : headerBytes w ⊆ Finset.range pageSize
  bit_in_header : ∀ i < slotsPerPage w, i / 8 ∈ headerBytes w
  slot_inside : ∀ i < slotsPerPage w, bytesOfSlot w i ⊆ Finset.range pageSize
  header_apart : ∀ i < slotsPerPage w, Disjoint (headerBytes w) (bytesOfSlot w i)
  slots_apart : ∀ i < slotsPerPage w, ∀ j < slotsPerPage w, i ≠ j →
    Disjoint (bytesOfSlot w i) (bytesOfSlot w j)

/-- A slot ends before the later ones begin. -/
theorem slotOffset_add_le_of_lt (h : i < j) : slotOffset w i + w ≤ slotOffset w j := by
  have hmul := Nat.mul_le_mul_right w (Nat.succ_le_of_lt h)
  rw [Nat.succ_mul] at hmul
  unfold slotOffset
  omega

theorem divided (w : Nat) : Divided w where
  header_inside := by
    have hfits := header_slots_le w
    exact Finset.range_subset_range.2 (by omega)
  bit_in_header := by
    intro i hi
    exact Finset.mem_range.2 (header_covers hi)
  slot_inside := by
    intro i hi b hb
    have hfits := slotOffset_add_le hi
    have hend := (Finset.mem_Ico.1 hb).2
    exact Finset.mem_range.2 (by omega)
  header_apart := by
    intro i _
    have hle := Image.header_le_offset w i
    rw [Finset.disjoint_left]
    intro b hb hb'
    have hheader := Finset.mem_range.1 hb
    have hslot := (Finset.mem_Ico.1 hb').1
    omega
  slots_apart := by
    intro i _ j _ hij
    rw [Finset.disjoint_left]
    intro b hb hb'
    obtain ⟨hfirst, hlast⟩ := Finset.mem_Ico.1 hb
    obtain ⟨hfirst', hlast'⟩ := Finset.mem_Ico.1 hb'
    rcases Nat.lt_or_gt_of_ne hij with h | h
    · have := slotOffset_add_le_of_lt (w := w) h
      omega
    · have := slotOffset_add_le_of_lt (w := w) h
      omega

/-- As many slots as a page has fit into it with their bitmap, and no more. -/
theorem isGreatest_slotsPerPage (w : Nat) :
    IsGreatest {n | headerSize n + n * w ≤ pageSize} (slotsPerPage w) := by
  constructor
  · exact header_slots_le w
  · intro n hn
    have hn : headerSize n + n * w ≤ pageSize := hn
    -- the bitmap has a bit for each slot, so its bytes are never fewer than the bits need
    have hbits : n ≤ 8 * headerSize n := by
      unfold headerSize
      omega
    unfold slotsPerPage
    rw [Nat.le_div_iff_mul_le (Nat.succ_pos _)]
    calc n * (w * 8 + 1) = 8 * (n * w) + n := by
          rw [Nat.mul_add, Nat.mul_one, ← Nat.mul_assoc, Nat.mul_comm (n * w) 8]
      _ ≤ 8 * (n * w) + 8 * headerSize n := Nat.add_le_add_left hbits _
      _ ≤ pageSize * 8 := by omega

theorem narrow_of_lt (h : i < slotsPerPage w) : RecordId.narrow i = i := by
  have hlt := slot_lt h
  exact Nat.mod_eq_of_lt (by omega)

end Division

/-! ## Accesses that are checked -/

namespace Image

variable {im : Image} {i offset n : Nat} {bytes : List UInt8}

/-- Byte `i`. There is none outside of the page. -/
def byte? (im : Image) (i : Nat) : Option UInt8 := im.bytes[i]?

def bit? (im : Image) (i : Nat) : Option Bool :=
  (im.byte? (i / 8)).map fun b => Bits.bit b (i % 8)

def putBit? (im : Image) (i : Nat) (on : Bool) : Option Image :=
  (im.byte? (i / 8)).map fun b => im.set (i / 8) (Bits.put b (i % 8) on)

/-- `n` bytes from `offset` on, if the page has them all. -/
def span? (im : Image) (offset n : Nat) : Option (List UInt8) :=
  if offset + n ≤ im.toList.length then some ((im.toList.drop offset).take n) else none

/-- Puts bytes at `offset`, if the page has room for them all. -/
def splice? (im : Image) (offset : Nat) (bytes : List UInt8) : Option Image :=
  if offset + bytes.length ≤ im.toList.length then some (im.patch offset bytes) else none

theorem byte?_eq_some (h : i < pageSize) : im.byte? i = some (im.get i) := by
  rw [get_of_lt im h]
  exact Vector.getElem?_eq_getElem h

theorem bit?_eq_some (h : i / 8 < pageSize) : im.bit? i = some (im.bit i) := by
  rw [bit?, byte?_eq_some h]
  rfl

theorem putBit?_eq_some (h : i / 8 < pageSize) (on : Bool) :
    im.putBit? i on = some (im.putBit i on) := by
  rw [putBit?, byte?_eq_some h]
  rfl

theorem span?_eq_some (h : offset + n ≤ pageSize) : im.span? offset n = some (im.window offset n) := by
  rw [span?, im.length_toList, if_pos h, Option.some.injEq]
  unfold window
  refine List.ext_getElem ?_ ?_
  · rw [List.length_take, List.length_drop, im.length_toList, List.length_map, List.length_range]
    omega
  · intro k _ _
    rw [List.getElem_take, List.getElem_drop, List.getElem_map, List.getElem_range,
      ← List.getD_eq_getElem _ 0, getD_toList]

theorem splice?_eq_some (h : offset + bytes.length ≤ pageSize) :
    im.splice? offset bytes = some (im.patch offset bytes) := by
  rw [splice?, im.length_toList, if_pos h]

end Image

section Checks

variable {α β : Type} {xs : List α}

/-- A search through elements whose checks succeed. -/
theorem findM?_eq_some {f : α → Option Bool} {g : α → Bool} (h : ∀ x ∈ xs, f x = some (g x)) :
    xs.findM? f = some (xs.find? g) := by
  induction xs with
  | nil => rfl
  | cons x xs ih =>
    have hrest := ih fun y hy => h y (List.mem_cons_of_mem _ hy)
    unfold List.findM? List.find?
    rw [h x List.mem_cons_self]
    cases hg : g x with
    | true => rfl
    | false => exact hrest

theorem mapM_eq_some {f : α → Option β} {g : α → β} (h : ∀ x ∈ xs, f x = some (g x)) :
    xs.mapM f = some (xs.map g) := by
  induction xs with
  | nil => rfl
  | cons x xs ih =>
    have hrest := ih fun y hy => h y (List.mem_cons_of_mem _ hy)
    rw [List.mapM_cons, h x List.mem_cons_self, hrest]
    rfl

end Checks

namespace Page

namespace Checked

/-- Whether a slot holds a tuple. -/
def isUsed (p : Page) (slot : Nat) : Option Bool :=
  if slot < p.slots then p.image.bit? slot else some false

def emptyCount (p : Page) : Option Nat :=
  ((List.range p.slots).mapM (isUsed p)).map fun used => used.countP (!·)

def firstFree (p : Page) : Option (Option Nat) :=
  (List.range p.slots).findM? fun i => (isUsed p i).map (!·)

def insert (p : Page) (t : Tuple) : Option (Page × Except Error Tuple) :=
  if t.schema ≠ p.schema then some (p, .error (.schemaMismatch (.pageSchema p.id)))
  else
    (firstFree p).bind fun free =>
      match free with
      | none => some (p, .error (.pageFull p.id))
      | some slot =>
        (p.image.span? (slotOffset p.schema.width slot) p.schema.width).bind fun out =>
          (p.image.splice? (slotOffset p.schema.width slot) (t.writeTo out).1).bind fun image =>
            match (t.writeTo out).2 with
            | .error e => some ({ p with image }, .error e)
            | .ok () =>
              (image.putBit? slot true).map fun image =>
                ({ p with image }, .ok { t with record := some (p.recordAt slot) })

def delete (p : Page) (t : Tuple) : Option (Except Error Page) :=
  match t.record with
  | none => some (.error .missingRecordId)
  | some r =>
    if r.page ≠ p.id then some (.error (.recordNotOnPage r p.id))
    else if p.slots ≤ r.slot then some (.error (.invalidSlot r.slot))
    else
      (isUsed p r.slot).bind fun used =>
        if !used then some (.error (.emptySlot r.slot))
        else (p.image.putBit? r.slot false).map fun image => .ok { p with image }

def tuple (p : Page) (slot : Nat) : Option (Except Error Tuple) :=
  if p.slots ≤ slot then some (.error (.invalidSlot (RecordId.narrow slot)))
  else
    (isUsed p slot).bind fun used =>
      if !used then some (.error (.emptySlot (RecordId.narrow slot)))
      else
        (p.image.span? (slotOffset p.schema.width slot) p.schema.width).map fun bytes =>
          (Tuple.decode p.schema bytes).map fun t => { t with record := some (p.recordAt slot) }

/-- The tuple of a slot in use, and nothing for a free slot. -/
def slotTuple (p : Page) (slot : Nat) : Option (Option (Except Error Tuple)) :=
  (isUsed p slot).bind fun used => if used then (tuple p slot).map some else some none

def tuples (p : Page) : Option (Except Error (List Tuple)) :=
  ((List.range p.slots).mapM (slotTuple p)).map fun found => (found.filterMap fun o => o).mapM fun r => r

end Checked

/-- No operation on the page leaves it, and with checks they answer what they answer without. -/
structure InBounds (p : Page) : Prop where
  isUsed : ∀ slot, Checked.isUsed p slot = some (p.isUsed slot)
  emptyCount : Checked.emptyCount p = some p.emptyCount
  insert : ∀ t, Checked.insert p t = some (p.insert t)
  delete : ∀ t, Checked.delete p t = some (p.delete t)
  tuple : ∀ slot, Checked.tuple p slot = some (p.tuple slot)
  tuples : Checked.tuples p = some p.tuples

variable {p : Page} {slot : Nat}

theorem checked_bit (h : slot < p.slots) : Checked.isUsed p slot = some (p.image.bit slot) := by
  rw [Checked.isUsed, if_pos h]
  exact Image.bit?_eq_some (Image.bit_lt_page h)

theorem checked_isUsed (p : Page) (slot : Nat) :
    Checked.isUsed p slot = some (p.isUsed slot) := by
  by_cases h : slot < p.slots
  · rw [checked_bit h]
    simp [isUsed, h]
  · simp [Checked.isUsed, isUsed, h]

theorem checked_firstFree (p : Page) : Checked.firstFree p = some p.firstFree? := by
  refine findM?_eq_some ?_
  intro i hi
  rw [checked_bit (List.mem_range.1 hi)]
  rfl

theorem checked_emptyCount (p : Page) : Checked.emptyCount p = some p.emptyCount := by
  have hall : ∀ i ∈ List.range p.slots, Checked.isUsed p i = some (p.image.bit i) := by
    intro i hi
    exact checked_bit (List.mem_range.1 hi)
  rw [Checked.emptyCount, mapM_eq_some hall, Option.map_some, List.countP_map]
  rfl

theorem checked_slotBytes (h : slot < p.slots) :
    p.image.span? (slotOffset p.schema.width slot) p.schema.width = some (p.slotBytes slot) :=
  Image.span?_eq_some (slotOffset_add_le h)

theorem checked_insert (p : Page) (t : Tuple) : Checked.insert p t = some (p.insert t) := by
  unfold Checked.insert insert
  by_cases hschema : t.schema ≠ p.schema
  · rw [if_pos hschema, if_pos hschema]
  · rw [if_neg hschema, if_neg hschema, checked_firstFree, Option.bind_some]
    cases hfree : p.firstFree? with
    | none => rfl
    | some slot =>
      have hslot : slot < p.slots := (firstFree?_eq_some hfree).1
      have hlen : (t.writeTo (p.slotBytes slot)).1.length = p.schema.width :=
        (t.length_writeTo _).trans (p.length_slotBytes slot)
      have hroom : slotOffset p.schema.width slot + (t.writeTo (p.slotBytes slot)).1.length ≤
          pageSize := by
        rw [hlen]
        exact slotOffset_add_le hslot
      dsimp only
      rw [checked_slotBytes hslot, Option.bind_some, Image.splice?_eq_some hroom, Option.bind_some]
      cases (t.writeTo (p.slotBytes slot)).2 with
      | error e => rfl
      | ok u =>
        dsimp only
        rw [Image.putBit?_eq_some (Image.bit_lt_page hslot)]
        rfl

theorem checked_delete (p : Page) (t : Tuple) : Checked.delete p t = some (p.delete t) := by
  unfold Checked.delete delete
  cases t.record with
  | none => rfl
  | some r =>
    dsimp only
    by_cases hpage : r.page ≠ p.id
    · rw [if_pos hpage, if_pos hpage]
    · rw [if_neg hpage, if_neg hpage]
      by_cases hout : p.slots ≤ r.slot
      · rw [if_pos hout, if_pos hout]
      · have hslot : r.slot < p.slots := Nat.lt_of_not_le hout
        rw [if_neg hout, if_neg hout, checked_bit hslot, Option.bind_some]
        cases p.image.bit r.slot with
        | false => rfl
        | true =>
          have hput : p.image.putBit? r.slot false = some (p.image.putBit r.slot false) :=
            Image.putBit?_eq_some (Image.bit_lt_page hslot) false
          show (p.image.putBit? r.slot false).map _ = _
          rw [hput]
          rfl

theorem checked_tuple (p : Page) (slot : Nat) : Checked.tuple p slot = some (p.tuple slot) := by
  unfold Checked.tuple tuple
  by_cases hout : p.slots ≤ slot
  · rw [if_pos hout, if_pos hout]
  · have hslot : slot < p.slots := Nat.lt_of_not_le hout
    rw [if_neg hout, if_neg hout, checked_bit hslot, Option.bind_some]
    cases p.image.bit slot with
    | false => rfl
    | true =>
      show (p.image.span? _ _).map _ = _
      rw [checked_slotBytes hslot]
      show some ((Tuple.decode p.schema (p.slotBytes slot)).map _) = some _
      cases Tuple.decode p.schema (p.slotBytes slot) <;> rfl

theorem checked_tuples (p : Page) : Checked.tuples p = some p.tuples := by
  have hall : ∀ i ∈ List.range p.slots, Checked.slotTuple p i =
      some (if p.image.bit i then some (p.tuple i) else none) := by
    intro i hi
    rw [Checked.slotTuple, checked_bit (List.mem_range.1 hi), checked_tuple, Option.bind_some]
    cases p.image.bit i <;> rfl
  have hused : ((List.range p.slots).map fun i =>
      if p.image.bit i then some (p.tuple i) else none).filterMap (fun o => o) =
        p.usedSlots.map p.tuple := by
    rw [List.filterMap_map, usedSlots, ← List.filterMap_eq_map, ← List.filterMap_eq_filter,
      List.filterMap_filterMap]
    refine List.filterMap_congr ?_
    intro i _
    cases hbit : p.image.bit i <;> simp [hbit, Option.guard]
  rw [Checked.tuples, mapM_eq_some hall, Option.map_some, hused, List.mapM_map]
  rfl

theorem inBounds (p : Page) : p.InBounds where
  isUsed := checked_isUsed p
  emptyCount := checked_emptyCount p
  insert := checked_insert p
  delete := checked_delete p
  tuple := checked_tuple p
  tuples := checked_tuples p

theorem ofImage_eq_error_iff {id : PageId} {schema : Schema} {image : Image} {e : Error} :
    ofImage id schema image = .error e ↔
      pageSize ≤ schema.width ∧ e = .tupleTooLarge schema.width := by
  rw [← slotsPerPage_eq_zero_iff]
  unfold ofImage
  by_cases h : 0 < slotsPerPage schema.width
  · rw [dif_pos h]
    constructor
    · intro hno
      cases hno
    · intro hno
      omega
  · rw [dif_neg h, Except.error.injEq]
    constructor
    · intro he
      exact ⟨by omega, he.symm⟩
    · intro he
      exact he.2.symm

end Page

/-- A table under a free name is refused for the width of its tuples if its pages had no slot. -/
theorem Catalog.create_tooLarge_iff {c : Catalog} {v : Volume} {name path : String} {schema : Schema}
    {n : Nat} (hname : c.idOf? name = none) :
    c.create v name path schema = .error (.tupleTooLarge n) ↔
      pageSize ≤ schema.width ∧ n = schema.width := by
  rw [← slotsPerPage_eq_zero_iff]
  unfold create
  rw [hname, if_neg (by simp)]
  by_cases h : slotsPerPage schema.width = 0
  · rw [if_pos h, Except.error.injEq, Error.tupleTooLarge.injEq]
    constructor
    · intro hn
      exact ⟨h, hn.symm⟩
    · intro hn
      exact hn.2.symm
  · rw [if_neg h]
    constructor
    · intro hno
      cases hopen : PageFile.openAt v path with
      | error e =>
        rw [hopen] at hno
        cases hno
      | ok r =>
        rw [hopen] at hno
        cases hno
    · intro hno
      exact absurd hno.1 h

/-- The bitmap and the slots of a page lie inside the page and apart from each other, and no
operation on a page leaves it. The page has as many slots as fit, their numbers are kept whole in
record ids, and there is none just if a tuple is as large as the page. Then, and only then, pages are
refused, and tables are. -/
theorem slot_geometry (w : Nat) :
    Divided w ∧
    IsGreatest {n | headerSize n + n * w ≤ pageSize} (slotsPerPage w) ∧
    (∀ i < slotsPerPage w, RecordId.narrow i = i) ∧
    (slotsPerPage w = 0 ↔ pageSize ≤ w) ∧
    (∀ p : Page, p.schema.width = w → p.InBounds) ∧
    ∀ schema : Schema, schema.width = w →
      (∀ id image e, Page.ofImage id schema image = .error e ↔
        slotsPerPage w = 0 ∧ e = .tupleTooLarge w) ∧
      ∀ (c : Catalog) v name path n, c.idOf? name = none →
        (c.create v name path schema = .error (.tupleTooLarge n) ↔
          slotsPerPage w = 0 ∧ n = w) := by
  refine ⟨divided w, isGreatest_slotsPerPage w, fun i => narrow_of_lt, slotsPerPage_eq_zero_iff w,
    fun p _ => p.inBounds, ?_⟩
  rintro schema rfl
  constructor
  · intro id image e
    rw [slotsPerPage_eq_zero_iff]
    exact Page.ofImage_eq_error_iff
  · intro c v name path n hname
    rw [slotsPerPage_eq_zero_iff]
    exact Catalog.create_tooLarge_iff hname

/-- A page with one slot, which ends where the page ends. -/
def brimful : Page where
  id := ⟨⟨0⟩, 0⟩
  schema := ⟨[⟨"c", .char 4094, false⟩]⟩
  image := Image.blank
  holds_one := by decide

/-- Tuples as large as a page. -/
def pageWide : Schema := ⟨[⟨"c", .char 4095, false⟩]⟩

/-- The slot numbers reach as far as for tuples of no bytes, the widths as far as one byte less than
the page. -/
theorem geometry_at_bounds :
    (32767 < slotsPerPage 0 ∧ RecordId.narrow 32767 = 32767) ∧
    (brimful.schema.width = 4095 ∧ brimful.InBounds) ∧
    (0 < slotsPerPage 4095 ∧ bytesOfSlot 4095 0 ⊆ Finset.range pageSize) ∧
    pageWide.width = 4096 ∧
    Page.ofImage ⟨⟨0⟩, 0⟩ pageWide Image.blank = .error (.tupleTooLarge 4096) ∧
    (({} : Catalog).idOf? "t" = none ∧
      ({} : Catalog).create ⟨∅, [], false⟩ "t" "t.dat" pageWide = .error (.tupleTooLarge 4096)) := by
  have hlast : 32767 < slotsPerPage 0 := by decide
  have hone : 0 < slotsPerPage 4095 := by decide
  have hnone : slotsPerPage 4096 = 0 := by decide
  obtain ⟨_, _, hwhole, _⟩ := slot_geometry 0
  obtain ⟨hdivided, _, _, _, hbounds, _⟩ := slot_geometry 4095
  obtain ⟨_, _, _, _, _, hrefused⟩ := slot_geometry 4096
  obtain ⟨hpage, htable⟩ := hrefused pageWide (by decide)
  exact ⟨⟨hlast, hwhole 32767 hlast⟩, ⟨by decide, hbounds brimful (by decide)⟩,
    ⟨hone, hdivided.slot_inside 0 hone⟩, by decide, (hpage _ _ _).2 ⟨hnone, rfl⟩, rfl,
    (htable {} ⟨∅, [], false⟩ "t" "t.dat" 4096 rfl).2 ⟨hnone, rfl⟩⟩

end PageStore

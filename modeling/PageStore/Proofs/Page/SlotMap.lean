import Mathlib.Data.List.Count
import Mathlib.Data.List.Find
import PageStore.Proofs.Disk.Pages
import PageStore.Proofs.Page.Tuples

/-!
# PageStore.Proofs.Page.SlotMap

A page as a map from slots to tuples. `SlotMap` is that map with the edits of a page and their
answers, and knows of no bytes. `Page.map_edit` is the step: editing a page and looking at it is
looking at it and editing the map, with the same answer. A sequence of edits follows by induction
(`map_after`, `answers_map`).

What a map cannot say is in `Page.KeepsSlots`: which bits and bytes an edit leaves alone. A tuple
that goes in touches its own bit and its own bytes (`AlikeBut`), a deletion touches one bit, and an
edit that fails touches the bytes of a free slot at most.
-/

namespace PageStore

/-- What can be done to a page. To rebuild it is to make it anew from its own bytes. -/
inductive Page.Edit where
  | insert (t : Tuple)
  | delete (t : Tuple)
  | mark (dirtier : Option TxnId)
  | rebuild

/-- The tuples of a page by slot. -/
structure SlotMap where
  id : PageId
  schema : Schema
  entry : Nat → Option Tuple

namespace SlotMap

def slots (m : SlotMap) : Nat := slotsPerPage m.schema.width

def put (m : SlotMap) (slot : Nat) (entry : Option Tuple) : SlotMap :=
  { m with entry := Function.update m.entry slot entry }

def firstFree? (m : SlotMap) : Option Nat :=
  (List.range m.slots).find? fun slot => (m.entry slot).isNone

/-- Enters a tuple, as it is read back, under the lowest slot without an entry. -/
def insert (m : SlotMap) (t : Tuple) : SlotMap × Except Error (Option Tuple) :=
  if t.schema ≠ m.schema then (m, .error (.schemaMismatch (.pageSchema m.id)))
  else
    match m.firstFree?, t.encode with
    | none, _ => (m, .error (.pageFull m.id))
    | some _, .error e => (m, .error e)
    | some slot, .ok _ =>
      (m.put slot (some (t.readBack ⟨m.id, slot⟩)),
        .ok (some { t with record := some ⟨m.id, slot⟩ }))

/-- Removes the entry under the slot that a tuple's record names. -/
def delete (m : SlotMap) (t : Tuple) : SlotMap × Except Error (Option Tuple) :=
  match t.record with
  | none => (m, .error .missingRecordId)
  | some r =>
    if r.page ≠ m.id then (m, .error (.recordNotOnPage r m.id))
    else if m.slots ≤ r.slot then (m, .error (.invalidSlot r.slot))
    else if (m.entry r.slot).isNone then (m, .error (.emptySlot r.slot))
    else (m.put r.slot none, .ok none)

def edit (m : SlotMap) : Page.Edit → SlotMap × Except Error (Option Tuple)
  | .insert t => m.insert t
  | .delete t => m.delete t
  | .mark _ | .rebuild => (m, .ok none)

/-- The map after edits made one after the other. -/
def after (m : SlotMap) : List Page.Edit → SlotMap
  | [] => m
  | e :: es => (m.edit e).1.after es

/-- The answers to edits made one after the other. -/
def answers (m : SlotMap) : List Page.Edit → List (Except Error (Option Tuple))
  | [] => []
  | e :: es => (m.edit e).2 :: (m.edit e).1.answers es

end SlotMap

/-- The bytes of an image make that image. -/
theorem Image.ofBytes?_toList (im : Image) : ofBytes? im.toList = some im := by
  have hlen := im.length_toList
  rw [ofBytes?, if_pos hlen]
  refine congrArg some (ext_get fun i _ => ?_)
  rw [get_ofBytes (Nat.le_of_eq hlen), getD_toList]

namespace Tuple

variable {t : Tuple} {e : Error} {out : List UInt8}

/-- Whether a tuple can be written, and why not, depends on the place only by its length. -/
theorem writeTo_snd (h : t.schema.width ≤ out.length) :
    (t.writeTo out).2 = t.encode.map fun _ => () := by
  have hzero : (List.replicate t.schema.width (0 : UInt8)).length = t.schema.width := by simp
  unfold encode writeTo
  dsimp only
  rw [if_neg (by omega), if_neg (by omega)]
  cases t.written.fault <;> rfl

theorem encode_error (h : t.encode = .error e) : ∃ cause, e = .schemaMismatch cause := by
  have hzero : (List.replicate t.schema.width (0 : UInt8)).length = t.schema.width := by simp
  unfold encode writeTo at h
  dsimp only at h
  rw [if_neg (by omega)] at h
  cases hf : t.written.fault with
  | none =>
    rw [hf] at h
    cases h
  | some cause =>
    rw [hf] at h
    cases h
    exact ⟨cause, rfl⟩

end Tuple

namespace Page

variable {p q : Page} {t t' : Tuple} {slot : Nat} {bytes : List UInt8}

/-- The page as a map. -/
def map (p : Page) : SlotMap := ⟨p.id, p.schema, p.content⟩

def edit (p : Page) : Edit → Page × Except Error (Option Tuple)
  | .insert t => ((p.insert t).1, (p.insert t).2.map some)
  | .delete t =>
    match p.delete t with
    | .error e => (p, .error e)
    | .ok q => (q, .ok none)
  | .mark dirtier => (p.mark dirtier, .ok none)
  | .rebuild => (p.reread, .ok none)

/-- The page after edits made one after the other. -/
def after (p : Page) : List Edit → Page
  | [] => p
  | e :: es => (p.edit e).1.after es

/-- The answers to edits made one after the other. -/
def answers (p : Page) : List Edit → List (Except Error (Option Tuple))
  | [] => []
  | e :: es => (p.edit e).2 :: (p.edit e).1.answers es

/-! ## Slots and their bits -/

theorem isUsed_of_lt (h : slot < p.slots) : p.isUsed slot = p.image.bit slot := by
  simp [isUsed, h]

/-- The first free slot is the lowest one whose bit is clear. -/
theorem firstFree?_eq_some_iff :
    p.firstFree? = some slot ↔
      slot < p.slots ∧ p.isUsed slot = false ∧ ∀ i < slot, p.isUsed i = true := by
  unfold firstFree?
  rw [List.find?_range_eq_some]
  constructor
  · rintro ⟨hbit, hin, hlower⟩
    have hlt : slot < p.slots := List.mem_range.1 hin
    refine ⟨hlt, ?_, fun i hi => ?_⟩
    · simpa [isUsed_of_lt hlt] using hbit
    · rw [isUsed_of_lt (by omega)]
      simpa using hlower i hi
  · rintro ⟨hlt, hfree, hlower⟩
    refine ⟨?_, List.mem_range.2 hlt, fun i hi => ?_⟩
    · simpa [isUsed_of_lt hlt] using hfree
    · have hused := hlower i hi
      rw [isUsed_of_lt (by omega)] at hused
      simpa using hused

theorem firstFree?_eq_none_iff : p.firstFree? = none ↔ ∀ i < p.slots, p.isUsed i = true := by
  unfold firstFree?
  rw [List.find?_eq_none]
  constructor
  · intro h i hi
    rw [isUsed_of_lt hi]
    simpa using h i (List.mem_range.2 hi)
  · intro h i hi
    have hused := h i (List.mem_range.1 hi)
    rw [isUsed_of_lt (List.mem_range.1 hi)] at hused
    simpa using hused

theorem entry_map (p : Page) (slot : Nat) : (p.map.entry slot).isNone = !p.isUsed slot := by
  rw [isUsed_eq_isSome, Option.not_isSome]
  rfl

theorem firstFree?_map (p : Page) : p.map.firstFree? = p.firstFree? := by
  unfold SlotMap.firstFree? firstFree?
  refine List.find?_congr fun slot hslot => ?_
  rw [entry_map, isUsed_of_lt (List.mem_range.1 hslot)]

/-- Free slots and slots in use make up the slots. -/
theorem emptyCount_add (p : Page) : p.emptyCount + p.usedSlots.length = p.slots := by
  have hall := List.length_eq_countP_add_countP p.image.bit (l := List.range p.slots)
  simp only [List.length_range, Bool.not_eq_true, Bool.decide_eq_false] at hall
  unfold emptyCount usedSlots
  rw [← List.countP_eq_length_filter]
  omega

theorem length_tuples {us : List Tuple} (h : p.tuples = .ok us) :
    us.length = p.usedSlots.length := by
  have hlen := congrArg List.length (tuples_eq_ok h)
  simpa using hlen

/-! ## What an edit leaves alone -/

/-- A page differs from another in one slot at most: in the slot's bit and the slot's bytes. -/
structure AlikeBut (slot : Nat) (p q : Page) : Prop where
  /-- Bits of the bitmap, those to spare at its end included. -/
  bits : ∀ i, i / 8 < headerSize p.slots → i ≠ slot → q.image.bit i = p.image.bit i
  bytes : ∀ i, i ≠ slot → q.slotBytes i = p.slotBytes i
  padding : ∀ k, headerSize p.slots + p.slots * p.schema.width ≤ k → q.image.get k = p.image.get k

/-- A page has the bits of another, and the bytes of the slots in use. -/
structure Unharmed (p q : Page) : Prop where
  bits : ∀ i, i / 8 < headerSize p.slots → q.image.bit i = p.image.bit i
  bytes : ∀ i, p.isUsed i = true → q.slotBytes i = p.slotBytes i

theorem unharmed_refl (p : Page) : p.Unharmed p := ⟨fun _ _ => rfl, fun _ _ => rfl⟩

/-- The page with bytes over the bytes of a slot. -/
def overwrite (p : Page) (slot : Nat) (bytes : List UInt8) : Page :=
  { p with image := p.image.patch (slotOffset p.schema.width slot) bytes }

/-- The page with the bit of a slot put. -/
def putUsed (p : Page) (slot : Nat) (on : Bool) : Page :=
  { p with image := p.image.putBit slot on }

theorem bit_overwrite (hs : slot < p.slots) (hb : bytes.length = p.schema.width) {i : Nat}
    (hi : i / 8 < headerSize p.slots) : (p.overwrite slot bytes).image.bit i = p.image.bit i := by
  have hfits : slotOffset p.schema.width slot + p.schema.width ≤ pageSize := slotOffset_add_le hs
  have hbehind : headerSize p.slots ≤ slotOffset p.schema.width slot :=
    Image.header_le_offset p.schema.width slot
  unfold overwrite Image.bit
  rw [Image.patch_get _ _ _ (by omega), if_neg (by omega)]

theorem overwrite_alike (hs : slot < p.slots) (hb : bytes.length = p.schema.width) :
    AlikeBut slot p (p.overwrite slot bytes) where
  bits _ hi _ := bit_overwrite hs hb hi
  bytes _ hne := Image.window_patch_other hs hb hne
  padding k hk := by
    have hfits : slotOffset p.schema.width slot + p.schema.width ≤ pageSize := slotOffset_add_le hs
    have hrow : (slot + 1) * p.schema.width ≤ p.slots * p.schema.width :=
      Nat.mul_le_mul_right _ hs
    have hend : slotOffset p.schema.width slot + bytes.length ≤ k := by
      rw [Nat.succ_mul] at hrow
      unfold slotOffset
      unfold slots at hk hrow
      omega
    unfold overwrite
    rw [Image.patch_get _ _ _ (by omega), if_neg (by omega)]

theorem overwrite_unharmed (hs : slot < p.slots) (hfree : p.isUsed slot = false)
    (hb : bytes.length = p.schema.width) : p.Unharmed (p.overwrite slot bytes) where
  bits _ hi := bit_overwrite hs hb hi
  bytes i hi := by
    refine Image.window_patch_other hs hb ?_
    rintro rfl
    rw [hfree] at hi
    cases hi

/-- Putting the bit of a slot changes no other bit of the page. -/
theorem bit_putUsed (hs : slot < p.slots) (on : Bool) (i : Nat) :
    (p.putUsed slot on).image.bit i = if i = slot then on else p.image.bit i :=
  Image.bit_putBit p.image (Image.bit_lt_page hs) on i

theorem AlikeBut.putUsed (h : AlikeBut slot p q) (hschema : q.schema = p.schema)
    (hs : slot < p.slots) (on : Bool) : AlikeBut slot p (q.putUsed slot on) := by
  have hq : slot < q.slots := by
    unfold slots at hs ⊢
    rwa [hschema]
  have hcover : slot / 8 < headerSize p.slots := header_covers hs
  refine ⟨fun i hi hne => ?_, fun i hne => ?_, fun k hk => ?_⟩
  · rw [bit_putUsed hq, if_neg hne, h.bits i hi hne]
  · rw [← h.bytes i hne]
    exact Image.window_putBit hq on i
  · rw [← h.padding k hk]
    exact Image.get_putBit q.image (Image.bit_lt_page hq) on (by omega)

/-! ## What the edits do -/

/-- An insertion either refuses the tuple, or fails in writing it over the lowest free slot, or
writes it there and sets the slot's bit. -/
inductive Inserts (p : Page) (t : Tuple) : Page × Except Error Tuple → Prop where
  | alien (h : t.schema ≠ p.schema) :
      Inserts p t (p, .error (.schemaMismatch (.pageSchema p.id)))
  | full (h : t.schema = p.schema) (hfull : p.firstFree? = none) :
      Inserts p t (p, .error (.pageFull p.id))
  | misfit {slot : Nat} {bytes : List UInt8} {e : Error} (h : t.schema = p.schema)
      (hfree : p.firstFree? = some slot) (hb : bytes.length = p.schema.width)
      (he : t.encode = .error e) : Inserts p t (p.overwrite slot bytes, .error e)
  | placed {slot : Nat} {bytes : List UInt8} (h : t.schema = p.schema)
      (hfree : p.firstFree? = some slot) (hb : bytes.length = p.schema.width)
      (he : t.encode = .ok bytes) :
      Inserts p t ((p.overwrite slot bytes).putUsed slot true,
        .ok { t with record := some ⟨p.id, slot⟩ })

theorem insert_inserts (p : Page) (t : Tuple) : p.Inserts t (p.insert t) := by
  unfold insert
  by_cases hschema : t.schema ≠ p.schema
  · rw [if_pos hschema]
    exact .alien hschema
  · rw [if_neg hschema]
    have hschema : t.schema = p.schema := not_not.1 hschema
    cases hfree : p.firstFree? with
    | none => exact .full hschema hfree
    | some slot =>
      have hout : (p.slotBytes slot).length = t.schema.width := by
        rw [hschema]
        exact p.length_slotBytes slot
      have hlen := (t.length_writeTo (p.slotBytes slot)).trans (p.length_slotBytes slot)
      have hresult := Tuple.writeTo_snd (Nat.le_of_eq hout.symm)
      dsimp only
      generalize hw : t.writeTo (p.slotBytes slot) = r at hlen hresult ⊢
      obtain ⟨bytes, result⟩ := r
      cases result with
      | error e =>
        refine .misfit hschema hfree hlen ?_
        cases he : t.encode with
        | error e' =>
          rw [he] at hresult
          cases hresult
          rfl
        | ok b =>
          rw [he] at hresult
          cases hresult
      | ok u =>
        rw [recordAt_eq (firstFree?_eq_some_iff.1 hfree).1]
        exact .placed hschema hfree hlen (Tuple.encode_of_writeTo hout hw)

theorem insert_eq_ok (h : p.insert t = (q, .ok t')) :
    ∃ slot bytes, p.firstFree? = some slot ∧ t.schema = p.schema ∧
      bytes.length = p.schema.width ∧ t.encode = .ok bytes ∧
      q = (p.overwrite slot bytes).putUsed slot true ∧
      t' = { t with record := some ⟨p.id, slot⟩ } := by
  have hi := p.insert_inserts t
  rw [h] at hi
  cases hi with
  | placed hschema hfree hb he => exact ⟨_, _, hfree, hschema, hb, he, rfl, rfl⟩

/-- A deletion either refuses the record or clears the bit of its slot. -/
inductive Deletes (p : Page) (t : Tuple) : Except Error Page → Prop where
  | unplaced (h : t.record = none) : Deletes p t (.error .missingRecordId)
  | elsewhere {r : RecordId} (h : t.record = some r) (hpage : r.page ≠ p.id) :
      Deletes p t (.error (.recordNotOnPage r p.id))
  | outside {r : RecordId} (h : t.record = some r) (hpage : r.page = p.id)
      (hs : p.slots ≤ r.slot) : Deletes p t (.error (.invalidSlot r.slot))
  | free {r : RecordId} (h : t.record = some r) (hpage : r.page = p.id) (hs : r.slot < p.slots)
      (hclear : p.isUsed r.slot = false) : Deletes p t (.error (.emptySlot r.slot))
  | cleared {r : RecordId} (h : t.record = some r) (hpage : r.page = p.id) (hs : r.slot < p.slots)
      (hused : p.isUsed r.slot = true) : Deletes p t (.ok (p.putUsed r.slot false))

theorem delete_deletes (p : Page) (t : Tuple) : p.Deletes t (p.delete t) := by
  unfold delete
  cases hr : t.record with
  | none => exact .unplaced hr
  | some r =>
    dsimp only
    by_cases hpage : r.page = p.id
    · rw [if_neg (not_not.2 hpage)]
      by_cases hs : p.slots ≤ r.slot
      · rw [if_pos hs]
        exact .outside hr hpage hs
      · rw [if_neg hs]
        have hlt : r.slot < p.slots := Nat.not_le.1 hs
        have hbit := isUsed_of_lt hlt
        cases hb : p.image.bit r.slot with
        | false => exact .free hr hpage hlt (hbit.trans hb)
        | true => exact .cleared hr hpage hlt (hbit.trans hb)
    · rw [if_pos hpage]
      exact .elsewhere hr hpage

theorem delete_ok (h : p.delete t = .ok q) :
    ∃ r, t.record = some r ∧ r.page = p.id ∧ r.slot < p.slots ∧ p.isUsed r.slot = true ∧
      q = p.putUsed r.slot false := by
  have hd := p.delete_deletes t
  rw [h] at hd
  cases hd with
  | cleared hr hpage hs hused => exact ⟨_, hr, hpage, hs, hused, rfl⟩

theorem delete_ok_iff :
    (∃ q, p.delete t = .ok q) ↔
      ∃ r, t.record = some r ∧ r.page = p.id ∧ r.slot < p.slots ∧ p.isUsed r.slot = true := by
  constructor
  · rintro ⟨q, h⟩
    obtain ⟨r, hr, hpage, hs, hused, -⟩ := delete_ok h
    exact ⟨r, hr, hpage, hs, hused⟩
  · rintro ⟨r, hr, hpage, hs, hused⟩
    have hd := p.delete_deletes t
    generalize p.delete t = x at hd ⊢
    cases hd with
    | unplaced h => cases h.symm.trans hr
    | elsewhere h hne =>
      cases h.symm.trans hr
      exact absurd hpage hne
    | outside h _ hout =>
      cases h.symm.trans hr
      omega
    | free h _ _ hclear =>
      cases h.symm.trans hr
      cases hclear.symm.trans hused
    | cleared _ _ _ _ => exact ⟨_, rfl⟩

/-! ## A page seen as a map -/

/-- What is stored in a slot settles its entry. -/
theorem map_of_stored {c : Option (List UInt8)} (h : q.stored = Function.update p.stored slot c)
    (hid : q.id = p.id) (hschema : q.schema = p.schema) :
    q.map = p.map.put slot (c.bind (p.decoded slot)) := by
  have hdecoded : q.decoded = p.decoded := by
    funext i b
    unfold decoded recordAt
    rw [hid, hschema]
  have hcontent : q.content = Function.update p.content slot (c.bind (p.decoded slot)) := by
    funext i
    unfold content
    rw [q.holds_stored.tuple, h, hdecoded]
    by_cases hi : i = slot
    · subst hi
      rw [Function.update_self, Function.update_self]
    · rw [Function.update_of_ne hi, Function.update_of_ne hi, p.holds_stored.tuple]
  unfold map SlotMap.put
  rw [hid, hschema, hcontent]

theorem map_of_same (h : q.stored = p.stored) (hid : q.id = p.id) (hschema : q.schema = p.schema) :
    q.map = p.map := by
  unfold map content
  rw [hid, hschema, funext (tuple_congr h hid hschema)]

theorem decoded_encode (hs : slot < p.slots) (hschema : t.schema = p.schema)
    (he : t.encode = .ok bytes) : p.decoded slot bytes = some (t.readBack ⟨p.id, slot⟩) := by
  unfold decoded
  rw [← hschema, Tuple.decode_encode he, recordAt_eq hs]
  rfl

theorem stored_overwrite (hs : slot < p.slots) (hfree : p.isUsed slot = false)
    (hb : bytes.length = p.schema.width) : (p.overwrite slot bytes).stored = p.stored := by
  rw [isUsed_of_lt hs] at hfree
  exact Image.stored_patch hs hb hfree

theorem stored_placed (hs : slot < p.slots) (hfree : p.isUsed slot = false)
    (hb : bytes.length = p.schema.width) :
    ((p.overwrite slot bytes).putUsed slot true).stored =
      Function.update p.stored slot (some bytes) := by
  rw [isUsed_of_lt hs] at hfree
  exact Image.stored_fill hs hb hfree

theorem stored_cleared (hs : slot < p.slots) :
    (p.putUsed slot false).stored = Function.update p.stored slot none :=
  Image.stored_putBit hs false

@[simp] theorem map_id (p : Page) : p.map.id = p.id := rfl
@[simp] theorem map_schema (p : Page) : p.map.schema = p.schema := rfl
@[simp] theorem map_slots (p : Page) : p.map.slots = p.slots := rfl

theorem map_insert (p : Page) (t : Tuple) :
    ((p.insert t).1.map, (p.insert t).2.map some) = p.map.insert t := by
  have hi := p.insert_inserts t
  generalize p.insert t = r at hi ⊢
  unfold SlotMap.insert
  rw [firstFree?_map]
  cases hi with
  | alien h => simp [h, Except.map]
  | full h hfull => simp [h, hfull, Except.map]
  | misfit h hfree hb he =>
    obtain ⟨hs, hclear, -⟩ := firstFree?_eq_some_iff.1 hfree
    have hmap := map_of_same (stored_overwrite hs hclear hb) rfl rfl
    simp [h, hfree, he, hmap, Except.map]
  | placed h hfree hb he =>
    obtain ⟨hs, hclear, -⟩ := firstFree?_eq_some_iff.1 hfree
    have hmap := map_of_stored (stored_placed hs hclear hb) rfl rfl
    rw [Option.bind_some, decoded_encode hs h he] at hmap
    simp [h, hfree, he, hmap, Except.map]

theorem map_delete (p : Page) (t : Tuple) :
    ((p.edit (.delete t)).1.map, (p.edit (.delete t)).2) = p.map.delete t := by
  have hd := p.delete_deletes t
  simp only [edit]
  unfold SlotMap.delete
  generalize p.delete t = x at hd ⊢
  cases hd with
  | unplaced h => simp [h]
  | elsewhere h hpage => simp [h, hpage]
  | outside h hpage hs => simp [h, hpage, hs]
  | free h hpage hs hclear => simp [h, hpage, Nat.not_le.2 hs, entry_map, hclear]
  | cleared h hpage hs hused =>
    have hmap := map_of_stored (stored_cleared hs) rfl rfl
    rw [Option.bind_none] at hmap
    simp [h, hpage, Nat.not_le.2 hs, entry_map, hused, hmap]

/-- Editing a page edits its map, with the same answer. -/
theorem map_edit (p : Page) (e : Edit) : ((p.edit e).1.map, (p.edit e).2) = p.map.edit e := by
  cases e with
  | insert t => exact p.map_insert t
  | delete t => exact p.map_delete t
  | mark dirtier => exact congrArg (·, _) (map_of_same (p := p) rfl rfl rfl)
  | rebuild => exact congrArg (·, _) (map_of_same (p := p) rfl rfl rfl)

theorem map_after (p : Page) (es : List Edit) : (p.after es).map = p.map.after es := by
  induction es generalizing p with
  | nil => rfl
  | cons e es ih =>
    have hstep := congrArg Prod.fst (p.map_edit e)
    rw [after, ih, SlotMap.after, ← hstep]

theorem answers_map (p : Page) (es : List Edit) : p.answers es = p.map.answers es := by
  induction es generalizing p with
  | nil => rfl
  | cons e es ih =>
    have hstep := p.map_edit e
    rw [answers, SlotMap.answers, ih, ← hstep]

/-! ## Slots under edits -/

/-- What the edits of a page promise. -/
structure KeepsSlots (p : Page) : Prop where
  /-- A tuple that goes in takes the lowest free slot, reads back from it, and touches no other. -/
  inserted : ∀ t t' q, p.insert t = (q, .ok t') → ∃ slot, slot < p.slots ∧
    p.isUsed slot = false ∧ (∀ i < slot, p.isUsed i = true) ∧ q.isUsed slot = true ∧
    t' = { t with record := some ⟨p.id, slot⟩ } ∧ q.tuple slot = .ok (t.readBack ⟨p.id, slot⟩) ∧
    AlikeBut slot p q
  /-- A tuple of the page's schema goes in unless the page is full or the tuple has no bytes. -/
  accepted : ∀ t, (∃ q t', p.insert t = (q, .ok t')) ↔
    t.schema = p.schema ∧ (∃ slot < p.slots, p.isUsed slot = false) ∧ ∃ bytes, t.encode = .ok bytes
  full : ∀ t, (p.insert t).2 = .error (.pageFull p.id) ↔
    t.schema = p.schema ∧ ∀ slot < p.slots, p.isUsed slot = true
  deletable : ∀ t, (∃ q, p.delete t = .ok q) ↔
    ∃ r, t.record = some r ∧ r.page = p.id ∧ r.slot < p.slots ∧ p.isUsed r.slot = true
  /-- A deletion clears one bit, and changes no other bit of the page. -/
  deleted : ∀ t q, p.delete t = .ok q → ∃ r, t.record = some r ∧
    ∀ i, q.image.bit i = if i = r.slot then false else p.image.bit i
  failed : ∀ e why, (p.edit e).2 = .error why → p.Unharmed (p.edit e).1
  counted : ∃ us, p.tuples = .ok us ∧ us.length ≤ p.slots ∧ p.emptyCount = p.slots - us.length
  /-- The bytes of the page make the page again, without its mark. -/
  rebuilt : ∃ image, Image.ofBytes? p.image.toList = some image ∧
    ofImage p.id p.schema image = .ok (p.edit .rebuild).1 ∧ (p.edit .rebuild).1.image = p.image

theorem insert_failed {why : Error} (h : (p.insert t).2 = .error why) :
    p.Unharmed (p.insert t).1 := by
  have hi := p.insert_inserts t
  generalize p.insert t = r at h hi ⊢
  cases hi with
  | alien _ => exact p.unharmed_refl
  | full _ _ => exact p.unharmed_refl
  | misfit _ hfree hb _ =>
    obtain ⟨hs, hclear, -⟩ := firstFree?_eq_some_iff.1 hfree
    exact overwrite_unharmed hs hclear hb
  | placed _ _ _ _ => cases h

theorem insert_full_iff :
    (p.insert t).2 = .error (.pageFull p.id) ↔
      t.schema = p.schema ∧ ∀ slot < p.slots, p.isUsed slot = true := by
  rw [← firstFree?_eq_none_iff]
  have hi := p.insert_inserts t
  generalize p.insert t = r at hi ⊢
  cases hi with
  | alien h => simp [h]
  | full h hfull => simp [h, hfull]
  | misfit h hfree hb he =>
    obtain ⟨cause, rfl⟩ := Tuple.encode_error he
    simp [hfree]
  | placed h hfree hb he => simp [hfree]

theorem insert_accepted_iff :
    (∃ q t', p.insert t = (q, .ok t')) ↔
      t.schema = p.schema ∧ (∃ slot < p.slots, p.isUsed slot = false) ∧
        ∃ bytes, t.encode = .ok bytes := by
  constructor
  · rintro ⟨q, t', h⟩
    obtain ⟨slot, bytes, hfree, hschema, -, he, -, -⟩ := insert_eq_ok h
    obtain ⟨hs, hclear, -⟩ := firstFree?_eq_some_iff.1 hfree
    exact ⟨hschema, ⟨slot, hs, hclear⟩, bytes, he⟩
  · rintro ⟨hschema, ⟨slot, hs, hclear⟩, bytes, he⟩
    have hi := p.insert_inserts t
    generalize p.insert t = r at hi ⊢
    cases hi with
    | alien h => exact absurd hschema h
    | full _ hfull =>
      rw [firstFree?_eq_none_iff.1 hfull slot hs] at hclear
      cases hclear
    | misfit _ _ _ he' => cases he.symm.trans he'
    | placed _ _ _ _ => exact ⟨_, _, rfl⟩

theorem insert_lowest {q : Page} (h : p.insert t = (q, .ok t')) :
    ∃ slot, slot < p.slots ∧ p.isUsed slot = false ∧ (∀ i < slot, p.isUsed i = true) ∧
      q.isUsed slot = true ∧ t' = { t with record := some ⟨p.id, slot⟩ } ∧
      q.tuple slot = .ok (t.readBack ⟨p.id, slot⟩) ∧ AlikeBut slot p q := by
  obtain ⟨slot, bytes, hfree, hschema, hb, he, rfl, rfl⟩ := insert_eq_ok h
  obtain ⟨hs, hclear, hlower⟩ := firstFree?_eq_some_iff.1 hfree
  have hstored : ((p.overwrite slot bytes).putUsed slot true).stored slot = some bytes := by
    rw [stored_placed hs hclear hb, Function.update_self]
  refine ⟨slot, hs, hclear, hlower, ?_, rfl, tuple_eq_ok hstored he hschema.symm,
    (overwrite_alike hs hb).putUsed rfl hs true⟩
  rw [isUsed_eq, hstored]
  rfl

theorem keepsSlots (p : Page) : p.KeepsSlots where
  inserted _ _ _ h := insert_lowest h
  accepted _ := insert_accepted_iff
  full _ := insert_full_iff
  deletable _ := delete_ok_iff
  deleted _ _ h := by
    obtain ⟨r, hr, -, hs, -, rfl⟩ := delete_ok h
    exact ⟨r, hr, bit_putUsed hs false⟩
  failed e why h := by
    cases e with
    | insert t =>
      have hfail : ∃ e, (p.insert t).2 = .error e := by
        simp only [edit] at h
        cases hr : (p.insert t).2 with
        | error e => exact ⟨e, rfl⟩
        | ok u =>
          rw [hr] at h
          cases h
      obtain ⟨e, he⟩ := hfail
      exact insert_failed he
    | delete t =>
      simp only [edit] at h ⊢
      cases hd : p.delete t with
      | error e => exact p.unharmed_refl
      | ok q =>
        rw [hd] at h
        cases h
    | mark dirtier => cases h
    | rebuild => cases h
  counted := by
    obtain ⟨us, hus⟩ := p.tuples_total
    have hcount := p.emptyCount_add
    rw [← length_tuples hus] at hcount
    exact ⟨us, hus, by omega, by omega⟩
  rebuilt := ⟨p.image, p.image.ofBytes?_toList, dif_pos p.holds_one, rfl⟩

/-- Whatever image a page is made of, it is and stays a map from slots to tuples under any edits:
it answers as the map does, and an edit touches no slot but its own. -/
theorem is_slot_map (id : PageId) (schema : Schema) (image : Image)
    (h : 0 < slotsPerPage schema.width) :
    ∃ p, ofImage id schema image = .ok p ∧ p.image = image ∧
      ∀ es : List Edit, (p.after es).map = p.map.after es ∧ p.answers es = p.map.answers es ∧
        (p.after es).KeepsSlots := by
  refine ⟨_, dif_pos h, rfl, fun es => ?_⟩
  exact ⟨map_after _ es, answers_map _ es, keepsSlots _⟩

/-- Sixty-two slots to a page, so that two bits of its bitmap are to spare. -/
def octetSchema : Schema := ⟨List.replicate 8 ⟨"n", .bigInt, false⟩⟩

theorem octetSchema_fits : 0 < slotsPerPage octetSchema.width := by decide

def octet (n : Int64) (record : Option RecordId) : Tuple where
  schema := octetSchema
  values := List.replicate 8 (.bigInt n)
  record := record
  complete := rfl

/-- An image in which slot 1 is free, and the bits to spare are set. -/
def crowdedImage : Image := Image.ofBytes (0xFD :: List.replicate 7 0xFF)

def crowdedEdits : List Edit :=
  [.insert (octet 5 none), .insert (octet 6 none), .delete (octet 0 (some ⟨⟨⟨1⟩, 3⟩, 40⟩)),
    .rebuild, .insert (octet 7 none)]

theorem crowded_is_slot_map :
    0 < slotsPerPage octetSchema.width ∧
    ∃ p, ofImage ⟨⟨1⟩, 3⟩ octetSchema crowdedImage = .ok p ∧
      p.map.answers crowdedEdits =
        [.ok (some (octet 5 (some ⟨⟨⟨1⟩, 3⟩, 1⟩))), .error (.pageFull ⟨⟨1⟩, 3⟩), .ok none,
          .ok none, .ok (some (octet 7 (some ⟨⟨⟨1⟩, 3⟩, 40⟩)))] ∧
      (p.after crowdedEdits).map = p.map.after crowdedEdits ∧
      (p.after crowdedEdits).KeepsSlots := by
  obtain ⟨p, hp, -, h⟩ := is_slot_map ⟨⟨1⟩, 3⟩ octetSchema crowdedImage octetSchema_fits
  obtain ⟨hmap, hanswers, hkeeps⟩ := h crowdedEdits
  have hpage : p = ⟨⟨⟨1⟩, 3⟩, octetSchema, crowdedImage, none, octetSchema_fits⟩ :=
    (Except.ok.inj ((dif_pos octetSchema_fits).symm.trans hp)).symm
  refine ⟨octetSchema_fits, p, hp, ?_, hmap, hkeeps⟩
  rw [← hanswers, hpage]
  decide +kernel

end Page
end PageStore

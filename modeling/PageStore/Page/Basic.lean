import PageStore.Page.Image
import PageStore.Page.Slots
import PageStore.Tuple.Basic

/-!
# PageStore.Page.Basic

Pages of a table: an image divided into a slot bitmap and slots, and a mark that names the
transaction which changed the page since it was last read or written.

A tuple goes into the first free slot. If it cannot be encoded the slot's bytes may be partly
overwritten, but its bit stays clear, so the page shows the same tuples as before
(`Page.insert` says what becomes of the page in either case). Deleting a tuple only clears its bit.
-/

namespace PageStore

structure Page where
  id : PageId
  schema : Schema
  image : Image
  /-- The transaction that changed the page since it was read or written. -/
  dirtier : Option TxnId := none
  holds_one : 0 < slotsPerPage schema.width
  deriving DecidableEq

namespace Page

/-- A page made of an image. There is none if not one tuple of the schema fits. -/
def ofImage (id : PageId) (schema : Schema) (image : Image) : Except Error Page :=
  if h : 0 < slotsPerPage schema.width then .ok { id, schema, image, holds_one := h }
  else .error (.tupleTooLarge schema.width)

def empty (id : PageId) (schema : Schema) : Except Error Page := ofImage id schema Image.blank

def slots (p : Page) : Nat := slotsPerPage p.schema.width

/-- Whether a slot holds a tuple. Slots that the page does not have hold none. -/
def isUsed (p : Page) (slot : Nat) : Bool := slot < p.slots && p.image.bit slot

def emptyCount (p : Page) : Nat := (List.range p.slots).countP fun i => !p.image.bit i

def firstFree? (p : Page) : Option Nat := (List.range p.slots).find? fun i => !p.image.bit i

def isFull (p : Page) : Bool := p.firstFree?.isNone

def slotBytes (p : Page) (slot : Nat) : List UInt8 :=
  p.image.window (slotOffset p.schema.width slot) p.schema.width

def recordAt (p : Page) (slot : Nat) : RecordId := ⟨p.id, RecordId.narrow slot⟩

/-- Puts a tuple into the first free slot: the page afterwards, and the tuple with its place. -/
def insert (p : Page) (t : Tuple) : Page × Except Error Tuple :=
  if t.schema ≠ p.schema then (p, .error (.schemaMismatch (.pageSchema p.id)))
  else
    match p.firstFree? with
    | none => (p, .error (.pageFull p.id))
    | some slot =>
      let (bytes, result) := t.writeTo (p.slotBytes slot)
      let image := p.image.patch (slotOffset p.schema.width slot) bytes
      match result with
      | .error e => ({ p with image }, .error e)
      | .ok () =>
        ({ p with image := image.putBit slot true },
          .ok { t with record := some (p.recordAt slot) })

/-- Puts tuples in one after the other. The first failure ends it. -/
def insertAll (p : Page) : List Tuple → Except Error Page
  | [] => .ok p
  | t :: rest =>
    match p.insert t with
    | (_, .error e) => .error e
    | (p, .ok _) => insertAll p rest

/-- Puts the same tuple in several times, up to the first failure: the page, the tuple with its
last place, how often it went in, and the failure. -/
def insertMany (p : Page) : (times : Nat) → Tuple → Page × Tuple × Nat × Option Error
  | 0, t => (p, t, 0, none)
  | n + 1, t =>
    match p.insert t with
    | (p, .error e) => (p, t, 0, some e)
    | (p, .ok t) =>
      let (p, t, done, failure) := p.insertMany n t
      (p, t, done + 1, failure)

/-- Frees the slot that a tuple's record names. -/
def delete (p : Page) (t : Tuple) : Except Error Page :=
  match t.record with
  | none => .error .missingRecordId
  | some r =>
    if r.page ≠ p.id then .error (.recordNotOnPage r p.id)
    else if p.slots ≤ r.slot then .error (.invalidSlot r.slot)
    else if !p.image.bit r.slot then .error (.emptySlot r.slot)
    else .ok { p with image := p.image.putBit r.slot false }

def tuple (p : Page) (slot : Nat) : Except Error Tuple :=
  if p.slots ≤ slot then .error (.invalidSlot (RecordId.narrow slot))
  else if !p.image.bit slot then .error (.emptySlot (RecordId.narrow slot))
  else
    match Tuple.decode p.schema (p.slotBytes slot) with
    | .error e => .error e
    | .ok t => .ok { t with record := some (p.recordAt slot) }

def usedSlots (p : Page) : List Nat := (List.range p.slots).filter p.image.bit

/-- The tuples of the page in slot order. -/
def tuples (p : Page) : Except Error (List Tuple) := p.usedSlots.mapM p.tuple

def mark (p : Page) (dirtier : Option TxnId) : Page := { p with dirtier }

def isDirty (p : Page) : Bool := p.dirtier.isSome

/-- The page made anew from its own bytes, without a mark. -/
def reread (p : Page) : Page := { p with dirtier := none }

def describe (p : Page) : String :=
  let dirtier := match p.dirtier with
    | none => "None"
    | some t => s!"Some(TransactionId({t.val}))"
  "HeapPage \x7b page_id: PageId \x7b table_id: " ++ p.id.table.text ++ ", page_no: "
    ++ toString p.id.no ++ " \x7d, num_slots: " ++ toString p.slots ++ ", used: "
    ++ toString (p.slots - p.emptyCount) ++ ", dirtier: " ++ dirtier ++ " \x7d"

end Page
end PageStore

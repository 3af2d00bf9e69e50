import Std.Data.TreeMap
import Std.Data.TreeMap.Lemmas

/-!
# PageStore.Id

Names of the things the store keeps: tables, pages, records and transactions, with their texts and
their order. Pages are ordered by table and then by number, so a map keyed by pages lists a table's
pages together and in file order. `PageId.lt_iff` says so.

A record names a slot by a 16-bit number; `RecordId.narrow` is the narrowing from a slot index.
-/

namespace PageStore

/-- A table, numbered from zero in the order of registration. -/
structure TableId where
  val : Nat
  deriving DecidableEq, Repr, Inhabited

/-- A page: a page number within one table's file. -/
structure PageId where
  table : TableId
  no : Nat
  deriving DecidableEq, Repr, Inhabited

/-- Where a tuple is stored: a slot of a page. -/
structure RecordId where
  page : PageId
  slot : Nat
  deriving DecidableEq, Repr, Inhabited

/-- A transaction. It carries no state: it owns locks and marks pages as dirtied. -/
structure TxnId where
  val : Nat
  deriving DecidableEq, Repr, Inhabited

/-- What a transaction means to do with a page it fetches. -/
inductive Access where
  | readOnly
  | readWrite
  deriving DecidableEq, Repr

/-- Slot indices are kept in 16 bits. -/
def RecordId.narrow (index : Nat) : Nat := index % 65536

instance : Ord TableId := ⟨compareOn TableId.val⟩
instance : Ord PageId := ⟨compareLex (compareOn PageId.table) (compareOn PageId.no)⟩
instance : Ord TxnId := ⟨compareOn TxnId.val⟩

instance : Std.TransOrd TableId := inferInstanceAs (Std.TransCmp (compareOn TableId.val))
instance : Std.TransOrd TxnId := inferInstanceAs (Std.TransCmp (compareOn TxnId.val))
instance : Std.TransOrd PageId :=
  inferInstanceAs (Std.TransCmp (compareLex (compareOn PageId.table) (compareOn PageId.no)))

theorem TableId.compare_eq (a b : TableId) : compare a b = compare a.val b.val := rfl

theorem TxnId.compare_eq (a b : TxnId) : compare a b = compare a.val b.val := rfl

theorem PageId.compare_eq (a b : PageId) :
    compare a b = (compare a.table.val b.table.val).then (compare a.no b.no) := rfl

instance : Std.LawfulEqOrd TableId where
  compare_self := Std.ReflCmp.compare_self
  eq_of_compare {a b} h := by
    rw [TableId.compare_eq, Nat.compare_eq_eq] at h
    cases a; cases b; simp_all

instance : Std.LawfulEqOrd TxnId where
  compare_self := Std.ReflCmp.compare_self
  eq_of_compare {a b} h := by
    rw [TxnId.compare_eq, Nat.compare_eq_eq] at h
    cases a; cases b; simp_all

instance : Std.LawfulEqOrd PageId where
  compare_self := Std.ReflCmp.compare_self
  eq_of_compare {a b} h := by
    rw [PageId.compare_eq, Ordering.then_eq_eq, Nat.compare_eq_eq, Nat.compare_eq_eq] at h
    obtain ⟨⟨t⟩, n⟩ := a
    obtain ⟨⟨u⟩, m⟩ := b
    simp_all

/-- Pages are ordered by table, and within a table by number. -/
theorem PageId.lt_iff (a b : PageId) :
    compare a b = .lt ↔
      a.table.val < b.table.val ∨ (a.table.val = b.table.val ∧ a.no < b.no) := by
  rw [PageId.compare_eq, Ordering.then_eq_lt]
  simp only [Nat.compare_eq_lt, Nat.compare_eq_eq]

def TableId.text (t : TableId) : String := s!"TableId({t.val})"

def PageId.text (p : PageId) : String := s!"PageId({p.table.val}:{p.no})"

def RecordId.text (r : RecordId) : String :=
  s!"RecordId({r.page.table.val}:{r.page.no}:{r.slot})"

def TxnId.text (t : TxnId) : String := s!"Txn({t.val})"

end PageStore

import PageStore.Proofs.Page.Tuples
import PageStore.Proofs.Store.Turn

/-!
# PageStore.Proofs.Store.Content

The tuples of a page wherever the page is: in the cached copy if there is one, and in its file
otherwise. They can be read off what the page shows (`Sound.content_eq`), so a store that shows the
same has the same tuples (`Sound.content_congr`).
-/

namespace PageStore

/-- The tuple that the bytes of a slot stand for. -/
def decodedAt (schema : Schema) (p : PageId) (slot : Nat) (bytes : List UInt8) : Option Tuple :=
  (Tuple.decode schema bytes).toOption.map fun u =>
    { u with record := some ⟨p, RecordId.narrow slot⟩ }

theorem Page.content_eq (p : Page) (slot : Nat) :
    p.content slot = (p.stored slot).bind (decodedAt p.schema p.id slot) :=
  p.holds_stored.tuple slot

namespace Store

variable {s s' : Store} {p : PageId} {page : Page} {t : Table}

/-- A page as it is read from its file if no transfer fails. -/
def savedAt? (s : Store) (p : PageId) : Option Page :=
  (readPage { s with volume.faults := [] } p).2.toOption

/-- The cached copy of a page, or else the page as its file has it. -/
def pageAt? (s : Store) (p : PageId) : Option Page :=
  match s.cache.page? p with
  | some page => some page
  | none => s.savedAt? p

/-- The tuples of a page, each at its slot. -/
def content (s : Store) (p : PageId) (slot : Nat) : Option Tuple :=
  (s.pageAt? p).bind fun page => page.content slot

theorem pageAt?_of_cached (h : s.cache.page? p = some page) : s.pageAt? p = some page := by
  unfold pageAt?
  rw [h]

theorem content_of_cached (h : s.cache.page? p = some page) : s.content p = page.content := by
  funext slot
  unfold content
  rw [pageAt?_of_cached h]
  rfl

theorem savedAt?_eq_some (h : s.savedAt? p = some page) :
    page.id = p ∧ page.stored = s.onDisk p ∧ ∃ t, s.catalog.table? p.table = some t ∧
      page.schema = t.schema ∧ p.no < s.wholeCount p.table := by
  unfold savedAt? at h
  cases hr : (readPage { s with volume.faults := [] } p).2 with
  | error e =>
    rw [hr] at h
    cases h
  | ok page' =>
    rw [hr] at h
    cases h
    obtain ⟨hid, _, hstored, hknown⟩ := (readPage_spec { s with volume.faults := [] } p).2 page hr
    exact ⟨hid, hstored, hknown⟩

/-- Past the end of its file a page stores nothing. -/
theorem Sound.savedAt?_eq_none (hs : s.Sound) (h : s.savedAt? p = none) :
    s.onDisk p = fun _ => none := by
  unfold savedAt? at h
  cases ht : s.catalog.table? p.table with
  | none =>
    unfold onDisk
    rw [ht]
  | some t =>
    have hend : s.wholeCount p.table ≤ p.no := by
      by_contra hno
      obtain ⟨page, hpage⟩ := readPage_ok (hs.with_device [] s.volume.lengthFails) ht (Nat.lt_of_not_le hno) rfl
      rw [hpage] at h
      cases h
    rw [onDisk_eq ht, page_past_end hend]
    exact Image.stored_blank t.schema

theorem Sound.pageAt?_eq_some (hs : s.Sound) (h : s.pageAt? p = some page) :
    page.id = p ∧ page.stored = s.shown p ∧ ∃ t, s.catalog.table? p.table = some t ∧
      page.schema = t.schema ∧ p.no < s.wholeCount p.table := by
  unfold pageAt? at h
  cases hp : s.cache.page? p with
  | some copy =>
    rw [hp] at h
    cases h
    exact ⟨hs.framed.id_eq hp, (shown_of_cached hp).symm, hs.known p page hp⟩
  | none =>
    rw [hp] at h
    rw [shown_of_not_cached hp]
    exact savedAt?_eq_some h

theorem Sound.pageAt?_eq_none (hs : s.Sound) (h : s.pageAt? p = none) :
    s.shown p = fun _ => none := by
  unfold pageAt? at h
  cases hp : s.cache.page? p with
  | some copy =>
    rw [hp] at h
    cases h
  | none =>
    rw [hp] at h
    rw [shown_of_not_cached hp]
    exact hs.savedAt?_eq_none h

theorem Sound.content_eq (hs : s.Sound) (ht : s.catalog.table? p.table = some t) (slot : Nat) :
    s.content p slot = (s.shown p slot).bind (decodedAt t.schema p slot) := by
  unfold content
  cases hp : s.pageAt? p with
  | none =>
    rw [hs.pageAt?_eq_none hp]
    rfl
  | some page =>
    obtain ⟨rfl, hstored, t', ht', hschema, _⟩ := hs.pageAt?_eq_some hp
    rw [ht] at ht'
    cases ht'
    rw [Option.bind_some, page.content_eq, hstored, hschema]

theorem Sound.content_of_no_table (hs : s.Sound) (h : s.catalog.table? p.table = none) :
    s.content p = fun _ => none := by
  funext slot
  unfold content
  cases hp : s.pageAt? p with
  | none => rfl
  | some page =>
    obtain ⟨_, _, t, ht, _⟩ := hs.pageAt?_eq_some hp
    rw [h] at ht
    cases ht

/-- Stores that show the same of a slot have the same tuple there. -/
theorem Sound.content_congr (hs : s.Sound) (hs' : s'.Sound) (hlasts : Lasts s s') {slot : Nat}
    (h : s'.shown p slot = s.shown p slot) : s'.content p slot = s.content p slot := by
  cases ht : s.catalog.table? p.table with
  | none =>
    rw [hs.content_of_no_table ht,
      hs'.content_of_no_table (Catalog.table?_none_of_fresh hlasts.tables ht)]
  | some t =>
    obtain ⟨t', ht', hfresh⟩ := Catalog.table?_of_fresh hlasts.tables ht
    rw [hs.content_eq ht, hs'.content_eq ht', h, Table.schema_of_fresh hfresh]

/-- Where nothing is edited, taken back or dropped, every page has the tuples that it had. -/
theorem Turn.content_of_still {e : Event} (h : Turn s s' e) (he : e = .quiet ∨ e = .flushed)
    (hs : s.Sound) (hs' : s'.Sound) (hlasts : Lasts s s') (p : PageId) :
    s'.content p = s.content p := by
  have hshown : ∀ q, s'.shown q = s.shown q := by
    cases h with
    | quiet hsaves _ => exact hsaves.shown
    | flushed hsaves _ => exact hsaves.shown
    | _ => rcases he with he | he <;> cases he
  funext slot
  exact hs.content_congr hs' hlasts (congrFun (hshown p) slot)

/-- A slot that shows something has a tuple. -/
theorem Sound.isSome_content (hs : s.Sound) (p : PageId) (slot : Nat) :
    (s.content p slot).isSome = (s.shown p slot).isSome := by
  unfold content
  cases hp : s.pageAt? p with
  | none =>
    rw [hs.pageAt?_eq_none hp]
    rfl
  | some page =>
    obtain ⟨_, hstored, _⟩ := hs.pageAt?_eq_some hp
    rw [Option.bind_some, ← Page.isUsed_eq_isSome, Page.isUsed_eq, hstored]

theorem Sound.content_past_end (hs : s.Sound) (h : s.wholeCount p.table ≤ p.no) (slot : Nat) :
    s.content p slot = none := by
  unfold content
  cases hp : s.pageAt? p with
  | none => rfl
  | some page =>
    obtain ⟨_, _, _, _, _, hno⟩ := hs.pageAt?_eq_some hp
    omega

end Store
end PageStore

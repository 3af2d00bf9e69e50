import PageStore.Proofs.Store.Content

/-!
# PageStore.Proofs.Store.Append

What appending a page does to the files.

The page goes where the page count says. That is behind the last page as long as the count is
whole, however the file ends. But the count is kept in 32 bits: of a file with `2 ^ 32` pages or
more it says how many there are past a multiple of `2 ^ 32`, and a page that is there already is
overwritten with a blank one (`append_is_exact`). A file system whose files never have that many
pages keeps the store from it.

Pages are looked at as the store itself reads them from their files, on a device that does not fail
(`savedAt?`).
-/

namespace PageStore

namespace ByteFile

variable {f : ByteFile} {im : Image} {n m : Nat}

theorem read?_eq (f : ByteFile) (n : Nat) :
    f.read? n = if n < f.wholeCount then some (f.page n) else none := by
  have hcount := f.read?_isSome_iff n
  unfold read? at hcount ⊢
  by_cases h : n * pageSize < f.length
  · rw [if_pos h] at hcount ⊢
    rw [if_pos (hcount.1 rfl)]
  · rw [if_neg h] at hcount ⊢
    rw [if_neg fun hlt => by cases hcount.2 hlt]

/-- A file ends before a page exactly if it has no more pages than that. -/
theorem length_le_iff (f : ByteFile) (n : Nat) : f.length ≤ n * pageSize ↔ f.wholeCount ≤ n := by
  have hcount := f.read?_isSome_iff n
  unfold read? at hcount
  by_cases h : n * pageSize < f.length
  · rw [if_pos h] at hcount
    have := hcount.1 rfl
    omega
  · rw [if_neg h] at hcount
    have : ¬ n < f.wholeCount := fun hlt => by cases hcount.2 hlt
    omega

/-- To write a page of the file, or the one behind the last, changes no other page. -/
theorem read?_write (h : n ≤ f.wholeCount) :
    (f.write n im).read? m = if m = n then some im else f.read? m := by
  rw [read?_eq, read?_eq, wholeCount_write, page_write]
  by_cases hm : m = n
  · rw [if_pos hm, if_pos hm, if_pos (by omega)]
  · rw [if_neg hm, if_neg hm]
    by_cases hlt : m < f.wholeCount
    · rw [if_pos hlt, if_pos (by omega)]
    · rw [if_neg hlt, if_neg (by omega)]

end ByteFile

namespace Store

variable {s s' : Store} {tb : TableId} {t : Table} {p : PageId} {page : Page}
  {schema : Schema}

/-- Every page that could be read reads the same. -/
def Preserves (s s' : Store) : Prop :=
  ∀ p page, s.savedAt? p = some page → s'.savedAt? p = some page

theorem schema_congr (ht : s'.catalog.fresh = s.catalog.fresh) (tb : TableId) :
    (s'.catalog.table? tb).map (·.schema) = (s.catalog.table? tb).map (·.schema) := by
  cases h : s.catalog.table? tb with
  | none => rw [Catalog.table?_none_of_fresh ht h]
  | some t =>
    obtain ⟨t', h', he⟩ := Catalog.table?_of_fresh ht h
    rw [h', Option.map_some, Option.map_some, Table.schema_of_fresh he]

theorem savedAt?_eq (ht : (s.catalog.table? p.table).map (·.schema) = some schema)
    (hroom : 0 < slotsPerPage schema.width) :
    s.savedAt? p = ((s.fileOf p.table).read? p.no).map fun image =>
      { id := p, schema, image, holds_one := hroom } := by
  obtain ⟨t, htable, rfl⟩ := Option.map_eq_some_iff.1 ht
  have hcontent : Volume.content { s.volume with faults := [] } t.file.key =
      s.volume.content t.file.key := rfl
  unfold savedAt? readPage table
  dsimp only
  rw [htable, fileOf_eq htable]
  dsimp only
  unfold PageFile.read Page.ofImage
  rw [hcontent]
  cases (s.volume.content t.file.key).read? p.no with
  | none => rfl
  | some im =>
    dsimp only [Volume.transfer]
    rw [dif_pos hroom]
    rfl

theorem savedAt?_of_unknown (ht : (s.catalog.table? p.table).map (·.schema) = none) :
    s.savedAt? p = none := by
  unfold savedAt? readPage table
  dsimp only
  rw [Option.map_eq_none_iff.1 ht]
  rfl

/-- The written page reads as it was written. -/
theorem Wrote.savedAt?_self (h : Wrote s page s')
    (ht : (s.catalog.table? page.id.table).map (·.schema) = some schema)
    (hroom : 0 < slotsPerPage schema.width) :
    s'.savedAt? page.id = some { id := page.id, schema, image := page.image, holds_one := hroom } := by
  have hread : ((s.fileOf page.id.table).write page.id.no page.image).read? page.id.no =
      some page.image := by
    rw [ByteFile.read?_eq, ByteFile.wholeCount_write, ByteFile.page_write, if_pos (by omega),
      if_pos rfl]
  rw [← schema_congr h.tables] at ht
  rw [savedAt?_eq ht hroom, h.fileOf, if_pos rfl, hread, Option.map_some]

/-- Any other page reads as before if the write was to a page of the file, or right behind. -/
theorem Wrote.savedAt?_of_ne (h : Wrote s page s') (hc : s.catalog.Sound s.volume)
    (hno : page.id.no ≤ s.wholeCount page.id.table) (hp : p ≠ page.id) :
    s'.savedAt? p = s.savedAt? p := by
  have hread : (s'.fileOf p.table).read? p.no = (s.fileOf p.table).read? p.no := by
    rw [h.fileOf]
    by_cases htb : p.table = page.id.table
    · have hne : p.no ≠ page.id.no := by
        intro he
        cases p
        cases hid : page.id
        simp_all
      rw [if_pos htb, ByteFile.read?_write (by rw [htb]; exact hno), if_neg hne]
    · rw [if_neg htb]
  have hschema := schema_congr h.tables p.table
  cases ht : s.catalog.table? p.table with
  | none =>
    rw [ht] at hschema
    rw [savedAt?_of_unknown hschema, savedAt?_of_unknown (by rw [ht]; rfl)]
  | some t =>
    rw [ht] at hschema
    have hroom := hc.roomy _ _ ht
    rw [savedAt?_eq hschema hroom, savedAt?_eq (by rw [ht]; rfl) hroom, hread]

/-- A write keeps every page just if the page that it replaces was the same, if there was one. -/
theorem Wrote.preserves_iff (h : Wrote s page s') (hc : s.catalog.Sound s.volume)
    (ht : s.catalog.table? page.id.table = some t)
    (hno : page.id.no ≤ s.wholeCount page.id.table) :
    Preserves s s' ↔
      ∀ im, (s.fileOf page.id.table).read? page.id.no = some im → im = page.image := by
  have hroom := hc.roomy _ _ ht
  have hschema : (s.catalog.table? page.id.table).map (·.schema) = some t.schema := by
    rw [ht]
    rfl
  have hafter := h.savedAt?_self hschema hroom
  have hbefore := savedAt?_eq hschema hroom
  constructor
  · intro hpreserves im him
    rw [him] at hbefore
    have hsame := hpreserves _ _ hbefore
    rw [hafter] at hsame
    exact (congrArg Page.image (Option.some.inj hsame)).symm
  · intro hfine p old hold
    by_cases hp : p = page.id
    · subst hp
      rw [hbefore, Option.map_eq_some_iff] at hold
      obtain ⟨im, him, rfl⟩ := hold
      rw [hafter, hfine im him]
    · rw [h.savedAt?_of_ne hc hno hp]
      exact hold

/-! ## Appending -/

theorem appendPage_ok (hc : s.catalog.Sound s.volume) (ht : s.catalog.table? tb = some t)
    (hf : s.volume.faults = []) (hl : s.volume.lengthFails = false) :
    (s.appendPage t).2 = .ok ⟨tb, s.pageCount tb⟩ := by
  have hcount : s.countPages t.id = .ok (s.pageCount t.id) := by
    unfold countPages
    rw [hl]
    rfl
  obtain ⟨page, hid, _, happend⟩ := appendPage_eq hc ht hcount
  have hok : (s.writePage page).2 = .ok () := by
    refine writePage_ok (t := t) ?_ hf
    rw [hid]
    exact ht
  rw [happend, ← hid]
  generalize s.writePage page = r at hok
  obtain ⟨s', x⟩ := r
  cases hok
  rfl

/-- What an append does that puts its page at `p`. -/
structure Appended (tb : TableId) (s s' : Store) (p : PageId) : Prop where
  place : p = ⟨tb, s.wholeCount tb % 4294967296⟩
  blank : ∃ page, s'.savedAt? p = some page ∧ page.image = Image.blank
  /-- No other page of any file changes. -/
  others : ∀ q, q ≠ p → s'.savedAt? q = s.savedAt? q
  pages : s'.wholeCount tb = max (s.wholeCount tb) (p.no + 1)
  /-- The page begins past the end of the file as long as the count is whole. -/
  behind : (s.fileOf tb).length ≤ p.no * pageSize ↔ s.wholeCount tb < 4294967296
  /-- Otherwise it takes the place of a page. That goes unseen just if the page was blank. -/
  preserves : Preserves s s' ↔
    s.wholeCount tb < 4294967296 ∨ (s.fileOf tb).page p.no = Image.blank
  /-- The new count has to be whole as well to be larger. -/
  counts : s.pageCount tb < s'.pageCount tb ↔ s.wholeCount tb + 1 < 4294967296

theorem Wrote.appended (hw : Wrote s page s') (hc : s.catalog.Sound s.volume)
    (ht : s.catalog.table? tb = some t) (hid : page.id = ⟨tb, s.pageCount tb⟩)
    (himage : page.image = Image.blank) : Appended tb s s' page.id := by
  have htable : page.id.table = tb := by rw [hid]
  subst htable
  have hcount : page.id.no = s.wholeCount page.id.table % 4294967296 := by
    rw [← pageCount_eq, hid]
  have hno : page.id.no ≤ s.wholeCount page.id.table := by omega
  have hgrown := hw.wholeCount page.id.table
  rw [if_pos rfl] at hgrown
  constructor
  case place => rw [hid, pageCount_eq]
  case blank =>
    rw [hw.savedAt?_self (by rw [ht]; rfl) (hc.roomy _ _ ht), himage]
    exact ⟨_, rfl, rfl⟩
  case others =>
    intro q hq
    exact hw.savedAt?_of_ne hc hno hq
  case pages => exact hgrown
  case behind =>
    rw [ByteFile.length_le_iff]
    change s.wholeCount page.id.table ≤ page.id.no ↔ _
    omega
  case preserves =>
    rw [hw.preserves_iff hc ht hno, ByteFile.read?_eq, himage]
    change (∀ im, (if page.id.no < s.wholeCount page.id.table then _ else _) = _ → _) ↔ _
    by_cases hfits : s.wholeCount page.id.table < 4294967296
    · rw [if_neg (by omega)]
      exact ⟨fun _ => .inl hfits, fun _ im him => by cases him⟩
    · rw [if_pos (by omega)]
      constructor
      · intro h
        exact .inr (h _ rfl)
      · rintro (h | h) im him
        · exact absurd h hfits
        · exact (Option.some.inj him).symm.trans h
  case counts =>
    rw [pageCount_eq, pageCount_eq, hgrown]
    omega

theorem appended (hc : s.catalog.Sound s.volume) (ht : s.catalog.table? tb = some t)
    (hok : (s.appendPage t).2 = .ok p) : Appended tb s (s.appendPage t).1 p := by
  rcases appendPage_cases hc ht with ⟨e, he, _⟩ | ⟨page, hid, himage, hpage, hw⟩
  · rw [hok] at he
    cases he
  · rw [hok, Except.ok.injEq] at hpage
    rw [hpage]
    exact hw.appended hc ht hid himage

/-- Unless the device fails an append gives a page, and a failing one changes no file. The page is
the one that the page count names in 32 bits, and is blank afterwards. It begins past the end of the
file, so that every page reads as before, just if the file had fewer than `2 ^ 32` pages (or by
chance, if the page in its place was blank), and the count rises just if it can say so. -/
theorem append_is_exact (hc : s.catalog.Sound s.volume) (ht : s.catalog.table? tb = some t) :
    (s.volume.faults = [] → s.volume.lengthFails = false → ∃ p, (s.appendPage t).2 = .ok p) ∧
    (∀ e, (s.appendPage t).2 = .error e → ∀ u, (s.appendPage t).1.fileOf u = s.fileOf u) ∧
    ∀ p, (s.appendPage t).2 = .ok p → Appended tb s (s.appendPage t).1 p := by
  refine ⟨fun hf hl => ⟨_, appendPage_ok hc ht hf hl⟩, ?_, fun p => appended hc ht⟩
  intro e he u
  rcases appendPage_cases hc ht with ⟨_, _, ha⟩ | ⟨page, _, _, hok, _⟩
  · exact ha.fileOf u
  · rw [hok] at he
    cases he

end Store
end PageStore

import PageStore.Proofs.Disk.Opens
import PageStore.Proofs.Disk.Transfers
import PageStore.Proofs.Page.Stored
import PageStore.Proofs.Pool.Copies
import PageStore.Store.Basic

/-!
# PageStore.Proofs.Store.View

What can be seen of a store, page by page: what its file stores (`onDisk`), what a transaction that
fetches it is shown (`shown`), and who has changed it since it was read or written (`dirtier`).

`Sound` ties the cache to the files: every cached page belongs to a page of a table's file, and one
that is not dirty stores what the file stores. `readPage_spec` and `writePage_spec` say what a
single transfer does to the view. A read changes nothing of it (`Alike`), a write that succeeds
replaces one page of one file (`Wrote`).
-/

namespace PageStore

/-- The table with no transfer counted. -/
def Table.fresh (t : Table) : Table := { t with file := { t.file with reads := 0, writes := 0 } }

namespace Table

variable {t t' : Table}

theorem id_of_fresh (h : t'.fresh = t.fresh) : t'.id = t.id :=
  show t'.fresh.id = t.fresh.id by rw [h]

theorem schema_of_fresh (h : t'.fresh = t.fresh) : t'.schema = t.schema :=
  show t'.fresh.schema = t.fresh.schema by rw [h]

theorem key_of_fresh (h : t'.fresh = t.fresh) : t'.file.key = t.file.key :=
  show t'.fresh.file.key = t.fresh.file.key by rw [h]

theorem path_of_fresh (h : t'.fresh = t.fresh) : t'.file.path = t.file.path :=
  show t'.fresh.file.path = t.fresh.file.path by rw [h]

end Table

namespace Catalog

variable {c c' : Catalog} {v v' : Volume} {id : TableId} {t t' : Table}

/-- The same tables with no transfer counted. -/
def fresh (c : Catalog) : Catalog := ⟨c.tables.map Table.fresh⟩

theorem table?_fresh : c.fresh.table? id = (c.table? id).map Table.fresh := by
  unfold table? fresh
  rw [List.getElem?_map]

/-- Of two catalogs that count differently one has a table where the other has it. -/
theorem table?_of_fresh (h : c'.fresh = c.fresh) (ht : c.table? id = some t) :
    ∃ t', c'.table? id = some t' ∧ t'.fresh = t.fresh := by
  have he : (c'.table? id).map Table.fresh = some t.fresh := by
    rw [← table?_fresh, h, table?_fresh, ht]
    rfl
  exact Option.map_eq_some_iff.1 he

theorem table?_none_of_fresh (h : c'.fresh = c.fresh) (ht : c.table? id = none) :
    c'.table? id = none := by
  have he : (c'.table? id).map Table.fresh = none := by
    rw [← table?_fresh, h, table?_fresh, ht]
    rfl
  exact Option.map_eq_none_iff.1 he

theorem fresh_setFile {file : PageFile} (ht : c.table? id = some t)
    (hk : file.key = t.file.key) (hp : file.path = t.file.path) :
    (c.setFile id file).fresh = c.fresh := by
  unfold fresh setFile
  refine congrArg Catalog.mk (List.ext_getElem? fun i => ?_)
  rw [List.getElem?_map, List.getElem?_map, List.getElem?_modify]
  by_cases hi : id.val = i
  · subst hi
    unfold table? at ht
    rw [ht]
    simp [Table.fresh, hk, hp]
  · simp [hi]

/-- Tables that know their numbers, with room for a tuple in a page, each under a name and in a
file of its own. -/
structure Sound (c : Catalog) (v : Volume) : Prop where
  ids : ∀ id t, c.table? id = some t → t.id = id
  roomy : ∀ id t, c.table? id = some t → 0 < slotsPerPage t.schema.width
  apart : ∀ i j t u, c.table? i = some t → c.table? j = some u → t.file.key = u.file.key → i = j
  opens : ∀ id t, c.table? id = some t → v.Opens t.file.path t.file.key
  names : (c.tables.map (·.name)).Nodup

theorem names_fresh (c : Catalog) : c.fresh.tables.map (·.name) = c.tables.map (·.name) := by
  unfold fresh
  rw [List.map_map]
  rfl

theorem Sound.congr (h : c.Sound v) (hc : c'.fresh = c.fresh) (hv : v.Extends v') :
    c'.Sound v' := by
  refine ⟨fun id t ht => ?_, fun id t ht => ?_, fun i j t u ht hu hk => ?_, fun id t ht => ?_, ?_⟩
  · obtain ⟨t', ht', he⟩ := table?_of_fresh hc.symm ht
    rw [← h.ids id t' ht', Table.id_of_fresh he]
  · obtain ⟨t', ht', he⟩ := table?_of_fresh hc.symm ht
    rw [← Table.schema_of_fresh he]
    exact h.roomy id t' ht'
  · obtain ⟨t', ht', het⟩ := table?_of_fresh hc.symm ht
    obtain ⟨u', hu', heu⟩ := table?_of_fresh hc.symm hu
    refine h.apart i j t' u' ht' hu' ?_
    rw [Table.key_of_fresh het, Table.key_of_fresh heu, hk]
  · obtain ⟨t', ht', he⟩ := table?_of_fresh hc.symm ht
    rw [← Table.key_of_fresh he, ← Table.path_of_fresh he]
    exact (h.opens id t' ht').extends hv
  · rw [← names_fresh, hc, names_fresh]
    exact h.names

end Catalog

namespace Store

variable {s s' : Store} {p q : PageId} {page : Page} {t : Table} {tb : TableId}

theorem table_eq_ok_iff : s.table tb = .ok t ↔ s.catalog.table? tb = some t := by
  unfold table
  cases s.catalog.table? tb <;> simp

/-- The content of a table's file. -/
def fileOf (s : Store) (tb : TableId) : ByteFile :=
  match s.catalog.table? tb with
  | some t => s.volume.content t.file.key
  | none => .empty

/-- How many pages a table's file has. -/
def wholeCount (s : Store) (tb : TableId) : Nat := (s.fileOf tb).wholeCount

/-- What a page's file stores for it. -/
def onDisk (s : Store) (p : PageId) : Content :=
  match s.catalog.table? p.table with
  | some t => ((s.fileOf p.table).page p.no).stored t.schema
  | none => fun _ => none

/-- What a page shows to whoever fetches it: what its cached copy stores, or else its file. -/
def shown (s : Store) (p : PageId) : Content :=
  match s.cache.page? p with
  | some page => page.stored
  | none => s.onDisk p

/-- The transaction that dirtied the cached copy of a page. -/
def dirtier (s : Store) (p : PageId) : Option TxnId := (s.cache.page? p).bind (·.dirtier)

theorem shown_of_cached (h : s.cache.page? p = some page) : s.shown p = page.stored := by
  unfold shown
  rw [h]

theorem shown_of_not_cached (h : s.cache.page? p = none) : s.shown p = s.onDisk p := by
  unfold shown
  rw [h]

theorem dirtier_of_cached (h : s.cache.page? p = some page) : s.dirtier p = page.dirtier := by
  unfold dirtier
  rw [h]
  rfl

theorem dirtier_of_not_cached (h : s.cache.page? p = none) : s.dirtier p = none := by
  unfold dirtier
  rw [h]
  rfl

theorem fileOf_eq (h : s.catalog.table? tb = some t) : s.fileOf tb = s.volume.content t.file.key := by
  unfold fileOf
  rw [h]

theorem onDisk_eq (h : s.catalog.table? p.table = some t) :
    s.onDisk p = ((s.fileOf p.table).page p.no).stored t.schema := by
  unfold onDisk
  rw [h]

/-- Every cached page is a page of a table's file, and unless it is dirty it stores what the file
stores. -/
structure Sound (s : Store) : Prop where
  catalog : s.catalog.Sound s.volume
  framed : s.cache.Framed
  known : ∀ p page, s.cache.page? p = some page →
    ∃ t, s.catalog.table? p.table = some t ∧ page.schema = t.schema ∧ p.no < s.wholeCount p.table
  clean : ∀ p, s.dirtier p = none → s.shown p = s.onDisk p

/-- The same view of every page, with other counts of transfers. -/
structure Alike (s s' : Store) : Prop where
  config : s'.config = s.config
  locks : s'.locks = s.locks
  cache : s'.cache = s.cache
  tables : s'.catalog.fresh = s.catalog.fresh
  entries : s'.volume.entries = s.volume.entries
  faultless : s.volume.faults = [] → s'.volume.faults = []

theorem Alike.refl (s : Store) : Alike s s := ⟨rfl, rfl, rfl, rfl, rfl, id⟩

theorem fileOf_congr (ht : s'.catalog.fresh = s.catalog.fresh)
    (hv : ∀ k, s'.volume.content k = s.volume.content k) (tb : TableId) :
    s'.fileOf tb = s.fileOf tb := by
  unfold fileOf
  cases h : s.catalog.table? tb with
  | none => rw [Catalog.table?_none_of_fresh ht h]
  | some t =>
    obtain ⟨t', h', he⟩ := Catalog.table?_of_fresh ht h
    rw [h']
    dsimp only
    rw [Table.key_of_fresh he, hv]

theorem onDisk_congr (ht : s'.catalog.fresh = s.catalog.fresh)
    (hf : (s'.fileOf p.table).page p.no = (s.fileOf p.table).page p.no) :
    s'.onDisk p = s.onDisk p := by
  unfold onDisk
  rw [hf]
  cases h : s.catalog.table? p.table with
  | none => rw [Catalog.table?_none_of_fresh ht h]
  | some t =>
    obtain ⟨t', h', he⟩ := Catalog.table?_of_fresh ht h
    rw [h']
    dsimp only
    rw [Table.schema_of_fresh he]

theorem Alike.fileOf (h : Alike s s') (tb : TableId) : s'.fileOf tb = s.fileOf tb :=
  fileOf_congr h.tables (Volume.content_congr h.entries) tb

theorem Alike.wholeCount (h : Alike s s') (tb : TableId) : s'.wholeCount tb = s.wholeCount tb := by
  unfold Store.wholeCount
  rw [h.fileOf]

theorem Alike.onDisk (h : Alike s s') (p : PageId) : s'.onDisk p = s.onDisk p :=
  onDisk_congr h.tables (by rw [h.fileOf])

theorem Alike.shown (h : Alike s s') (p : PageId) : s'.shown p = s.shown p := by
  unfold Store.shown
  rw [h.cache, h.onDisk]

theorem Alike.dirtier (h : Alike s s') (p : PageId) : s'.dirtier p = s.dirtier p := by
  unfold Store.dirtier
  rw [h.cache]

theorem Sound.alike (hs : s.Sound) (h : Alike s s') : s'.Sound := by
  refine ⟨hs.catalog.congr h.tables (.of_entries h.entries), by rw [h.cache]; exact hs.framed,
    fun p page hp => ?_, fun p hp => ?_⟩
  · rw [h.cache] at hp
    obtain ⟨t, ht, hschema, hno⟩ := hs.known p page hp
    obtain ⟨t', ht', he⟩ := Catalog.table?_of_fresh h.tables ht
    refine ⟨t', ht', hschema.trans (Table.schema_of_fresh he).symm, ?_⟩
    rw [h.wholeCount]
    exact hno
  · rw [h.dirtier] at hp
    rw [h.shown, h.onDisk]
    exact hs.clean p hp

/-! ## Single transfers -/

theorem alike_setFile {v : Volume} {file : PageFile} (ht : s.catalog.table? tb = some t)
    (hk : file.key = t.file.key) (hp : file.path = t.file.path)
    (he : v.entries = s.volume.entries) (hf : s.volume.faults = [] → v.faults = []) :
    Alike s { s with volume := v, catalog := s.catalog.setFile tb file } :=
  ⟨rfl, rfl, rfl, Catalog.fresh_setFile ht hk hp, he, hf⟩

theorem transfer_faultless {v : Volume} (h : v.faults = []) : v.transfer.2.faults = [] := by
  rw [Volume.transfer_of_faultless h]
  exact h

/-- Reading a page from its file changes nothing of what can be seen. The page that is read stores
what the file stores. -/
theorem readPage_spec (s : Store) (p : PageId) :
    Alike s (s.readPage p).1 ∧
      ∀ page, (s.readPage p).2 = .ok page →
        page.id = p ∧ page.dirtier = none ∧ page.stored = s.onDisk p ∧
          ∃ t, s.catalog.table? p.table = some t ∧ page.schema = t.schema ∧
            p.no < s.wholeCount p.table := by
  unfold readPage table
  cases ht : s.catalog.table? p.table with
  | none => exact ⟨.refl s, fun page h => by cases h⟩
  | some t =>
    dsimp only
    rcases t.file.read_cases s.volume p.no with ⟨_, hr⟩ | ⟨hno, ⟨_, hr⟩ | ⟨_, hr⟩⟩ <;> rw [hr]
    · exact ⟨alike_setFile ht rfl rfl rfl id, fun page h => by cases h⟩
    · refine ⟨alike_setFile ht rfl rfl (Volume.transfer_entries _) transfer_faultless,
        fun page h => by cases h⟩
    · refine ⟨alike_setFile ht rfl rfl (Volume.transfer_entries _) transfer_faultless,
        fun page h => ?_⟩
      dsimp only at h
      unfold Page.ofImage at h
      by_cases hroom : 0 < slotsPerPage t.schema.width
      · rw [dif_pos hroom] at h
        cases h
        have hfile := fileOf_eq ht
        refine ⟨rfl, rfl, ?_, t, rfl, rfl, ?_⟩
        · rw [onDisk_eq ht, hfile]
          rfl
        · unfold wholeCount
          rw [hfile]
          exact hno
      · rw [dif_neg hroom] at h
        cases h

theorem readPage_ok (hs : s.Sound) (ht : s.catalog.table? p.table = some t)
    (hno : p.no < s.wholeCount p.table) (hf : s.volume.faults = []) :
    ∃ page, (s.readPage p).2 = .ok page := by
  unfold readPage table
  rw [ht]
  dsimp only
  unfold wholeCount at hno
  rw [fileOf_eq ht] at hno
  rcases t.file.read_cases s.volume p.no with ⟨hle, _⟩ | ⟨_, ⟨hfail, _⟩ | ⟨_, hr⟩⟩
  · omega
  · rw [Volume.transfer_of_faultless hf] at hfail
    cases hfail
  · rw [hr]
    dsimp only
    unfold Page.ofImage
    rw [dif_pos (hs.catalog.roomy _ _ ht)]
    exact ⟨_, rfl⟩

/-- A page was written to its file. -/
structure Wrote (s : Store) (page : Page) (s' : Store) : Prop where
  config : s'.config = s.config
  locks : s'.locks = s.locks
  cache : s'.cache = s.cache
  tables : s'.catalog.fresh = s.catalog.fresh
  tree : s.volume.Extends s'.volume
  fileOf : ∀ tb, s'.fileOf tb =
    if tb = page.id.table then (s.fileOf tb).write page.id.no page.image else s.fileOf tb
  faultless : s.volume.faults = [] → s'.volume.faults = []

/-- Writing a page replaces it in its file, or fails and changes nothing of what can be seen. -/
theorem writePage_cases (hc : s.catalog.Sound s.volume) (page : Page) :
    (∃ e, (s.writePage page).2 = .error e ∧ Alike s (s.writePage page).1) ∨
      ((s.writePage page).2 = .ok () ∧ Wrote s page (s.writePage page).1) := by
  unfold writePage table
  cases ht : s.catalog.table? page.id.table with
  | none => exact .inl ⟨_, rfl, .refl s⟩
  | some t =>
    dsimp only
    rcases t.file.write_cases s.volume page.id.no page.image with ⟨_, hw⟩ | ⟨_, hw⟩ <;> rw [hw]
    · exact .inl ⟨_, rfl, alike_setFile ht rfl rfl (Volume.transfer_entries _) transfer_faultless⟩
    · obtain ⟨f, hfile⟩ := (hc.opens _ _ ht).file
      have hfresh : (s.catalog.setFile page.id.table
          { t.file with writes := PageFile.counted t.file.writes }).fresh = s.catalog.fresh :=
        Catalog.fresh_setFile ht rfl rfl
      refine .inr ⟨rfl, rfl, rfl, rfl, hfresh, ?_, fun tb => ?_, fun h => ?_⟩
      · refine (Volume.Extends.of_entries (Volume.transfer_entries _)).trans
          (Volume.extends_setContent (f := f) ?_)
        rw [Volume.transfer_entries]
        exact hfile
      · by_cases htb : tb = page.id.table
        · subst htb
          obtain ⟨t', ht', he⟩ := Catalog.table?_of_fresh hfresh ht
          rw [if_pos rfl, fileOf_eq ht, fileOf_eq ht', Table.key_of_fresh he,
            Volume.content_setContent, if_pos rfl]
        · rw [if_neg htb]
          cases hu : s.catalog.table? tb with
          | none =>
            unfold fileOf
            rw [hu, Catalog.table?_none_of_fresh hfresh hu]
          | some u =>
            have hne : u.file.key ≠ t.file.key := fun hk => htb (hc.apart _ _ _ _ hu ht hk)
            obtain ⟨u', hu', he⟩ := Catalog.table?_of_fresh hfresh hu
            rw [fileOf_eq hu, fileOf_eq hu', Table.key_of_fresh he, Volume.content_setContent,
              if_neg hne, Volume.content_transfer]
      · exact transfer_faultless h

theorem writePage_spec (hs : s.Sound) (page : Page) :
    (∃ e, (s.writePage page).2 = .error e ∧ Alike s (s.writePage page).1) ∨
      ((s.writePage page).2 = .ok () ∧ Wrote s page (s.writePage page).1) :=
  writePage_cases hs.catalog page

theorem writePage_ok (ht : s.catalog.table? page.id.table = some t) (hf : s.volume.faults = []) :
    (s.writePage page).2 = .ok () := by
  unfold writePage table
  rw [ht]
  dsimp only
  rcases t.file.write_cases s.volume page.id.no page.image with ⟨hfail, _⟩ | ⟨_, hw⟩
  · rw [Volume.transfer_of_faultless hf] at hfail
    cases hfail
  · rw [hw]

theorem Wrote.onDisk (h : Wrote s page s') (ht : s.catalog.table? page.id.table = some t)
    (p : PageId) :
    s'.onDisk p = if p = page.id then page.image.stored t.schema else s.onDisk p := by
  by_cases hp : p = page.id
  · subst hp
    obtain ⟨t', ht', he⟩ := Catalog.table?_of_fresh h.tables ht
    rw [if_pos rfl, onDisk_eq ht', h.fileOf, if_pos rfl, ByteFile.page_write, if_pos rfl,
      Table.schema_of_fresh he]
  · rw [if_neg hp]
    refine onDisk_congr h.tables ?_
    rw [h.fileOf]
    by_cases htb : p.table = page.id.table
    · rw [if_pos htb, ByteFile.page_write, if_neg]
      intro hno
      apply hp
      cases p
      simp_all
    · rw [if_neg htb]

theorem Wrote.wholeCount (h : Wrote s page s') (tb : TableId) :
    s'.wholeCount tb =
      if tb = page.id.table then max (s.wholeCount tb) (page.id.no + 1) else s.wholeCount tb := by
  unfold Store.wholeCount
  rw [h.fileOf]
  by_cases htb : tb = page.id.table
  · rw [if_pos htb, if_pos htb, ByteFile.wholeCount_write]
  · rw [if_neg htb, if_neg htb]

end Store
end PageStore

import PageStore.Proofs.Store.View

/-!
# PageStore.Proofs.Store.Opened

Stores that have just been opened: on a volume, with tables on distinct files, and nothing in memory
(`Opened`). A store that is dropped and opened again on its files (`reopen`) has the tables that it
had, and finds in the files what was there.
-/

namespace PageStore

namespace Catalog

variable {c c' : Catalog} {v v' : Volume} {name path : String} {schema : Schema} {t : Table}
  {id : TableId}

theorem sound_empty (v : Volume) : Sound {} v := by
  have hnone : ∀ id : TableId, table? {} id = none := fun id => rfl
  refine ⟨fun id t ht => ?_, fun id t ht => ?_, fun i j t u ht => ?_, fun id t ht => ?_,
    List.nodup_nil⟩ <;> rw [hnone] at ht <;> cases ht

theorem create_eq_ok (h : c.create v name path schema = .ok (t, c', v')) :
    name ∉ c.tables.map (·.name) ∧ 0 < slotsPerPage schema.width ∧
      v.openFile path = .ok (t.file.key, v') ∧
      t = ⟨⟨c.tables.length⟩, name, schema, { key := t.file.key, path }⟩ ∧
      c' = ⟨c.tables ++ [t]⟩ := by
  unfold create idOf? at h
  by_cases htaken : (c.tables.find? fun t => t.name = name).isSome = true
  · rw [Option.isSome_map, if_pos htaken] at h
    cases h
  · rw [Option.isSome_map, if_neg htaken] at h
    by_cases hwide : slotsPerPage schema.width = 0
    · rw [if_pos hwide] at h
      cases h
    · rw [if_neg hwide] at h
      unfold PageFile.openAt at h
      cases hopen : v.openFile path with
      | error e =>
        rw [hopen] at h
        cases h
      | ok found =>
        rw [hopen] at h
        cases h
        refine ⟨?_, Nat.pos_of_ne_zero hwide, rfl, rfl, rfl⟩
        simpa using htaken

theorem create_of_opens (hname : name ∉ c.tables.map (·.name))
    (hroom : 0 < slotsPerPage schema.width) {k : FileKey} (hopen : v.Opens path k) :
    ∃ t, t = ⟨⟨c.tables.length⟩, name, schema, { key := k, path }⟩ ∧
      c.create v name path schema = .ok (t, ⟨c.tables ++ [t]⟩, v) := by
  refine ⟨_, rfl, ?_⟩
  unfold create idOf?
  rw [Option.isSome_map, if_neg (by simpa using hname), if_neg (Nat.ne_of_gt hroom)]
  unfold PageFile.openAt
  rw [hopen.openFile]

theorem table?_append : table? ⟨c.tables ++ [t]⟩ id =
    if id.val = c.tables.length then some t else c.table? id := by
  unfold table?
  dsimp only
  by_cases hlt : id.val < c.tables.length
  · rw [List.getElem?_append_left hlt, if_neg (Nat.ne_of_lt hlt)]
  · rw [List.getElem?_append_right (Nat.le_of_not_lt hlt), List.getElem?_singleton]
    by_cases heq : id.val = c.tables.length
    · rw [if_pos (by omega), if_pos heq]
    · rw [if_neg (by omega), if_neg heq, List.getElem?_eq_none (by omega)]

/-- A table in a file that no other table has may be added. -/
theorem Sound.create (h : c.Sound v) (ht : c.create v name path schema = .ok (t, c', v'))
    (hapart : ∀ u ∈ c.tables, u.file.key ≠ t.file.key) : c'.Sound v' := by
  obtain ⟨hname, hroom, hopen, hnew, rfl⟩ := create_eq_ok ht
  obtain ⟨hfound, hext⟩ := Volume.opens_of_openFile hopen
  have hold : ∀ {id u}, c.table? id = some u → u.file.key ≠ t.file.key := fun hu =>
    hapart _ (List.mem_of_getElem? hu)
  have hcases : ∀ {id u}, table? ⟨c.tables ++ [t]⟩ id = some u →
      (id = t.id ∧ u = t) ∨ c.table? id = some u := by
    intro id u hu
    rw [table?_append] at hu
    by_cases hid : id.val = c.tables.length
    · rw [if_pos hid] at hu
      cases hu
      rw [hnew]
      exact .inl ⟨by rw [← hid], rfl⟩
    · rw [if_neg hid] at hu
      exact .inr hu
  have hschema : t.schema = schema := by rw [hnew]
  have hpath : t.file.path = path := by rw [hnew]
  have htname : t.name = name := by rw [hnew]
  refine ⟨fun id u hu => ?_, fun id u hu => ?_, fun i j u w hu hw hk => ?_, fun id u hu => ?_, ?_⟩
  · rcases hcases hu with ⟨rfl, rfl⟩ | hu
    · rfl
    · exact h.ids id u hu
  · rcases hcases hu with ⟨rfl, rfl⟩ | hu
    · rw [hschema]
      exact hroom
    · exact h.roomy id u hu
  · rcases hcases hu with ⟨hi, hut⟩ | hu' <;> rcases hcases hw with ⟨hj, hwt⟩ | hw'
    · rw [hi, hj]
    · rw [hut] at hk
      exact absurd hk.symm (hold hw')
    · rw [hwt] at hk
      exact absurd hk (hold hu')
    · exact h.apart i j u w hu' hw' hk
  · rcases hcases hu with ⟨rfl, rfl⟩ | hu
    · rw [hpath]
      exact hfound
    · exact (h.opens id u hu).extends hext
  · rw [List.map_append, List.nodup_append]
    refine ⟨h.names, by simp, fun a ha b hb hab => hname ?_⟩
    rw [List.map_singleton, List.mem_singleton, htname] at hb
    rw [← hb, ← hab]
    exact ha

end Catalog

namespace Store

variable {s : Store} {config : PoolConfig} {v : Volume}

/-- A store on a volume with tables on distinct files. -/
inductive Opened (config : PoolConfig) (v : Volume) : Store → Prop where
  | start : Opened config v (start config v)
  | table {s : Store} {name path : String} {schema : Schema} {t : Table} :
      Opened config v s → (s.createTable name path schema).2 = .ok t →
      (∀ u ∈ s.catalog.tables, u.file.key ≠ t.file.key) →
      Opened config v (s.createTable name path schema).1

theorem sound_of_empty (hc : s.catalog.Sound s.volume) (he : s.cache = {}) : s.Sound := by
  have hnone : ∀ p, s.cache.page? p = none := by
    intro p
    rw [he]
    unfold Cache.page? Cache.copy?
    simp
  refine ⟨hc, by rw [he]; exact Cache.framed_empty, fun p page hp => ?_, fun p _ => ?_⟩
  · rw [hnone] at hp
    cases hp
  · exact shown_of_not_cached (hnone p)

theorem dirtier_of_empty (he : s.cache = {}) (p : PageId) : s.dirtier p = none := by
  refine dirtier_of_not_cached ?_
  rw [he]
  unfold Cache.page? Cache.copy?
  simp

theorem Opened.spec (h : Opened config v s) :
    s.catalog.Sound s.volume ∧ s.cache = {} ∧ s.locks = { config := config.lock } ∧
      s.config = config := by
  induction h with
  | start => exact ⟨Catalog.sound_empty v, rfl, rfl, rfl⟩
  | @table s name path schema t _ hok hapart ih =>
    obtain ⟨hsound, hcache, hlocks, hconfig⟩ := ih
    unfold createTable at hok ⊢
    cases hc : s.catalog.create s.volume name path schema with
    | error e =>
      rw [hc] at hok
      cases hok
    | ok made =>
      obtain ⟨t', c', v'⟩ := made
      rw [hc] at hok
      cases hok
      exact ⟨hsound.create hc hapart, hcache, hlocks, hconfig⟩

/-- The store is dropped without writing anything back, and opened again with its tables. -/
def reopen (s : Store) : Store :=
  s.catalog.tables.foldl (fun s t => (s.createTable t.name t.file.path t.schema).1) s.restart

theorem reopen_from {c : Catalog} {v : Volume} (h : c.Sound v) :
    ∀ (rest done : List Table) (s : Store), c.tables = done ++ rest → s.volume = v →
      s.catalog = ⟨done.map Table.fresh⟩ →
      rest.foldl (fun s t => (s.createTable t.name t.file.path t.schema).1) s =
        { s with catalog := ⟨(done ++ rest).map Table.fresh⟩ } := by
  intro rest
  induction rest with
  | nil =>
    intro done s _ _ hcat
    rw [List.append_nil, ← hcat]
    rfl
  | cons t rest ih =>
    intro done s htables hvol hcat
    have ht : c.table? ⟨done.length⟩ = some t := by
      unfold Catalog.table?
      rw [htables]
      simp
    have hname : t.name ∉ s.catalog.tables.map (·.name) := by
      have hnodup := h.names
      rw [htables, List.map_append, List.nodup_append] at hnodup
      rw [hcat, List.map_map]
      intro hin
      exact hnodup.2.2 t.name hin t.name (by simp) rfl
    obtain ⟨t', ht', hmade⟩ := Catalog.create_of_opens hname (h.roomy _ _ ht) (h.opens _ _ ht)
    have hfresh : t' = t.fresh := by
      have hid := h.ids _ _ ht
      rw [ht', hcat]
      unfold Table.fresh
      rw [hid]
      simp
    rw [List.foldl_cons]
    have hstep : (s.createTable t.name t.file.path t.schema).1 =
        { s with catalog := ⟨(done ++ [t]).map Table.fresh⟩ } := by
      unfold createTable
      rw [hvol, hmade]
      dsimp only
      rw [hcat, hfresh, List.map_append, ← hvol]
      rfl
    rw [hstep]
    refine (ih (done ++ [t]) { s with catalog := ⟨(done ++ [t]).map Table.fresh⟩ } ?_ hvol
      rfl).trans ?_
    · rw [htables, List.append_assoc]
      rfl
    · rw [List.append_assoc]
      rfl

/-- A store that is opened again has its tables, and nothing in memory. -/
theorem reopen_eq (h : s.catalog.Sound s.volume) :
    s.reopen = { s.restart with catalog := s.catalog.fresh } :=
  reopen_from h s.catalog.tables [] s.restart rfl rfl rfl

theorem fresh_fresh (c : Catalog) : c.fresh.fresh = c.fresh := by
  unfold Catalog.fresh
  rw [List.map_map]
  rfl

/-- A store that is opened again shows what the files store. -/
theorem Sound.reopen (hs : s.Sound) :
    s.reopen.Sound ∧ s.reopen.config = s.config ∧
      s.reopen.locks = { config := s.config.lock } ∧ (∀ p, s.reopen.onDisk p = s.onDisk p) ∧
      (∀ p, s.reopen.shown p = s.onDisk p) ∧ ∀ p, s.reopen.dirtier p = none := by
  rw [reopen_eq hs.catalog]
  have hcat := hs.catalog.congr (fresh_fresh s.catalog) (Volume.Extends.refl s.volume)
  have hsound : Sound { s.restart with catalog := s.catalog.fresh } := sound_of_empty hcat rfl
  have hfile : ∀ tb, fileOf { s.restart with catalog := s.catalog.fresh } tb = s.fileOf tb :=
    fileOf_congr (fresh_fresh s.catalog) fun _ => rfl
  have hdisk : ∀ p, onDisk { s.restart with catalog := s.catalog.fresh } p = s.onDisk p :=
    fun p => onDisk_congr (fresh_fresh s.catalog) (by rw [hfile])
  have hclean := dirtier_of_empty (s := { s.restart with catalog := s.catalog.fresh }) rfl
  exact ⟨hsound, rfl, rfl, hdisk, fun p => (hsound.clean p (hclean p)).trans (hdisk p), hclean⟩

/-! ## One table of small numbers -/

def sampleSchema : Schema := ⟨[{ name := "id", type := .smallInt }]⟩

def sampleTuple (n : Int16) : Tuple :=
  { schema := sampleSchema, values := [.smallInt n], complete := rfl }

def sample (config : PoolConfig) : Store :=
  ((start config (.ofDirectory "/db")).createTable "t" "/db/t" sampleSchema).1

theorem opened_sample (config : PoolConfig) :
    Opened config (.ofDirectory "/db") (sample config) := by
  refine .table (t := ⟨⟨0⟩, "t", sampleSchema, { key := "/db/t", path := "/db/t" }⟩) .start rfl ?_
  intro u hu
  cases hu

end Store
end PageStore

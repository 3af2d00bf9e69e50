import PageStore.Proofs.Pool.Uses
import PageStore.Proofs.Store.Occupancy

/-!
# PageStore.Proofs.Store.Eviction

Which page leaves a full pool, in every state that the steps of a pool can reach. `Store.history`
collects the uses of pages step by step, and the recency order recalls it
(`recalls_afterSteps`), so the first evictable page of the order is the least recently used one.

* `evict_found`: an eviction that finds a page writes it back if it is dirty, and takes it out if
  that succeeds. A write that fails leaves the pool and all files alone.
* `bringIn_spec`: what follows the eviction, the reading of the page that was asked for, takes
  nothing out.
* `Run.evicts_least_recent` puts the two together.
-/

namespace PageStore
namespace Store

variable {s s' : Store} {p q v : PageId} {f : FrameId} {page : Page} {us : List PageId}
  {α : Type}

/-! ## The history of uses -/

/-- A page is used if what was asked of it succeeds. -/
def usedIf (p : PageId) : Except Error α → List PageId
  | .ok _ => [p]
  | .error _ => []

/-- The pages that a step uses: a page that is fetched, and one whose frame goes back into the
cache. -/
def uses (s : Store) : PoolStep → List PageId
  | .fetch p => usedIf p (s.fetch p).2
  | .rejoin f =>
    match s.frame? f with
    | none => []
    | some page => usedIf page.id (s.rejoin f).2
  | .change _ _ | .flush _ | .discard _ | .outside _ _ _ _ | .restart => []

/-- The uses of pages in a sequence of steps, in order. -/
def history (s : Store) : List PoolStep → List PageId
  | [] => []
  | step :: rest => s.uses step ++ (s.afterStep step).history rest

theorem flushFrame_recency (s : Store) (f : FrameId) :
    (s.flushFrame f).1.cache.recency = s.cache.recency := by
  unfold flushFrame
  cases s.frame? f with
  | none => rfl
  | some page =>
    dsimp only
    split
    · rfl
    · obtain ⟨v, cat, hw⟩ := writePage_fst s page
      generalize s.writePage page = r at hw
      obtain ⟨s', x⟩ := r
      cases hw
      cases x <;> rfl

theorem flushPage_recency (s : Store) (p : PageId) :
    (s.flushPage p).1.cache.recency = s.cache.recency := by
  unfold flushPage
  cases s.cache.resident[p]? with
  | none => rfl
  | some f => exact flushFrame_recency s f

theorem makeRoom_recency (s : Store) :
    s.cache.recency.Trimmed s.makeRoom.1.cache.recency := by
  unfold makeRoom evict
  split
  · cases s.cache.recency.victims.find? s.mayLeave with
    | none => exact .inl rfl
    | some v =>
      dsimp only
      have hflush := flushPage_recency s v
      generalize s.flushPage v = r at hflush
      obtain ⟨s', x⟩ := r
      dsimp only at hflush
      cases x with
      | error e => exact .inl hflush
      | ok b =>
        refine .inr ⟨v, ?_⟩
        rw [← hflush]
        rfl
  · exact .inl rfl

/-- What becomes of the recency order of a store when a page is asked for: if that succeeds the page
is the most recently used one, and another page may have left in any case. -/
def Turns (s : Store) (p : PageId) (r : Result α) : Prop :=
  ∃ rest, s.cache.recency.Trimmed rest ∧
    (∀ a, r.2 = .ok a → r.1.cache.recency = rest.touch p) ∧
    ∀ e, r.2 = .error e → r.1.cache.recency = rest

theorem turns_fetch (s : Store) (p : PageId) : s.Turns p (s.fetch p) := by
  unfold fetch
  cases s.cache.copy? p with
  | some found => exact ⟨_, .inl rfl, fun _ _ => rfl, fun _ h => by cases h⟩
  | none =>
    dsimp only
    have hroom := makeRoom_recency { s with cache := s.cache.countMiss }
    generalize makeRoom { s with cache := s.cache.countMiss } = r at hroom
    obtain ⟨s₁, x⟩ := r
    refine ⟨s₁.cache.recency, hroom, ?_⟩
    cases x with
    | error e => exact ⟨fun _ h => (by cases h), fun _ _ => rfl⟩
    | ok u =>
      rw [andThen_ok]
      obtain ⟨v, cat, hread⟩ := readPage_fst s₁ p
      generalize s₁.readPage p = r at hread
      obtain ⟨s₂, x⟩ := r
      cases hread
      cases x with
      | error e => exact ⟨fun _ h => (by cases h), fun _ _ => rfl⟩
      | ok page => exact ⟨fun _ _ => rfl, fun _ h => by cases h⟩

theorem turns_rejoin (hf : s.frame? f = some page) : s.Turns page.id (s.rejoin f) := by
  unfold rejoin
  rw [hf]
  dsimp only
  cases s.cache.resident[page.id]? with
  | some g =>
    dsimp only
    refine ⟨_, .inl rfl, ?_⟩
    by_cases hg : g = f
    · rw [if_pos hg]
      exact ⟨fun _ _ => rfl, fun _ h => by cases h⟩
    · rw [if_neg hg]
      exact ⟨fun _ _ => rfl, fun _ h => by cases h⟩
  | none =>
    dsimp only
    have hroom := makeRoom_recency s
    generalize s.makeRoom = r at hroom
    obtain ⟨s₁, x⟩ := r
    refine ⟨s₁.cache.recency, hroom, ?_⟩
    cases x with
    | error e => exact ⟨fun _ h => (by cases h), fun _ _ => rfl⟩
    | ok u => exact ⟨fun _ _ => rfl, fun _ h => by cases h⟩

theorem Turns.recalls {r : Result α} (ht : s.Turns p r) (h : s.cache.recency.Recalls us)
    (hp : s.cache.recency.Paired) : r.1.cache.recency.Recalls (us ++ usedIf p r.2) := by
  obtain ⟨rest, htrim, hok, herror⟩ := ht
  cases hx : r.2 with
  | ok a =>
    rw [hok a hx]
    exact (htrim.recalls h).touch (htrim.paired hp) p
  | error e =>
    rw [herror e hx, usedIf, List.append_nil]
    exact htrim.recalls h

/-- A step keeps the recency order in accord with the history. -/
theorem recalls_afterStep (ht : s.Tidy) (h : s.cache.recency.Recalls us) (step : PoolStep) :
    (s.afterStep step).cache.recency.Recalls (us ++ s.uses step) := by
  have hp := ht.tracked.paired
  cases step with
  | fetch p => exact (turns_fetch s p).recalls h hp
  | rejoin f =>
    cases hf : s.frame? f with
    | some page =>
      have huses : s.uses (.rejoin f) = usedIf page.id (s.rejoin f).2 := by
        rw [uses, hf]
      rw [huses]
      exact (turns_rejoin hf).recalls h hp
    | none =>
      have huses : s.uses (.rejoin f) = [] := by
        rw [uses, hf]
      have hsame : s.rejoin f = (s, .ok ()) := by
        rw [rejoin, hf]
      rw [huses, List.append_nil, afterStep, hsame]
      exact h
  | change f page =>
    unfold afterStep uses
    dsimp only
    rw [List.append_nil]
    cases s.frame? f <;> exact h
  | flush f =>
    unfold afterStep uses
    dsimp only
    rw [List.append_nil, flushFrame_recency]
    exact h
  | discard p =>
    rw [uses, List.append_nil]
    exact h.remove p
  | outside locks volume catalog walk =>
    rw [uses, List.append_nil]
    exact h
  | restart => exact Recency.recalls_empty _

theorem recalls_afterSteps (steps : List PoolStep) :
    ∀ {s : Store} {us : List PageId}, s.Tidy → s.cache.recency.Recalls us →
      (s.afterSteps steps).cache.recency.Recalls (us ++ s.history steps) := by
  induction steps with
  | nil =>
    intro s us _ h
    rw [history, List.append_nil]
    exact h
  | cons step rest ih =>
    intro s us ht h
    have hrest := ih (tidy_afterStep ht step).1 (recalls_afterStep ht h step)
    rw [history, ← List.append_assoc]
    exact hrest

/-! ## Files and their counts -/

def keyOf? (s : Store) (tb : TableId) : Option FileKey := (s.catalog.table? tb).map (·.file.key)

def writesTo (s : Store) (tb : TableId) : Nat :=
  match s.catalog.table? tb with
  | some t => t.file.writes
  | none => 0

/-- Nothing has been written to a file, and no lock has changed. -/
structure Unwritten (s s' : Store) : Prop where
  locks : s'.locks = s.locks
  content : ∀ key, s'.volume.content key = s.volume.content key
  writes : ∀ tb, s'.writesTo tb = s.writesTo tb

theorem Unwritten.refl (s : Store) : Unwritten s s := ⟨rfl, fun _ => rfl, fun _ => rfl⟩

theorem table?_setFile {t : Table} {tb : TableId} (ht : s.catalog.table? tb = some t)
    (file : PageFile) (tb' : TableId) :
    (s.catalog.setFile tb file).table? tb' =
      if tb' = tb then some { t with file } else s.catalog.table? tb' := by
  unfold Catalog.table? Catalog.setFile at *
  dsimp only
  rw [List.getElem?_modify]
  by_cases hv : tb.val = tb'.val
  · have heq : tb' = tb := by
      cases tb
      cases tb'
      simp_all
    rw [heq, if_pos rfl, ht]
    simp
  · have hne : tb' ≠ tb := fun h => hv (congrArg TableId.val h).symm
    rw [if_neg hne]
    simp [hv]

theorem writesTo_setFile {t : Table} {tb : TableId} (ht : s.catalog.table? tb = some t)
    (file : PageFile) (v : Volume) (tb' : TableId) :
    writesTo { s with volume := v, catalog := s.catalog.setFile tb file } tb' =
      if tb' = tb then file.writes else s.writesTo tb' := by
  unfold writesTo
  dsimp only
  rw [table?_setFile ht]
  by_cases htb : tb' = tb
  · rw [if_pos htb, if_pos htb]
  · rw [if_neg htb, if_neg htb]

theorem readPage_unwritten (s : Store) (p : PageId) :
    Unwritten s (s.readPage p).1 ∧ (s.readPage p).1.cache = s.cache := by
  unfold readPage table
  cases ht : s.catalog.table? p.table with
  | none => exact ⟨.refl s, rfl⟩
  | some t =>
    dsimp only
    have hsame : ∀ tb, (if tb = p.table then t.file.writes else s.writesTo tb) = s.writesTo tb := by
      intro tb
      by_cases htb : tb = p.table
      · rw [if_pos htb, writesTo, htb, ht]
      · rw [if_neg htb]
    have hfile := fun (file : PageFile) (v : Volume) => writesTo_setFile ht file v
    have hcontent := Volume.content_congr (Volume.transfer_entries s.volume)
    rcases t.file.read_cases s.volume p.no with ⟨_, hr⟩ | ⟨_, ⟨_, hr⟩ | ⟨_, hr⟩⟩ <;> rw [hr]
    · exact ⟨⟨rfl, fun _ => rfl, fun tb => (hfile _ _ tb).trans (hsame tb)⟩, rfl⟩
    · exact ⟨⟨rfl, hcontent, fun tb => (hfile _ _ tb).trans (hsame tb)⟩, rfl⟩
    · exact ⟨⟨rfl, hcontent, fun tb => (hfile _ _ tb).trans (hsame tb)⟩, rfl⟩

/-- A page has been written to its file, and nothing else. -/
structure WrittenBack (s : Store) (page : Page) (s' : Store) : Prop where
  locks : s'.locks = s.locks
  content : ∀ key, s'.volume.content key =
    if s.keyOf? page.id.table = some key then (s.volume.content key).write page.id.no page.image
    else s.volume.content key
  writes : ∀ tb, s'.writesTo tb =
    if tb = page.id.table then PageFile.counted (s.writesTo tb) else s.writesTo tb

theorem writePage_effect (s : Store) (page : Page) :
    (s.writePage page).1.cache = s.cache ∧
      ((∃ e, (s.writePage page).2 = .error e ∧ Unwritten s (s.writePage page).1) ∨
        (s.writePage page).2 = .ok () ∧ WrittenBack s page (s.writePage page).1) := by
  unfold writePage table
  cases ht : s.catalog.table? page.id.table with
  | none => exact ⟨rfl, .inl ⟨_, rfl, .refl s⟩⟩
  | some t =>
    dsimp only
    have hwrites : s.writesTo page.id.table = t.file.writes := by
      rw [writesTo, ht]
    have hkey : s.keyOf? page.id.table = some t.file.key := by
      rw [keyOf?, ht]
      rfl
    have hcontent := Volume.content_congr (Volume.transfer_entries s.volume)
    rcases t.file.write_cases s.volume page.id.no page.image with ⟨_, hw⟩ | ⟨_, hw⟩ <;> rw [hw]
    · refine ⟨rfl, .inl ⟨_, rfl, rfl, hcontent, fun tb => ?_⟩⟩
      refine (writesTo_setFile ht _ _ tb).trans ?_
      by_cases htb : tb = page.id.table
      · rw [if_pos htb, htb, hwrites]
      · rw [if_neg htb]
    · refine ⟨rfl, .inr ⟨rfl, rfl, fun key => ?_, fun tb => ?_⟩⟩
      · dsimp only
        rw [Volume.content_setContent, hkey]
        by_cases hk : key = t.file.key
        · rw [if_pos hk, hk, if_pos rfl]
        · have hne : ¬ some t.file.key = some key := fun h => hk (Option.some.inj h).symm
          rw [if_neg hk, if_neg hne, hcontent]
      · refine (writesTo_setFile ht _ _ tb).trans ?_
        by_cases htb : tb = page.id.table
        · rw [if_pos htb, if_pos htb, htb, hwrites]
        · rw [if_neg htb, if_neg htb]

/-! ## The page that leaves -/

/-- A dirty page whose dirtier still holds a lock of it, in whatever mode. -/
def Pinned (s : Store) (p : PageId) : Prop :=
  ∃ u mode, s.dirtier p = some u ∧ s.locks.modeOf p u = some mode

/-- A resident page that an eviction may take. -/
def Evictable (s : Store) (p : PageId) : Prop := s.cache.contains p = true ∧ ¬ s.Pinned p

/-- A page has left the pool, written to its file first if it was dirty. Nothing else has left, and
nothing else has been written. -/
structure Evicted (s : Store) (v : PageId) (page : Page) (s' : Store) : Prop where
  gone : s'.cache.contains v = false
  kept : ∀ q, q ≠ v → s.cache.contains q = true →
    s'.cache.contains q = true ∧ s'.cache.page? q = s.cache.page? q
  counted : s'.cache.stats.evictions = s.cache.stats.evictions + 1
  locks : s'.locks = s.locks
  content : ∀ key, s'.volume.content key =
    if page.isDirty = true ∧ s.keyOf? v.table = some key then
      (s.volume.content key).write v.no page.image
    else s.volume.content key
  writes : ∀ tb, s'.writesTo tb =
    if page.isDirty = true ∧ tb = v.table then PageFile.counted (s.writesTo tb) else s.writesTo tb

theorem evictable_iff (hs : s.cache.Framed) : s.Evictable p ↔ s.mayLeave p = true := by
  have hcontains : s.cache.contains p = true ↔ (s.cache.page? p).isSome = true := by
    rw [Cache.contains_iff_exists, Option.isSome_iff_exists]
    constructor
    · rintro ⟨f, hf⟩
      obtain ⟨page, hpage, -⟩ := hs p f hf
      exact ⟨page, Cache.page?_eq_some.2 ⟨f, hf, hpage⟩⟩
    · rintro ⟨page, hpage⟩
      obtain ⟨f, hf, -⟩ := Cache.page?_eq_some.1 hpage
      exact ⟨f, hf⟩
  rw [mayLeave_iff, Evictable, hcontains]
  refine and_congr_right fun _ => ?_
  unfold Pinned Loose LockManager.holds
  cases hd : s.dirtier p with
  | none => simp
  | some u => simp [Option.eq_none_iff_forall_not_mem]

/-- The page is found that the recency order lists first, of those that may go. -/
theorem find?_lru (ht : s.Tidy) (h : s.cache.recency.Recalls us)
    (hv : s.cache.recency.victims.find? s.mayLeave = some v) :
    s.Evictable v ∧ ∀ q, s.Evictable q → q ≠ v → UsedSince us v q := by
  have hframed := ht.tracked.framed
  refine ⟨(evictable_iff hframed).2 (List.find?_some hv), fun q hq hne => ?_⟩
  exact h.of_find? ht.tracked.paired hv (ht.tracked.mem_victims.2 hq.1)
    ((evictable_iff hframed).1 hq) hne

theorem find?_isNone (ht : s.Tidy) :
    s.cache.recency.victims.find? s.mayLeave = none ↔ ∀ q, ¬ s.Evictable q := by
  rw [List.find?_eq_none]
  constructor
  · intro h q hq
    exact h q (ht.tracked.mem_victims.2 hq.1) ((evictable_iff ht.tracked.framed).1 hq)
  · intro h q _ hmay
    exact h q ((evictable_iff ht.tracked.framed).2 hmay)

theorem Evicted.of_clean (hclean : page.isDirty = false) :
    Evicted s v page { s with cache := (s.cache.drop v).countEviction } where
  gone := (Cache.contains_drop s.cache v v).trans (if_pos rfl)
  kept q hne hq :=
    ⟨((Cache.contains_drop s.cache v q).trans (if_neg hne)).trans hq,
      (Cache.page?_drop s.cache v q).trans (if_neg hne)⟩
  counted := rfl
  locks := rfl
  content key := by simp [hclean]
  writes tb := by
    simp only [hclean, Bool.false_eq_true, false_and, if_false]
    rfl

/-- A dirty page leaves once it has been written and its frame has been marked clean. -/
theorem Evicted.of_dirty (hframed : s.cache.Framed) (hr : s.cache.resident[v]? = some f)
    (hf : s.frame? f = some page) (hdirty : page.isDirty = true) (hw : WrittenBack s page s')
    (hcache : s'.cache = s.cache) :
    Evicted s v page
      { s' with cache := ((s'.cache.setFrame f (page.mark none)).drop v).countEviction }
    where
  gone := (Cache.contains_drop _ v v).trans (if_pos rfl)
  kept q hne hq := by
    have hid : page.id = v := hframed.id_eq (page?_of_frame hr hf)
    obtain ⟨-, hpages⟩ := hframed.setFrame (page.mark none) hr hid
    rw [hcache]
    constructor
    · exact ((Cache.contains_drop _ v q).trans (if_neg hne)).trans hq
    · refine (Cache.page?_drop _ v q).trans ?_
      rw [if_neg hne, hpages, if_neg hne]
  counted := by
    rw [hcache]
    rfl
  locks := hw.locks
  content key := by
    have hid : page.id = v := hframed.id_eq (page?_of_frame hr hf)
    have hkey := hw.content key
    rw [hid] at hkey
    simpa [hdirty] using hkey
  writes tb := by
    have hid : page.id = v := hframed.id_eq (page?_of_frame hr hf)
    have htb := hw.writes tb
    rw [hid] at htb
    simp only [hdirty, true_and]
    exact htb

/-- The store after an eviction that has failed, or has found no page: the pool is as it was. -/
structure Spared (s s' : Store) : Prop where
  cache : s'.cache = s.cache
  unwritten : Unwritten s s'

theorem evict_found (hframed : s.cache.Framed) (hp : s.cache.page? v = some page)
    (hv : s.cache.recency.victims.find? s.mayLeave = some v) :
    (∃ e, page.isDirty = true ∧ (s.writePage page).2 = .error e ∧ s.evict.2 = .error e ∧
      Spared s s.evict.1) ∨
    (page.isDirty = true → (s.writePage page).2 = .ok ()) ∧ s.evict.2 = .ok () ∧
      Evicted s v page s.evict.1 := by
  obtain ⟨f, hr, hf⟩ := Cache.page?_eq_some.1 hp
  have hf : s.frame? f = some page := hf
  unfold evict flushPage
  rw [hv]
  dsimp only
  rw [hr]
  dsimp only
  unfold flushFrame
  rw [hf]
  dsimp only
  cases hdirty : page.isDirty with
  | false =>
    refine .inr ⟨fun h => ?_, rfl, .of_clean hdirty⟩
    cases h
  | true =>
    obtain ⟨hcache, heffect⟩ := writePage_effect s page
    generalize s.writePage page = r at hcache heffect
    obtain ⟨s', x⟩ := r
    rcases heffect with ⟨e, he, hun⟩ | ⟨hok, hw⟩
    · cases he
      exact .inl ⟨e, rfl, rfl, rfl, hcache, hun⟩
    · cases hok
      exact .inr ⟨fun _ => rfl, rfl, .of_dirty hframed hr hf hdirty hw hcache⟩

/-! ## The page that is asked for -/

/-- Reads a page and lets it into the pool, which has room for it. -/
def bringIn (s : Store) (p : PageId) : Result (FrameId × Page) :=
  andThen (s.readPage p) fun s page =>
    let (cache, f) := s.cache.load page
    ({ s with cache := cache.keep p f }, .ok (f, page))

theorem fetch_of_missing (hmiss : s.cache.contains p = false) :
    s.fetch p =
      andThen (makeRoom { s with cache := s.cache.countMiss }) fun s _ => s.bringIn p := by
  unfold fetch bringIn
  rw [Cache.copy?_of_not_contains hmiss]

theorem fetch_of_full (hmiss : s.cache.contains p = false)
    (hfull : s.config.capacity ≤ s.cache.size) :
    s.fetch p = andThen (evict { s with cache := s.cache.countMiss }) fun s _ => s.bringIn p := by
  rw [fetch_of_missing hmiss]
  unfold makeRoom
  rw [if_pos (show s.config.capacity ≤ s.cache.countMiss.size from hfull)]

/-- A page that is let in takes no other page out, and writes nothing. -/
theorem bringIn_spec (hframed : s.cache.Framed) (p : PageId) :
    Unwritten s (s.bringIn p).1 ∧
      (s.bringIn p).1.cache.stats = s.cache.stats ∧
      ∀ q, q ≠ p → (s.bringIn p).1.cache.contains q = s.cache.contains q ∧
        (s.bringIn p).1.cache.page? q = s.cache.page? q := by
  obtain ⟨hun, hcache⟩ := readPage_unwritten s p
  have hid := fun page => (readPage_spec s p).2 page
  unfold bringIn
  generalize s.readPage p = r at hun hcache hid
  obtain ⟨s₁, x⟩ := r
  cases x with
  | error e =>
    refine ⟨hun, congrArg Cache.stats hcache, fun q _ => ?_⟩
    exact ⟨congrArg (Cache.contains · q) hcache, congrArg (Cache.page? · q) hcache⟩
  | ok page =>
    dsimp only at hcache
    obtain ⟨rfl, -⟩ := hid page rfl
    rw [← hcache] at hframed ⊢
    obtain ⟨-, hpages, -⟩ := hframed.load page
    refine ⟨⟨hun.locks, hun.content, hun.writes⟩, rfl, fun q hne => ⟨?_, ?_⟩⟩
    · exact (Cache.contains_keep _ page.id q _).trans (if_neg hne)
    · exact (hpages q).trans (if_neg hne)

theorem Evicted.bringIn (h : Evicted s v page s') (hframed : s'.cache.Framed)
    (hmiss : s.cache.contains p = false) (hv : s.cache.contains v = true) :
    Evicted s v page (s'.bringIn p).1 := by
  obtain ⟨hun, hstats, hothers⟩ := bringIn_spec hframed p
  have hne : ∀ q, s.cache.contains q = true → q ≠ p := by
    rintro q hq rfl
    rw [hmiss] at hq
    cases hq
  constructor
  case gone => rw [(hothers v (hne v hv)).1, h.gone]
  case kept =>
    intro q hqv hq
    obtain ⟨hin, hpage⟩ := h.kept q hqv hq
    obtain ⟨hin', hpage'⟩ := hothers q (hne q hq)
    exact ⟨hin'.trans hin, hpage'.trans hpage⟩
  case counted => rw [hstats, h.counted]
  case locks => rw [hun.locks, h.locks]
  case content =>
    intro key
    rw [hun.content, h.content]
  case writes =>
    intro tb
    rw [hun.writes, h.writes]

/-- What it comes to when a full pool is asked for a page that it does not have, after some uses. -/
structure MakesWay (s : Store) (us : List PageId) (p : PageId) : Prop where
  /-- The least recently used page of the evictable ones leaves. If it is dirty and cannot be
  written that is the error, and none leaves. -/
  taken : (∃ q, s.Evictable q) → ∃ v page, s.Evictable v ∧ s.cache.page? v = some page ∧
    (∀ q, s.Evictable q → q ≠ v → UsedSince us v q) ∧
    ((∃ e, page.isDirty = true ∧ (s.writePage page).2 = .error e ∧ (s.fetch p).2 = .error e ∧
        (s.fetch p).1.cache = s.cache.countMiss ∧ Unwritten s (s.fetch p).1) ∨
      (page.isDirty = true → (s.writePage page).2 = .ok ()) ∧ Evicted s v page (s.fetch p).1)
  /-- If there is none, a miss is counted and nothing else changes. -/
  refused : (∀ q, ¬ s.Evictable q) →
    s.fetch p = ({ s with cache := s.cache.countMiss }, .error (.poolFull s.config.capacity))

/-- What is known of the pages and the files does not depend on the count of misses. -/
theorem writePage_countMiss (s : Store) (page : Page) :
    (writePage { s with cache := s.cache.countMiss } page).2 = (s.writePage page).2 := by
  unfold writePage table
  dsimp only
  cases s.catalog.table? page.id.table with
  | none => rfl
  | some t =>
    dsimp only
    generalize t.file.write s.volume page.id.no page.image = r
    obtain ⟨v, file, x⟩ := r
    cases x <;> rfl

theorem makesWay (ht : s.Tidy) (h : s.cache.recency.Recalls us)
    (hmiss : s.cache.contains p = false) (hfull : s.config.capacity ≤ s.cache.size) :
    s.MakesWay us p := by
  have htidy : Tidy { s with cache := s.cache.countMiss } :=
    ⟨ht.tracked.retains rfl rfl (.refl _), ht.within⟩
  have hfetch := fetch_of_full hmiss hfull
  constructor
  case refused =>
    intro hnone
    rw [hfetch, evict]
    have hfind : s.cache.countMiss.recency.victims.find?
        (mayLeave { s with cache := s.cache.countMiss }) = none := (find?_isNone ht).2 hnone
    dsimp only
    rw [hfind]
    rfl
  case taken =>
    rintro ⟨q, hq⟩
    cases hv : s.cache.recency.victims.find? s.mayLeave with
    | none => exact absurd hq ((find?_isNone ht).1 hv q)
    | some v =>
      obtain ⟨hev, holdest⟩ := find?_lru ht h hv
      obtain ⟨page, hp⟩ := Option.isSome_iff_exists.1 (mayLeave_iff.1 (List.find?_some hv)).1
      refine ⟨v, page, hev, hp, holdest, ?_⟩
      have hfound := evict_found (s := { s with cache := s.cache.countMiss }) htidy.tracked.framed
        hp hv
      have htidy' := (tidies_evict htidy).1.tidy
      rw [hfetch]
      rw [writePage_countMiss] at hfound
      generalize evict { s with cache := s.cache.countMiss } = r at hfound htidy' ⊢
      obtain ⟨s₁, x⟩ := r
      rcases hfound with ⟨e, hdirty, hwrite, he, hspared⟩ | ⟨hwrite, hok, hevicted⟩
      · cases he
        refine .inl ⟨e, hdirty, hwrite, rfl, hspared.cache, ?_⟩
        exact ⟨hspared.unwritten.locks, hspared.unwritten.content, hspared.unwritten.writes⟩
      · cases hok
        refine .inr ⟨hwrite, ?_⟩
        have hleft := hevicted.bringIn (p := p) htidy'.tracked.framed hmiss hev.1
        exact ⟨hleft.gone, hleft.kept, hleft.counted, hleft.locks, hleft.content, hleft.writes⟩

/-- A lock that is granted leads to the page. -/
theorem decided_of_granted {t : TxnId} {m : LockMode} {access : Access} (locks : LockManager) :
    s.decided t p m (.fetch p access) (locks, .granted) =
      (({ s with locks } : Store).fetch p).map id fun r => .done (.fetched r) := by
  unfold decided proceed
  dsimp only
  generalize Store.fetch _ p = r
  obtain ⟨s', x⟩ := r
  cases x <;> rfl

end Store

namespace Engine

variable {σ σ₀ : Engine} {es : List Event} {s₀ : Store} {ok : Engine → Action → Prop}

/-- In whatever state the steps of a pool have led to: if it is full and is asked for a page that it
does not have, the least recently used evictable page makes way, or, if there is none, nothing does.
Every state of an engine in which a page is asked for is such a state, whatever lock was granted for
it. -/
theorem Run.evicts_least_recent (hempty : s₀.cache = {}) :
    (∀ steps p, (s₀.afterSteps steps).cache.contains p = false →
      (s₀.afterSteps steps).config.capacity ≤ (s₀.afterSteps steps).cache.size →
      (s₀.afterSteps steps).MakesWay (s₀.history steps) p) ∧
    ∀ {ok es σ}, Run ok (idle s₀) es σ → ∀ locks,
      (∃ steps, s₀.afterSteps steps = { σ.store with locks }) ∧
      ∀ t p mode access, σ.store.decided t p mode (.fetch p access) (locks, .granted) =
        (({ σ.store with locks } : Store).fetch p).map id fun r => .done (.fetched r) := by
  have htidy := Store.tidy_of_empty hempty
  have hrecalls : s₀.cache.recency.Recalls [] := by
    rw [hempty]
    exact Recency.recalls_empty []
  refine ⟨fun steps p hmiss hfull => ?_, fun h locks => ⟨?_, fun _ _ _ _ => ?_⟩⟩
  · obtain ⟨-, htidy', -⟩ := Store.checkedAll_eq steps htidy
    exact Store.makesWay htidy' (Store.recalls_afterSteps steps htidy hrecalls) hmiss hfull
  · exact h.reached.trans (Store.reached_outside _ locks _ _)
  · exact Store.decided_of_granted locks

/-- The dirty page of a transaction that has given up its lock makes way for another page. -/
theorem crowded_evicts_second :
    (Store.sample { capacity := 1 }).cache = {} ∧
    crowded.store.dirtier ⟨⟨0⟩, 1⟩ = some ⟨2⟩ ∧
    ∃ page, crowded.store.cache.page? ⟨⟨0⟩, 1⟩ = some page ∧
      Store.Evicted crowded.store ⟨⟨0⟩, 1⟩ page (crowded.store.fetch ⟨⟨0⟩, 0⟩).1 := by
  have hempty : (Store.sample { capacity := 1 }).cache = {} := rfl
  have hrun : Run Regular (idle (Store.sample { capacity := 1 }))
      (play (idle (Store.sample { capacity := 1 })) (overlapping ++
        [.release ⟨2⟩ ⟨⟨0⟩, 1⟩, .call ⟨3⟩ (.fetch ⟨⟨0⟩, 0⟩ .readOnly)])).1 crowded :=
    run_play (by decide +kernel)
  obtain ⟨hdirty, hresident, hpresent, hmiss, hfull, hfree, hfetched⟩ :
      crowded.store.dirtier ⟨⟨0⟩, 1⟩ = some ⟨2⟩ ∧ crowded.store.cache.pages = [⟨⟨0⟩, 1⟩] ∧
      crowded.store.cache.contains ⟨⟨0⟩, 1⟩ = true ∧
      crowded.store.cache.contains ⟨⟨0⟩, 0⟩ = false ∧
      crowded.store.config.capacity ≤ crowded.store.cache.size ∧
      crowded.store.locks.modeOf ⟨⟨0⟩, 1⟩ ⟨2⟩ = none ∧
      (crowded.store.fetch ⟨⟨0⟩, 0⟩).2.isOk = true := by
    decide +kernel
  obtain ⟨steps, hsteps⟩ := hrun.reached
  have hway := (Run.evicts_least_recent hempty).1 steps ⟨⟨0⟩, 0⟩
  rw [hsteps] at hway
  have hway := hway hmiss hfull
  have hevictable : crowded.store.Evictable ⟨⟨0⟩, 1⟩ := by
    refine ⟨hpresent, ?_⟩
    rintro ⟨u, mode, hu, hmode⟩
    rw [hdirty] at hu
    cases hu
    rw [hfree] at hmode
    cases hmode
  obtain ⟨v, page, hv, hp, -, hleft⟩ := hway.taken ⟨_, hevictable⟩
  have honly : v = ⟨⟨0⟩, 1⟩ := by
    have hin : v ∈ crowded.store.cache.pages := Std.TreeMap.mem_keys.2 hv.1
    rw [hresident] at hin
    exact List.mem_singleton.1 hin
  subst honly
  refine ⟨hempty, hdirty, page, hp, ?_⟩
  rcases hleft with ⟨e, -, -, he, -⟩ | ⟨-, hevicted⟩
  · rw [he] at hfetched
    cases hfetched
  · exact hevicted

end Engine
end PageStore

import PageStore.Proofs.Pool.Recent
import PageStore.Proofs.Store.Eviction

/-!
# PageStore.Proofs.Store.Residency

Which pages are in memory while pages are only looked at. Nothing is dirty then, so every
page may leave a full pool, and the one that was used least recently does. After any number of pages
have been asked for, the pages in memory are the last ones of them, as many as there is room for.

* `Lately` is what then holds of a pool: the recency order lists the pages used last, and every miss
  is a page that is in memory or was evicted.
* `Lately.hit` and `Lately.miss` say what asking for one page more does, to the pool, its counts and
  the files.
-/

namespace PageStore

namespace Store

variable {s s' : Store} {t : TxnId} {p q v : PageId} {f : FrameId} {page : Page}
  {n : Nat} {us rest : List PageId} {found : FrameId × Page} {e : Error}

/-! ## Reads -/

/-- The reads of a table's file that have been counted. -/
def readsFrom (s : Store) (tb : TableId) : Nat :=
  match s.catalog.table? tb with
  | some t => t.file.reads
  | none => 0

/-- A page that is read is one read of its table. -/
theorem readPage_reads (h : (s.readPage p).2 = .ok page) (tb : TableId) :
    (s.readPage p).1.readsFrom tb =
      if tb = p.table then PageFile.counted (s.readsFrom tb) else s.readsFrom tb := by
  unfold readPage table at h ⊢
  cases ht : s.catalog.table? p.table with
  | none =>
    rw [ht] at h
    cases h
  | some t =>
    rw [ht] at h
    dsimp only at h ⊢
    rcases t.file.read_cases s.volume p.no with ⟨_, hr⟩ | ⟨_, ⟨_, hr⟩ | ⟨_, hr⟩⟩ <;> rw [hr] at h ⊢
    · cases h
    · cases h
    · unfold readsFrom
      dsimp only
      rw [table?_setFile ht]
      by_cases htb : tb = p.table
      · rw [if_pos htb, if_pos htb, htb, ht]
      · rw [if_neg htb, if_neg htb]

/-- No reading fails because a transaction has to be rolled back. -/
theorem readPage_error (h : (s.readPage p).2 = .error e) : e ≠ .aborted t := by
  rintro rfl
  unfold readPage table Page.ofImage at h
  cases ht : s.catalog.table? p.table with
  | none =>
    rw [ht] at h
    cases h
  | some tb =>
    rw [ht] at h
    dsimp only at h
    generalize tb.file.read s.volume p.no = r at h
    obtain ⟨v, file, x⟩ := r
    cases x with
    | error fault => cases h
    | ok image =>
      dsimp only at h
      split at h <;> cases h

/-! ## A pool without dirty pages -/

/-- No page in memory is dirty. -/
def Clean (s : Store) : Prop := ∀ p, s.dirtier p = none

theorem Clean.mayLeave (h : s.Clean) (hframed : s.cache.Framed) (hp : s.cache.contains p = true) :
    s.mayLeave p = true := by
  rw [← evictable_iff hframed]
  refine ⟨hp, ?_⟩
  rintro ⟨u, mode, hu, -⟩
  rw [h p] at hu
  cases hu

theorem Clean.framesWhere (h : s.Clean) {test : Page → Bool}
    (htest : ∀ page, page.dirtier = none → test page = false) :
    s.framesWhere test = [] := by
  rw [List.eq_nil_iff_forall_not_mem]
  intro f hf
  obtain ⟨p, page, hr, hpage, hdirty⟩ := Cache.mem_framesWhere.1 (mem_framesWhere.1 hf)
  have hd := h p
  rw [dirtier_of_cached (page?_of_frame hr hpage)] at hd
  rw [htest page hd] at hdirty
  cases hdirty

theorem Clean.flushPage (h : s.Clean) (hframed : s.cache.Framed) (p : PageId) :
    s.flushPage p = (s, .ok false) := by
  unfold Store.flushPage
  cases hr : s.cache.resident[p]? with
  | none => rfl
  | some f =>
    obtain ⟨page, hf, -⟩ := hframed p f hr
    have hf : s.frame? f = some page := hf
    have hd := h p
    rw [dirtier_of_cached (page?_of_frame hr hf)] at hd
    unfold flushFrame Page.isDirty
    simp [hf, hd]

/-- The page used least recently leaves, and nothing is written. -/
theorem Clean.evict (h : s.Clean) (ht : s.Tidy) (hv : s.cache.recency.victims = v :: rest) :
    s.evict = ({ s with cache := (s.cache.drop v).countEviction }, .ok ()) := by
  have hin : s.cache.contains v = true := by
    rw [← ht.tracked.mem_victims, hv]
    exact List.mem_cons_self
  unfold Store.evict
  rw [hv, List.find?_cons_of_pos (h.mayLeave ht.tracked.framed hin)]
  dsimp only
  rw [h.flushPage ht.tracked.framed]
  rfl

theorem evict_of_none (hv : s.cache.recency.victims = []) :
    s.evict = (s, .error (.poolFull s.config.capacity)) := by
  unfold Store.evict
  rw [hv]
  rfl

/-! ## Asking for a page -/

theorem fetch_of_resident (h : s.cache.Framed) (hin : s.cache.contains p = true) :
    ∃ found, s.fetch p = ({ s with cache := (s.cache.touch p).countHit }, .ok found) := by
  obtain ⟨f, hr⟩ := Cache.contains_iff_exists.1 hin
  obtain ⟨page, hf, -⟩ := h p f hr
  have hcopy : s.cache.copy? p = some (f, page) := Cache.copy?_eq_some.2 ⟨hr, hf⟩
  refine ⟨(f, page), ?_⟩
  unfold fetch
  rw [hcopy]

theorem fetch_of_room (hmiss : s.cache.contains p = false)
    (hroom : ¬ s.config.capacity ≤ s.cache.size) :
    s.fetch p = bringIn { s with cache := s.cache.countMiss } p := by
  rw [fetch_of_missing hmiss]
  unfold makeRoom
  rw [if_neg (show ¬ s.config.capacity ≤ s.cache.countMiss.size from hroom), andThen_ok]

/-- A page that is let in is the most recently used one, and is not dirty. -/
theorem bringIn_ok (ht : s.Tidy) (hclean : s.Clean) (hmiss : s.cache.contains p = false)
    (hok : (s.bringIn p).2 = .ok found) :
    (s.bringIn p).1.Clean ∧ (s.bringIn p).1.config = s.config ∧
      (s.bringIn p).1.cache.recency.victims = s.cache.recency.victims ++ [p] ∧
      ∀ tb, (s.bringIn p).1.readsFrom tb =
        if tb = p.table then PageFile.counted (s.readsFrom tb) else s.readsFrom tb := by
  have hreads := @readPage_reads s p
  have hspec := (readPage_spec s p).2
  obtain ⟨volume, catalog, hread⟩ := readPage_fst s p
  unfold bringIn at hok ⊢
  generalize s.readPage p = r at hread hreads hspec hok ⊢
  obtain ⟨s₁, x⟩ := r
  cases hread
  cases x with
  | error e => cases hok
  | ok page =>
    obtain ⟨rfl, hd, -⟩ := hspec page rfl
    obtain ⟨-, hpages, -⟩ := ht.tracked.framed.load page
    refine ⟨?_, rfl, ?_, hreads rfl⟩
    · intro q
      unfold dirtier
      refine (congrArg (·.bind (·.dirtier)) (hpages q)).trans ?_
      by_cases hq : q = page.id
      · rw [if_pos hq]
        exact hd
      · rw [if_neg hq]
        exact hclean q
    · refine (ht.tracked.paired.victims_touch page.id).trans ?_
      rw [List.erase_of_not_mem]
      rw [ht.tracked.mem_victims, hmiss]
      simp

/-- No page is kept from its reader because somebody has to be rolled back. -/
theorem bringIn_error (h : (s.bringIn p).2 = .error e) : e ≠ .aborted t := by
  have hread := readPage_error (s := s) (p := p) (t := t) (e := e)
  unfold bringIn at h
  generalize s.readPage p = r at h hread
  obtain ⟨s₁, x⟩ := r
  cases x with
  | error e' =>
    cases h
    exact hread rfl
  | ok page => cases h

/-! ## After pages have been asked for -/

/-- What a pool with room for `n` pages is like after some pages, and no others, have been asked for
and got. -/
structure Lately (n : Nat) (s : Store) (us : List PageId) : Prop where
  capacity : s.config.capacity = n
  tidy : s.Tidy
  clean : s.Clean
  order : s.cache.recency.victims = recent n us
  filled : s.cache.stats.misses = s.cache.stats.evictions + s.cache.size
  counted : s.cache.stats.hits + s.cache.stats.misses = us.length

theorem lately_empty (he : s.cache = {}) : s.Lately s.config.capacity [] where
  capacity := rfl
  tidy := tidy_of_empty he
  clean := dirtier_of_empty he
  order := by
    have hnil : recent s.config.capacity [] = [] := by
      simp [recent]
    rw [he, hnil]
    rfl
  filled := by
    rw [he]
    rfl
  counted := by
    rw [he]
    rfl

/-- Only the pool and its capacity count. -/
theorem Lately.congr (h : s.Lately n us) (hconfig : s'.config = s.config)
    (hcache : s'.cache = s.cache) : s'.Lately n us where
  capacity := by rw [hconfig, h.capacity]
  tidy := ⟨by rw [hcache]; exact h.tidy.tracked, by rw [hcache, hconfig]; exact h.tidy.within⟩
  clean p := by
    unfold dirtier
    rw [hcache]
    exact h.clean p
  order := by rw [hcache, h.order]
  filled := by rw [hcache, h.filled]
  counted := by rw [hcache, h.counted]

theorem Lately.contains_iff (h : s.Lately n us) : s.cache.contains p = true ↔ p ∈ recent n us := by
  rw [← h.order, h.tidy.tracked.mem_victims]

theorem Lately.absent (h : s.Lately n us) (hp : p ∉ recent n us) : s.cache.contains p = false := by
  rwa [← Bool.not_eq_true, h.contains_iff]

theorem Lately.size_eq (h : s.Lately n us) : s.cache.size = (recent n us).length := by
  rw [h.tidy.tracked.size_eq, h.order]

/-- A page in memory is got from there, and no file is touched. -/
structure Hit (s s' : Store) : Prop where
  hits : s'.cache.stats.hits = s.cache.stats.hits + 1
  misses : s'.cache.stats.misses = s.cache.stats.misses
  volume : s'.volume = s.volume
  catalog : s'.catalog = s.catalog

/-- A page is got with one read of its table, and nothing is written. -/
structure Miss (s : Store) (p : PageId) (s' : Store) : Prop where
  hits : s'.cache.stats.hits = s.cache.stats.hits
  misses : s'.cache.stats.misses = s.cache.stats.misses + 1
  reads : ∀ tb, s'.readsFrom tb =
    if tb = p.table then PageFile.counted (s.readsFrom tb) else s.readsFrom tb
  writes : ∀ tb, s'.writesTo tb = s.writesTo tb
  content : ∀ key, s'.volume.content key = s.volume.content key

theorem Lately.hit (h : s.Lately n us) (hp : p ∈ recent n us) :
    (s.fetch p).1.Lately n (us ++ [p]) ∧ (s.fetch p).1.locks = s.locks ∧ Hit s (s.fetch p).1 := by
  have htidy := (tidies_fetch h.tidy p).tidy
  obtain ⟨found, hfetch⟩ := fetch_of_resident h.tidy.tracked.framed (h.contains_iff.2 hp)
  rw [hfetch] at htidy ⊢
  refine ⟨⟨h.capacity, htidy, h.clean, ?_, h.filled, ?_⟩, rfl, rfl, rfl, rfl, rfl⟩
  · refine (h.tidy.tracked.paired.victims_touch p).trans ?_
    rw [h.order, recent_of_mem hp]
  · have := h.counted
    rw [List.length_append, List.length_singleton]
    change s.cache.stats.hits + 1 + s.cache.stats.misses = us.length + 1
    omega

/-- The pool when a page that it does not have is about to be read: a miss has been counted, and
there is room. -/
structure Ready (n : Nat) (s : Store) (us : List PageId) (p : PageId) (s₁ : Store) : Prop where
  tidy : s₁.Tidy
  clean : s₁.Clean
  outside : ∃ cache, s₁ = { s with cache }
  fetch : s.fetch p = s₁.bringIn p
  apart : s₁.cache.contains p = false
  order : s₁.cache.recency.victims ++ [p] = recent n (us ++ [p])
  hits : s₁.cache.stats.hits = s.cache.stats.hits
  misses : s₁.cache.stats.misses = s.cache.stats.misses + 1
  filled : s₁.cache.stats.misses = s₁.cache.stats.evictions + (s₁.cache.size + 1)

/-- While there is room nobody leaves. -/
theorem Lately.ready_of_room (h : s.Lately n us) (hp : p ∉ recent n us)
    (hroom : ¬ n ≤ s.cache.size) : s.Ready n us p { s with cache := s.cache.countMiss } where
  tidy := ⟨h.tidy.tracked.retains rfl rfl (.refl _), h.tidy.within⟩
  clean := h.clean
  outside := ⟨_, rfl⟩
  fetch := fetch_of_room (h.absent hp) (by rwa [h.capacity])
  apart := h.absent hp
  order := by
    refine (congrArg (· ++ [p]) h.order).trans (recent_of_short hp ?_).symm
    rw [← h.size_eq]
    omega
  hits := rfl
  misses := rfl
  filled := by
    have := h.filled
    change s.cache.stats.misses + 1 = s.cache.stats.evictions + (s.cache.size + 1)
    omega

/-- A full pool gives up the page that was used least recently. -/
theorem Lately.ready_of_full (h : s.Lately n us) (hp : p ∉ recent n us) (hfull : n ≤ s.cache.size)
    (hv : s.cache.recency.victims = v :: rest) :
    s.Ready n us p { s with cache := (s.cache.countMiss.drop v).countEviction } := by
  have htidy : Tidy { s with cache := s.cache.countMiss } :=
    ⟨h.tidy.tracked.retains rfl rfl (.refl _), h.tidy.within⟩
  have hevict := Clean.evict (s := { s with cache := s.cache.countMiss }) h.clean htidy hv
  have hleft := (tidies_evict htidy).1.tidy
  rw [hevict] at hleft
  have hrest : ((s.cache.countMiss.drop v).countEviction).recency.victims = rest := by
    refine (h.tidy.tracked.paired.victims_remove v).trans ?_
    rw [hv, List.erase_cons_head]
  constructor
  case tidy => exact hleft
  case clean =>
    intro q
    unfold dirtier
    refine (congrArg (·.bind (·.dirtier)) (Cache.page?_drop _ v q)).trans ?_
    by_cases hq : q = v
    · rw [if_pos hq]
      rfl
    · rw [if_neg hq]
      exact h.clean q
  case outside => exact ⟨_, rfl⟩
  case fetch =>
    rw [fetch_of_full (h.absent hp) (by rwa [h.capacity]), hevict]
    rfl
  case apart =>
    refine (Cache.contains_drop _ v p).trans ?_
    rw [show s.cache.countMiss.contains p = s.cache.contains p from rfl, h.absent hp]
    split <;> rfl
  case order =>
    refine (congrArg (· ++ [p]) hrest).trans (recent_of_full (v := v) ?_ hp ?_).symm
    · rw [← h.order, hv]
    · rwa [← h.size_eq]
  case hits => rfl
  case misses => rfl
  case filled =>
    -- one page less and one eviction more, and the miss leaves room for one page
    have hfilled := h.filled
    have hsize := h.tidy.tracked.size_eq
    have hsize' := hleft.tracked.size_eq
    dsimp only at hsize' ⊢
    rw [hv, List.length_cons] at hsize
    rw [hrest] at hsize'
    rw [hsize', ← hsize]
    change s.cache.stats.misses + 1 = s.cache.stats.evictions + 1 + s.cache.size
    omega

theorem Lately.ready (h : s.Lately n us) (hp : p ∉ recent n us) :
    (∃ s₁, s.Ready n us p s₁) ∨ (s.fetch p).2 = .error (.poolFull n) := by
  by_cases hroom : n ≤ s.cache.size
  · cases hv : s.cache.recency.victims with
    | cons v rest => exact .inl ⟨_, h.ready_of_full hp hroom hv⟩
    | nil =>
      right
      rw [fetch_of_full (h.absent hp) (by rwa [h.capacity]),
        evict_of_none (s := { s with cache := s.cache.countMiss }) hv]
      exact congrArg (fun k => Except.error (Error.poolFull k)) h.capacity
  · exact .inl ⟨_, h.ready_of_room hp hroom⟩

theorem Lately.miss (h : s.Lately n us) (hp : p ∉ recent n us)
    (hok : (s.fetch p).2 = .ok found) :
    (s.fetch p).1.Lately n (us ++ [p]) ∧ (s.fetch p).1.locks = s.locks ∧
      Miss s p (s.fetch p).1 := by
  rcases h.ready hp with ⟨s₁, hready⟩ | hfull
  · obtain ⟨cache, hs₁⟩ := hready.outside
    have htidy := (tidies_fetch h.tidy p).tidy
    rw [hready.fetch] at hok htidy ⊢
    obtain ⟨hclean, hconfig, horder, hreads⟩ := bringIn_ok hready.tidy hready.clean hready.apart hok
    obtain ⟨hun, hstats, -⟩ := bringIn_spec hready.tidy.tracked.framed p
    have hsize : (s₁.bringIn p).1.cache.size = s₁.cache.size + 1 := by
      rw [htidy.tracked.size_eq, horder, List.length_append, ← hready.tidy.tracked.size_eq]
      rfl
    have hcounted := h.counted
    refine ⟨⟨?_, htidy, hclean, ?_, ?_, ?_⟩, ?_, ?_, ?_, ?_, ?_, ?_⟩
    · rw [hconfig, hs₁, ← h.capacity]
    · rw [horder, hready.order]
    · rw [hstats, hsize, hready.filled]
    · rw [hstats, hready.hits, hready.misses, List.length_append, List.length_singleton]
      omega
    · rw [hun.locks, hs₁]
    · rw [hstats, hready.hits]
    · rw [hstats, hready.misses]
    · rw [hs₁] at hreads ⊢
      exact hreads
    · rw [hs₁] at hun ⊢
      exact hun.writes
    · rw [hs₁] at hun ⊢
      exact hun.content
  · rw [hfull] at hok
    cases hok

/-- What getting a page comes to, by whether it is one of the `n` that were used last. -/
structure Gets (n : Nat) (us : List PageId) (s : Store) (p : PageId) (s' : Store) : Prop where
  hit : p ∈ recent n us ↔ Hit s s'
  miss : p ∉ recent n us ↔ Miss s p s'

theorem Hit.not_miss (h : Hit s s') : ¬ Miss s p s' := by
  intro hmiss
  have := h.hits
  have := hmiss.hits
  omega

theorem gets_of (hhit : p ∈ recent n us → Hit s s') (hmiss : p ∉ recent n us → Miss s p s') :
    s.Gets n us p s' where
  hit := by
    refine ⟨hhit, fun h => ?_⟩
    by_contra hout
    exact h.not_miss (hmiss hout)
  miss := ⟨hmiss, fun h hin => (hhit hin).not_miss h⟩

/-- The locks do not count. -/
theorem Gets.of_locks {l : LockManager} (h : Gets n us { s with locks := l } p s') :
    s.Gets n us p s' := by
  refine gets_of (fun hin => ?_) (fun hout => ?_)
  · obtain ⟨hhits, hmisses, hvolume, hcatalog⟩ := h.hit.1 hin
    exact ⟨hhits, hmisses, hvolume, hcatalog⟩
  · obtain ⟨hhits, hmisses, hreads, hwrites, hcontent⟩ := h.miss.1 hout
    exact ⟨hhits, hmisses, hreads, hwrites, hcontent⟩

theorem Lately.fetch (h : s.Lately n us) (hok : (s.fetch p).2 = .ok found) :
    (s.fetch p).1.Lately n (us ++ [p]) ∧ (s.fetch p).1.locks = s.locks ∧
      s.Gets n us p (s.fetch p).1 := by
  by_cases hp : p ∈ recent n us
  · obtain ⟨hlately, hlocks, hhit⟩ := h.hit hp
    exact ⟨hlately, hlocks, gets_of (fun _ => hhit) fun hout => absurd hp hout⟩
  · obtain ⟨hlately, hlocks, hmiss⟩ := h.miss hp hok
    exact ⟨hlately, hlocks, gets_of (fun hin => absurd hin hp) fun _ => hmiss⟩

theorem Lately.fetch_error (h : s.Lately n us) (he : (s.fetch p).2 = .error e) :
    e ≠ .aborted t := by
  by_cases hp : p ∈ recent n us
  · obtain ⟨found, hfetch⟩ := fetch_of_resident h.tidy.tracked.framed (h.contains_iff.2 hp)
    rw [hfetch] at he
    cases he
  · rcases h.ready hp with ⟨s₁, hready⟩ | hfull
    · rw [hready.fetch] at he
      exact bringIn_error he
    · rw [hfull] at he
      rintro rfl
      cases he

/-- Nothing has been done yet with the pool and the locks. There may be any tables. -/
structure Unused (s : Store) : Prop where
  cache : s.cache = {}
  locks : s.locks = { config := s.config.lock }

theorem unused_start (config : PoolConfig) (v : Volume) : (start config v).Unused := ⟨rfl, rfl⟩

theorem Unused.createTable (h : s.Unused) (name path : String) (schema : Schema) :
    (s.createTable name path schema).1.Unused := by
  unfold Store.createTable
  split
  · exact h
  · exact ⟨h.cache, h.locks⟩

/-! ## The end of a transaction that has changed nothing -/

theorem Clean.flushAll (h : s.Clean) : s.flushAll = (s, .ok ()) := by
  unfold Store.flushAll
  rw [h.framesWhere fun page hd => by simp [Page.isDirty, hd]]
  rfl

theorem Clean.flushOf (h : s.Clean) (t : TxnId) : s.flushOf t = (s, .ok ()) := by
  unfold Store.flushOf
  rw [h.framesWhere fun page hd => by simp [hd]]
  rfl

theorem Clean.commit (h : s.Clean) (t : TxnId) : s.commit t = (s.releaseAll t, .ok ()) := by
  unfold Store.commit
  cases s.config.commitFlush with
  | allDirty =>
    dsimp only
    rw [h.flushAll]
    rfl
  | transaction =>
    dsimp only
    rw [h.flushOf]
    rfl

theorem Clean.abort (h : s.Clean) (t : TxnId) : s.abort t = (s.releaseAll t, .ok ()) := by
  unfold Store.abort restore
  rw [h.framesWhere fun page hd => by simp [hd]]
  rfl

end Store
end PageStore

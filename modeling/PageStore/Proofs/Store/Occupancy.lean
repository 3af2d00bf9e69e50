import PageStore.Proofs.Pool.Residents
import PageStore.Proofs.Store.Caching

/-!
# PageStore.Proofs.Store.Occupancy

Which pages a pool holds, under any interleaving of what is done to it. `PoolStep` cuts the
operations of a pool into the parts that nothing can come between: of an insertion or a deletion
that marks a page the mark is one part, and the frame's return into the cache another. A step that
lets a page in asserts that the pool is then within its capacity, and gives no store if it is not
(`Store.checked`).

* `tidy_afterStep`: one step keeps the pool `Tidy`.
* `reached_act`: every action of an engine is a sequence of such steps.
* `Run.pool_is_orderly`: from there, by induction on the steps, the pool is in order after all of
  them, and no assertion fails.
-/

namespace PageStore

/-- What is done to a pool in one go. -/
inductive PoolStep where
  | fetch (p : PageId)
  /-- A frame that has been marked goes back into the cache. -/
  | rejoin (f : FrameId)
  /-- Whoever got hold of a frame changes what its page holds, or who dirtied it. -/
  | change (f : FrameId) (page : Page)
  | flush (f : FrameId)
  | discard (p : PageId)
  /-- Locks, files and tables change, and the order in which the cached pages come. -/
  | outside (locks : LockManager) (volume : Volume) (catalog : Catalog) (walk : Walk)
  | restart

namespace Store

variable {s s' s'' : Store} {t : TxnId} {p : PageId} {f : FrameId} {page : Page} {c : Call}
  {α β : Type}

/-- What `markDirty` does once the frame is marked: it makes sure that the cache holds this frame and
no other copy of the page. -/
def rejoin (s : Store) (f : FrameId) : Result Unit :=
  match s.frame? f with
  | none => (s, .ok ())
  | some page =>
    match s.cache.resident[page.id]? with
    | some g =>
      if g = f then ({ s with cache := s.cache.touch page.id }, .ok ())
      else ({ s with cache := s.cache.keep page.id f }, .ok ())
    | none =>
      andThen s.makeRoom fun s _ => ({ s with cache := s.cache.keep page.id f }, .ok ())

def afterStep (s : Store) : PoolStep → Store
  | .fetch p => (s.fetch p).1
  | .rejoin f => (s.rejoin f).1
  | .change f page =>
    match s.frame? f with
    | none => s
    | some old => s.setFrame f { page with id := old.id }
  | .flush f => (s.flushFrame f).1
  | .discard p => (s.discard p).1
  | .outside locks volume catalog walk => { s with locks, volume, catalog, walk }
  | .restart => s.restart

def afterSteps (s : Store) (steps : List PoolStep) : Store := steps.foldl afterStep s

/-- A store that has let a page in must be within its capacity. -/
def asserted : Result α → Option Store
  | (s, .ok _) => if s.cache.size ≤ s.config.capacity then some s else none
  | (s, .error _) => some s

/-- One step, with the assertion of those that let pages in. -/
def checked (s : Store) : PoolStep → Option Store
  | .fetch p => asserted (s.fetch p)
  | .rejoin f => asserted (s.rejoin f)
  | step => some (s.afterStep step)

def checkedAll (s : Store) (steps : List PoolStep) : Option Store := steps.foldlM checked s

/-- The pool holds at most as many pages as it may. Its recency order lists just these, each once, and
every one of them has a frame that holds this very page. -/
structure Orderly (s : Store) : Prop where
  tracked : ∀ p, s.cache.recency.contains p = s.cache.contains p
  listed : ∀ p, p ∈ s.cache.recency.victims ↔ s.cache.contains p = true
  once : s.cache.recency.victims.Nodup
  within : s.cache.size ≤ s.config.capacity
  own : s.cache.Framed

/-- What every step keeps. -/
structure Tidy (s : Store) : Prop where
  tracked : s.cache.Tracked
  within : s.cache.size ≤ s.config.capacity

theorem Tidy.orderly (h : s.Tidy) : s.Orderly where
  tracked := h.tracked.contains
  listed _ := h.tracked.mem_victims
  once := h.tracked.paired.nodup_victims
  within := h.within
  own := h.tracked.framed

theorem tidy_of_empty (he : s.cache = {}) : s.Tidy := by
  refine ⟨by rw [he]; exact Cache.tracked_empty, ?_⟩
  rw [he]
  exact Nat.zero_le _

/-! ## What one step keeps -/

/-- The pool is still tidy, and every frame still has its page. -/
structure Tidies (s s' : Store) : Prop where
  tidy : s'.Tidy
  config : s'.config = s.config
  frames : Cache.Retains s.cache s'.cache

theorem Tidies.refl (h : s.Tidy) : Tidies s s := ⟨h, rfl, .refl _⟩

theorem Tidies.trans (h : Tidies s s') (h' : Tidies s' s'') : Tidies s s'' :=
  ⟨h'.tidy, h'.config.trans h.config, h.frames.trans h'.frames⟩

theorem readPage_fst (s : Store) (p : PageId) :
    ∃ volume catalog, (s.readPage p).1 = { s with volume, catalog } := by
  unfold readPage
  cases s.table p.table with
  | error e => exact ⟨s.volume, s.catalog, rfl⟩
  | ok t =>
    dsimp only
    generalize t.file.read s.volume p.no = r
    obtain ⟨v, file, x⟩ := r
    cases x <;> exact ⟨_, _, rfl⟩

theorem writePage_fst (s : Store) (page : Page) :
    ∃ volume catalog, (s.writePage page).1 = { s with volume, catalog } := by
  unfold writePage
  cases s.table page.id.table with
  | error e => exact ⟨s.volume, s.catalog, rfl⟩
  | ok t =>
    dsimp only
    generalize t.file.write s.volume page.id.no page.image = r
    obtain ⟨v, file, x⟩ := r
    cases x <;> exact ⟨_, _, rfl⟩

theorem tidies_outside (h : s.Tidy) (locks : LockManager) (volume : Volume) (catalog : Catalog) :
    Tidies s { s with locks, volume, catalog } :=
  ⟨⟨h.tracked, h.within⟩, rfl, .refl _⟩

theorem tidies_setFrame (h : s.Tidy) (hid : ∀ old, s.frame? f = some old → page.id = old.id) :
    Tidies s (s.setFrame f page) := by
  have hframes := Cache.retains_setFrame hid
  exact ⟨⟨h.tracked.retains rfl rfl hframes, h.within⟩, rfl, hframes⟩

theorem tidies_flushFrame (h : s.Tidy) (f : FrameId) :
    Tidies s (s.flushFrame f).1 ∧ (s.flushFrame f).1.cache.resident = s.cache.resident := by
  unfold flushFrame
  cases hf : s.frame? f with
  | none => exact ⟨.refl h, rfl⟩
  | some page =>
    dsimp only
    by_cases hclean : (!page.isDirty) = true
    · rw [if_pos hclean]
      exact ⟨.refl h, rfl⟩
    · rw [if_neg hclean]
      obtain ⟨v, cat, hw⟩ := writePage_fst s page
      generalize s.writePage page = r at hw
      obtain ⟨s₁, x⟩ := r
      cases hw
      have h₁ := tidies_outside h s.locks v cat
      cases x with
      | error e => exact ⟨h₁, rfl⟩
      | ok u =>
        rw [andThen_ok]
        refine ⟨h₁.trans (tidies_setFrame h₁.tidy fun old hold => ?_), rfl⟩
        have hold : s.frame? f = some old := hold
        rw [hf] at hold
        cases hold
        rfl

/-- An eviction that succeeds makes room for a page. -/
theorem tidies_evict (h : s.Tidy) :
    Tidies s s.evict.1 ∧ (s.evict.2 = .ok () → s.evict.1.cache.size < s.cache.size) := by
  unfold evict
  cases hv : s.cache.recency.victims.find? s.mayLeave with
  | none => exact ⟨.refl h, fun hok => by cases hok⟩
  | some p =>
    dsimp only
    have hp : s.cache.contains p = true := h.tracked.mem_victims.1 (List.mem_of_find?_eq_some hv)
    have hflush : Tidies s (s.flushPage p).1 ∧
        (s.flushPage p).1.cache.resident = s.cache.resident := by
      unfold flushPage
      cases s.cache.resident[p]? with
      | none => exact ⟨.refl h, rfl⟩
      | some f => exact tidies_flushFrame h f
    generalize s.flushPage p = r at hflush
    obtain ⟨s₁, x⟩ := r
    obtain ⟨h₁, hres⟩ := hflush
    cases x with
    | error e => exact ⟨h₁, fun hok => by cases hok⟩
    | ok b =>
      rw [andThen_ok]
      have hp₁ : s₁.cache.contains p = true := by
        unfold Cache.contains
        rw [hres]
        exact hp
      have hsize : s₁.cache.size = s.cache.size := congrArg Std.TreeMap.size hres
      have hlt : (s₁.cache.drop p).size < s.cache.size := hsize ▸ Cache.size_drop_lt hp₁
      have htracked : (s₁.cache.drop p).countEviction.Tracked :=
        (h₁.tidy.tracked.drop p).retains rfl rfl (.refl _)
      refine ⟨h₁.trans ⟨⟨htracked, ?_⟩, rfl, .refl _⟩, fun _ => hlt⟩
      exact Nat.le_trans (Cache.size_drop_le s₁.cache p) h₁.tidy.within

theorem tidies_makeRoom (h : s.Tidy) :
    Tidies s s.makeRoom.1 ∧
      (s.makeRoom.2 = .ok () → s.makeRoom.1.cache.size < s.makeRoom.1.config.capacity) := by
  unfold makeRoom
  by_cases hfull : s.config.capacity ≤ s.cache.size
  · rw [if_pos hfull]
    obtain ⟨h₁, hlt⟩ := tidies_evict h
    refine ⟨h₁, fun hok => ?_⟩
    rw [h₁.config]
    exact Nat.lt_of_lt_of_le (hlt hok) h.within
  · rw [if_neg hfull]
    exact ⟨.refl h, fun _ => Nat.lt_of_not_le hfull⟩

/-- A frame may be kept as the copy of its page if there is room for one page more. -/
theorem tidies_keep (h : s.Tidy) (hf : s.frame? f = some page)
    (hroom : s.cache.size < s.config.capacity) :
    Tidies s { s with cache := s.cache.keep page.id f } := by
  refine ⟨⟨h.tracked.keep hf, ?_⟩, rfl, .refl _⟩
  exact Nat.le_trans (Cache.size_keep_le s.cache page.id f) hroom

theorem tidies_load (h : s.Tidy) (page : Page) :
    Tidies s { s with cache := (s.cache.load page).1 } := by
  have hframes := Cache.retains_load s.cache page
  exact ⟨⟨h.tracked.retains rfl rfl hframes, h.within⟩, rfl, hframes⟩

theorem tidies_fetch (h : s.Tidy) (p : PageId) : Tidies s (s.fetch p).1 := by
  unfold fetch
  cases hc : s.cache.copy? p with
  | some found =>
    obtain ⟨f, page⟩ := found
    obtain ⟨hr, _⟩ := Cache.copy?_eq_some.1 hc
    have htracked : (s.cache.touch p).countHit.Tracked :=
      (h.tracked.touch (Cache.contains_of_resident hr)).retains rfl rfl (.refl _)
    exact ⟨⟨htracked, h.within⟩, rfl, .refl _⟩
  | none =>
    have h₁ : Tidies s { s with cache := s.cache.countMiss } :=
      ⟨⟨h.tracked.retains rfl rfl (.refl _), h.within⟩, rfl, .refl _⟩
    obtain ⟨h₂, hroom⟩ := tidies_makeRoom h₁.tidy
    dsimp only
    generalize makeRoom { s with cache := s.cache.countMiss } = r at h₂ hroom
    obtain ⟨s₂, x⟩ := r
    cases x with
    | error e => exact h₁.trans h₂
    | ok u =>
      rw [andThen_ok]
      obtain ⟨v, cat, hread⟩ := readPage_fst s₂ p
      have hid := fun page => (readPage_spec s₂ p).2 page
      generalize s₂.readPage p = r at hread hid
      obtain ⟨s₃, x⟩ := r
      cases hread
      have h₃ := (h₁.trans h₂).trans (tidies_outside h₂.tidy s₂.locks v cat)
      cases x with
      | error e => exact h₃
      | ok page =>
        rw [andThen_ok]
        obtain ⟨rfl, _⟩ := hid page rfl
        have h₄ := h₃.trans (tidies_load h₃.tidy page)
        exact h₄.trans (tidies_keep h₄.tidy (Cache.frame?_load s₂.cache page) (hroom rfl))

theorem tidies_rejoin (h : s.Tidy) (f : FrameId) : Tidies s (s.rejoin f).1 := by
  unfold rejoin
  cases hf : s.frame? f with
  | none => exact .refl h
  | some page =>
    dsimp only
    cases hr : s.cache.resident[page.id]? with
    | some g =>
      have hin := Cache.contains_of_resident hr
      dsimp only
      by_cases hg : g = f
      · rw [if_pos hg]
        exact ⟨⟨h.tracked.touch hin, h.within⟩, rfl, .refl _⟩
      · rw [if_neg hg]
        refine ⟨⟨h.tracked.keep hf, ?_⟩, rfl, .refl _⟩
        exact Nat.le_trans (Nat.le_of_eq (Cache.size_keep_of_contains hin f)) h.within
    | none =>
      obtain ⟨h₁, hroom⟩ := tidies_makeRoom h
      dsimp only
      generalize s.makeRoom = r at h₁ hroom
      obtain ⟨s₁, x⟩ := r
      cases x with
      | error e => exact h₁
      | ok u =>
        rw [andThen_ok]
        obtain ⟨page', hf', hid⟩ := h₁.frames f page hf
        rw [← hid]
        exact h₁.trans (tidies_keep h₁.tidy hf' (hroom rfl))

theorem tidy_afterStep (h : s.Tidy) (step : PoolStep) :
    (s.afterStep step).Tidy ∧ (s.afterStep step).config = s.config := by
  cases step with
  | fetch p =>
    have hs := tidies_fetch h p
    exact ⟨hs.tidy, hs.config⟩
  | rejoin f =>
    have hs := tidies_rejoin h f
    exact ⟨hs.tidy, hs.config⟩
  | change f page =>
    unfold afterStep
    dsimp only
    cases hf : s.frame? f with
    | none => exact ⟨h, rfl⟩
    | some old =>
      have hs : Tidies s (s.setFrame f { page with id := old.id }) := by
        refine tidies_setFrame h fun old' hold => ?_
        rw [hf] at hold
        cases hold
        rfl
      exact ⟨hs.tidy, hs.config⟩
  | flush f =>
    have hs := (tidies_flushFrame h f).1
    exact ⟨hs.tidy, hs.config⟩
  | discard p =>
    refine ⟨⟨h.tracked.drop p, ?_⟩, rfl⟩
    exact Nat.le_trans (Cache.size_drop_le s.cache p) h.within
  | outside locks volume catalog walk => exact ⟨⟨h.tracked, h.within⟩, rfl⟩
  | restart => exact ⟨tidy_of_empty rfl, rfl⟩

theorem asserted_eq {r : Result α} (h : r.1.Tidy) : asserted r = some r.1 := by
  obtain ⟨s, x⟩ := r
  cases x with
  | error e => rfl
  | ok a => exact if_pos h.within

theorem checked_eq (h : s.Tidy) (step : PoolStep) : s.checked step = some (s.afterStep step) := by
  have h' := (tidy_afterStep h step).1
  cases step with
  | fetch p => exact asserted_eq h'
  | rejoin f => exact asserted_eq h'
  | _ => rfl

/-- No assertion fails, and the pool stays tidy, whatever is done to it. -/
theorem checkedAll_eq (steps : List PoolStep) :
    ∀ {s : Store}, s.Tidy → s.checkedAll steps = some (s.afterSteps steps) ∧
      (s.afterSteps steps).Tidy ∧ (s.afterSteps steps).config = s.config := by
  induction steps with
  | nil => exact fun h => ⟨rfl, h, rfl⟩
  | cons step rest ih =>
    intro s h
    obtain ⟨h₁, hconfig⟩ := tidy_afterStep h step
    obtain ⟨hchecked, h₂, hconfig'⟩ := ih h₁
    refine ⟨?_, h₂, hconfig'.trans hconfig⟩
    unfold checkedAll
    rw [List.foldlM_cons, checked_eq h step]
    exact hchecked

/-! ## The operations as steps -/

/-- What some steps lead to. -/
def Reached (s s' : Store) : Prop := ∃ steps, s.afterSteps steps = s'

theorem Reached.refl (s : Store) : Reached s s := ⟨[], rfl⟩

theorem Reached.trans (h : Reached s s') (h' : Reached s' s'') : Reached s s'' := by
  obtain ⟨steps, rfl⟩ := h
  obtain ⟨steps', rfl⟩ := h'
  exact ⟨steps ++ steps', List.foldl_append⟩

theorem reached_step (s : Store) (step : PoolStep) : Reached s (s.afterStep step) := ⟨[step], rfl⟩

theorem reached_outside (s : Store) (locks : LockManager) (volume : Volume) (catalog : Catalog) :
    Reached s { s with locks, volume, catalog } :=
  reached_step s (.outside locks volume catalog s.walk)

theorem reached_andThen {r : Result α} {k : Store → α → Result β} (h : Reached s r.1)
    (hk : ∀ s' a, r = (s', .ok a) → Reached s' (k s' a).1) : Reached s (andThen r k).1 := by
  obtain ⟨s', x⟩ := r
  cases x with
  | error e => exact h
  | ok a => exact h.trans (hk s' a rfl)

theorem reached_setFrame (hf : s.frame? f = some page) {page' : Page} (hid : page'.id = page.id) :
    Reached s (s.setFrame f page') := by
  have hchange : s.afterStep (.change f page') = s.setFrame f page' := by
    unfold afterStep
    dsimp only
    rw [hf]
    dsimp only
    rw [← hid]
  rw [← hchange]
  exact reached_step s (.change f page')

theorem reached_readPage (s : Store) (p : PageId) : Reached s (s.readPage p).1 := by
  obtain ⟨v, cat, hread⟩ := readPage_fst s p
  rw [hread]
  exact reached_outside s s.locks v cat

theorem frame?_setFrame_self (hf : s.frame? f = some page) (page' : Page) :
    (s.setFrame f page').frame? f = some page' := by
  rw [frame?, setFrame, Cache.frame?_setFrame hf, if_pos rfl]

theorem reached_markDirty (s : Store) (t : TxnId) (f : FrameId) : Reached s (s.markDirty t f).1 := by
  cases hf : s.frame? f with
  | none =>
    unfold markDirty
    rw [hf]
    exact .refl s
  | some page =>
    have heq : s.markDirty t f = (s.setFrame f (page.mark (some t))).rejoin f := by
      unfold markDirty rejoin
      rw [hf, frame?_setFrame_self hf]
      rfl
    rw [heq]
    have hmark : Reached s (s.setFrame f (page.mark (some t))) := reached_setFrame hf rfl
    exact hmark.trans (reached_step _ (.rejoin f))

theorem reached_flushPage (s : Store) (p : PageId) : Reached s (s.flushPage p).1 := by
  unfold flushPage
  cases s.cache.resident[p]? with
  | none => exact .refl s
  | some f => exact reached_step s (.flush f)

theorem reached_flushFrames (fs : List FrameId) : ∀ s : Store, Reached s (s.flushFrames fs).1 := by
  induction fs with
  | nil => exact .refl
  | cons f rest ih =>
    intro s
    exact reached_andThen (reached_step s (.flush f)) fun s' _ _ => ih s'

theorem reached_reloadFrames (fs : List FrameId) :
    ∀ s : Store, Reached s (s.reloadFrames fs).1 := by
  induction fs with
  | nil => exact .refl
  | cons f rest ih =>
    intro s
    unfold reloadFrames
    cases hf : s.frame? f with
    | none => exact ih s
    | some page =>
      refine reached_andThen (reached_readPage s page.id) fun s' fresh hr => ?_
      obtain ⟨ha, hread⟩ := readPage_spec s page.id
      rw [hr] at ha hread
      have hf' : s'.frame? f = some page := by
        unfold frame?
        rw [ha.cache]
        exact hf
      exact (reached_setFrame hf' (hread fresh rfl).1).trans (ih _)

theorem reached_releaseAll (s : Store) (t : TxnId) : Reached s (s.releaseAll t) :=
  reached_outside s (s.locks.releaseAll t) s.volume s.catalog

theorem reached_commit (s : Store) (t : TxnId) : Reached s (s.commit t).1 := by
  refine reached_andThen ?_ fun s' _ _ => reached_releaseAll s' t
  cases s.config.commitFlush with
  | allDirty => exact reached_flushFrames _ s
  | transaction => exact reached_flushFrames _ s

theorem reached_abort (s : Store) (t : TxnId) : Reached s (s.abort t).1 :=
  reached_andThen (reached_reloadFrames _ s) fun s' _ _ => reached_releaseAll s' t

theorem reached_reopen (s : Store) : Reached s s.reopen := by
  have htables : ∀ (ts : List Table) (s : Store),
      Reached s (ts.foldl (fun s t => (s.createTable t.name t.file.path t.schema).1) s) := by
    intro ts
    induction ts with
    | nil => exact .refl
    | cons t rest ih =>
      intro s
      have htable : Reached s (s.createTable t.name t.file.path t.schema).1 := by
        unfold createTable
        cases s.catalog.create s.volume t.name t.file.path t.schema with
        | error e => exact .refl s
        | ok made => exact reached_outside s s.locks made.2.2 made.2.1
      exact htable.trans (ih _)
  exact (reached_step s .restart).trans (htables _ _)

/-! ## The steps of a call -/

theorem reached_appendPage (s : Store) (t : Table) : Reached s (s.appendPage t).1 := by
  unfold appendPage
  refine reached_andThen (r := (s, s.countPages t.id)) (.refl s) fun s' count _ => ?_
  dsimp only
  cases Page.empty ⟨t.id, count⟩ t.schema with
  | error e => exact .refl s'
  | ok page =>
    refine reached_andThen ?_ fun s' _ _ => .refl s'
    obtain ⟨v, cat, hw⟩ := writePage_fst s' page
    rw [hw]
    exact reached_outside s' s'.locks v cat

theorem reached_aim (s : Store) (c : Call) : Reached s (s.aim c).1 := by
  have haims := s.aims c
  generalize s.aim c = r at haims
  cases haims with
  | unappended => exact reached_appendPage s _
  | appended => exact reached_appendPage s _
  | _ => exact .refl s

theorem reached_finishInsert (s : Store) (t : TxnId) (tuple : Tuple) (marks : Bool) (f : FrameId) :
    Reached s (s.finishInsert t tuple marks f).1 := by
  unfold finishInsert
  cases marks with
  | false => exact .refl s
  | true =>
    rw [if_pos rfl]
    have h := reached_markDirty s t f
    generalize s.markDirty t f = r at h
    obtain ⟨s', x⟩ := r
    cases x <;> exact h

theorem reached_use (hf : s.frame? f = some page) (t : TxnId) (c : Call) :
    Reached s (s.use t f page c).1 := by
  cases c with
  | insert tb tuple marks placing =>
    unfold use
    dsimp only
    by_cases hfull : page.isFull = true
    · rw [if_pos hfull]
      exact .refl s
    · rw [if_neg hfull]
      rcases page.insert_cases tuple with ⟨image, e, he, _⟩ | ⟨image, slot, bytes, he, _⟩ <;> rw [he]
      · exact reached_setFrame hf rfl
      · have h₁ : Reached s (s.setFrame f { page with image }) := reached_setFrame hf rfl
        exact h₁.trans (reached_finishInsert _ t _ marks f)
  | delete tuple from? =>
    unfold use
    dsimp only
    cases hd : page.delete tuple with
    | error e => exact .refl s
    | ok page' =>
      obtain ⟨r, _, _, _, hpage, _⟩ := Page.delete_eq_ok hd
      have h₁ : Reached s (s.setFrame f page') := reached_setFrame hf (by rw [hpage])
      dsimp only
      by_cases hfrom : from?.isSome = true
      · rw [if_pos hfrom]
        exact h₁
      · rw [if_neg hfrom]
        have h₂ := h₁.trans (reached_markDirty (s.setFrame f page') t f)
        generalize (s.setFrame f page').markDirty t f = r at h₂
        obtain ⟨s', x⟩ := r
        cases x <;> exact h₂
  | next cursor =>
    unfold use
    dsimp only
    cases page.tuples <;> exact .refl s
  | scan tb no seen =>
    unfold use
    dsimp only
    cases page.tuples <;> exact .refl s
  | lock p m => exact .refl s
  | fetch p access => exact .refl s

theorem frame?_of_fetch (h : (s.fetch p).2 = .ok (f, page)) :
    (s.fetch p).1.frame? f = some page := by
  unfold fetch at h ⊢
  cases hc : s.cache.copy? p with
  | some found =>
    rw [hc] at h
    cases h
    exact (Cache.copy?_eq_some.1 hc).2
  | none =>
    rw [hc] at h
    dsimp only at h ⊢
    generalize makeRoom { s with cache := s.cache.countMiss } = r at h ⊢
    obtain ⟨s₂, x⟩ := r
    cases x with
    | error e => cases h
    | ok u =>
      rw [andThen_ok] at h ⊢
      generalize s₂.readPage p = r at h ⊢
      obtain ⟨s₃, x⟩ := r
      cases x with
      | error e => cases h
      | ok page =>
        cases h
        exact Cache.frame?_load s₃.cache page

theorem reached_proceed (s : Store) (t : TxnId) (p : PageId) (c : Call) :
    Reached s (s.proceed t p c).1 := by
  have h : Reached s (s.fetch p).1 := reached_step s (.fetch p)
  have hframe : ∀ f page, (s.fetch p).2 = .ok (f, page) → (s.fetch p).1.frame? f = some page :=
    fun _ _ => frame?_of_fetch
  unfold proceed
  split
  · exact .refl s
  · generalize s.fetch p = r at h hframe
    obtain ⟨s', x⟩ := r
    cases x with
    | error e => exact h
    | ok found => exact h.trans (reached_use (hframe _ _ rfl) t c)

theorem reached_decided (s : Store) (t : TxnId) (p : PageId) (m : LockMode) (c : Call)
    (r : LockManager × Verdict) : Reached s (s.decided t p m c r).1 := by
  obtain ⟨locks, verdict⟩ := r
  have h := reached_outside s locks s.volume s.catalog
  cases verdict with
  | granted => exact h.trans (reached_proceed _ t p c)
  | asleep => exact h
  | refused => exact h

theorem reached_callStep (s : Store) (t : TxnId) (c : Call) : Reached s (s.step t c).1 := by
  unfold step
  have h := reached_aim s c
  generalize s.aim c = r at h
  obtain ⟨s', x⟩ := r
  cases x with
  | finish a => exact h
  | onward c => exact h
  | page p m c => exact h.trans (reached_decided s' t p m c _)

end Store

namespace Engine

variable {σ σ₀ : Engine} {es : List Event} {s₀ : Store} {ok : Engine → Action → Prop}

/-- Every action is a sequence of steps. -/
theorem reached_act (σ : Engine) (a : Action) : Store.Reached σ.store (σ.act a).store := by
  cases a with
  | device faults lengthFails =>
    exact Store.reached_outside σ.store σ.store.locks
      { σ.store.volume with faults, lengthFails } σ.store.catalog
  | reorder walk =>
    exact Store.reached_step σ.store
      (.outside σ.store.locks σ.store.volume σ.store.catalog walk)
  | call t c => exact .refl _
  | step t =>
    unfold act
    dsimp only
    cases σ.calls t with
    | none => exact .refl _
    | some c => exact Store.reached_callStep σ.store t c
  | resume w =>
    unfold act
    dsimp only
    cases σ.calls w.txn with
    | none => exact .refl _
    | some c => exact Store.reached_decided σ.store w.txn w.page w.mode c _
  | expire w =>
    unfold act
    dsimp only
    cases σ.calls w.txn with
    | none => exact .refl _
    | some c => exact Store.reached_decided σ.store w.txn w.page w.mode c _
  | commit t => exact Store.reached_commit σ.store t
  | abort t => exact Store.reached_abort σ.store t
  | restart => exact Store.reached_reopen σ.store
  | flushPage p => exact Store.reached_flushPage σ.store p
  | flushOf t => exact Store.reached_flushFrames _ σ.store
  | flushAll => exact Store.reached_flushFrames _ σ.store
  | discard p => exact Store.reached_step σ.store (.discard p)
  | release t p =>
    exact Store.reached_outside σ.store (σ.store.locks.release p t).1 σ.store.volume
      σ.store.catalog

theorem Run.reached (h : Run ok (idle s₀) es σ) : Store.Reached s₀ σ.store := by
  induction h with
  | start => exact .refl s₀
  | act a _ _ _ ih => exact ih.trans (reached_act _ a)

/-- Whatever is done to a pool that begins empty, in whatever order its parts are carried out and
whether or not they succeed, no assertion of the capacity fails and the pool is in order; and every
run of an engine is made of such parts. -/
theorem Run.pool_is_orderly (hempty : s₀.cache = {}) :
    (∀ steps, s₀.checkedAll steps = some (s₀.afterSteps steps) ∧ (s₀.afterSteps steps).Orderly ∧
      (s₀.afterSteps steps).config = s₀.config) ∧
    ∀ {ok es σ}, Run ok (idle s₀) es σ →
      (∃ steps, s₀.checkedAll steps = some σ.store) ∧ σ.store.Orderly ∧
        σ.store.config = s₀.config := by
  have htidy := Store.tidy_of_empty hempty
  refine ⟨fun steps => ?_, fun h => ?_⟩
  · obtain ⟨hchecked, h, hconfig⟩ := Store.checkedAll_eq steps htidy
    exact ⟨hchecked, h.orderly, hconfig⟩
  · obtain ⟨steps, hsteps⟩ := h.reached
    obtain ⟨hchecked, htidy', hconfig⟩ := Store.checkedAll_eq steps htidy
    rw [hsteps] at hchecked htidy' hconfig
    exact ⟨⟨steps, hchecked⟩, htidy'.orderly, hconfig⟩

/-- A pool for one page, in which a fetched page has taken the place of a dirty one. -/
theorem crowded_pool_is_orderly :
    (Store.sample { capacity := 1 }).cache = {} ∧
    (∃ steps, (Store.sample { capacity := 1 }).checkedAll steps =
      some (crowded.act (.step ⟨3⟩)).store) ∧
    (crowded.act (.step ⟨3⟩)).store.Orderly ∧
    (crowded.act (.step ⟨3⟩)).store.cache.recency.victims = [⟨⟨0⟩, 0⟩] := by
  have hrun : Run Regular (idle (Store.sample { capacity := 1 }))
      (play (idle (Store.sample { capacity := 1 })) (overlapping ++
        [.release ⟨2⟩ ⟨⟨0⟩, 1⟩, .call ⟨3⟩ (.fetch ⟨⟨0⟩, 0⟩ .readOnly)])).1 crowded :=
    run_play (by decide +kernel)
  have hempty : (Store.sample { capacity := 1 }).cache = {} := rfl
  obtain ⟨hsteps, horderly, _⟩ := (Run.pool_is_orderly hempty).2
    (hrun.act (.step ⟨3⟩) (by decide +kernel) (by decide +kernel))
  exact ⟨hempty, hsteps, horderly, by decide +kernel⟩

end Engine
end PageStore

import PageStore.Proofs.Store.Durable

/-!
# PageStore.Proofs.Store.Handle

Pages that are written through their frames. Whoever has fetched a page keeps its frame, and may
write through it and mark it as long as it holds the page exclusively. The cache takes no notice: a
page that is clean leaves it even if somebody holds the page, and then the frame is no page's copy
any more.

* `Store.writeThrough`: what it does to the store. Through the cache's copy of the page it is an
  edit like that of a call (`writeThrough_resident`); through any other frame nothing of what is
  shown or stored changes (`writeThrough_apart`).
* `Course`: runs in which transactions write through frames between the actions.
* `Course.kept_if_resident`: so a tuple that is put in through the cache's copy is in the file after
  the commit, whatever is fetched and evicted before, and one that is put in through another frame
  is lost. `detached_write_is_lost` has such a run.
-/

namespace PageStore

/-- What is done to a page through its frame. -/
inductive Writing where
  | insert (tuple : Tuple)
  | delete (tuple : Tuple)

namespace Writing

def on (page : Page) : Writing → Page × Except Error Tuple
  | .insert tuple => page.insert tuple
  | .delete tuple =>
    match page.delete tuple with
    | .error e => (page, .error e)
    | .ok page => (page, .ok tuple)

/-- What has been changed if the result is this. -/
def edit? : Writing → Except Error Tuple → Option Edit
  | .insert _, .ok tuple => tuple.record.map fun r => ⟨r, tuple.encode.toOption⟩
  | .delete _, .ok tuple => tuple.record.map fun r => ⟨r, none⟩
  | _, .error _ => none

theorem on_cases (page : Page) (w : Writing) :
    (∃ image e, w.on page = ({ page with image }, .error e) ∧
      image.stored page.schema = page.stored) ∨
    ∃ image tuple slot x, w.on page = ({ page with image }, .ok tuple) ∧
      w.edit? (.ok tuple) = some ⟨⟨page.id, slot⟩, x⟩ ∧
      image.stored page.schema = Function.update page.stored slot x := by
  cases w with
  | insert tuple =>
    rcases page.insert_cases tuple with ⟨image, e, hi, hsame⟩ | ⟨image, slot, bytes, hi, hfree, h⟩
    · exact .inl ⟨image, e, hi, hsame⟩
    · obtain ⟨_, hbytes, hstored⟩ := h
      refine .inr ⟨image, _, slot, some bytes, hi, ?_, hstored⟩
      have hbytes : ({ tuple with record := some (page.recordAt slot) } : Tuple).encode =
        .ok bytes := hbytes
      dsimp only [edit?]
      rw [hbytes, Page.recordAt_eq (Page.firstFree?_eq_some hfree).1]
      rfl
  | delete tuple =>
    simp only [on]
    cases hd : page.delete tuple with
    | error e => exact .inl ⟨page.image, e, rfl, rfl⟩
    | ok page' =>
      obtain ⟨r, hrec, hpage, _, rfl, hstored⟩ := Page.delete_eq_ok hd
      refine .inr ⟨_, tuple, r.slot, none, rfl, ?_, hstored⟩
      simp only [edit?, hrec, ← hpage]
      rfl

end Writing

namespace Store

variable {s : Store} {t : TxnId} {f : FrameId} {page : Page} {w : Writing}

/-- A page is written through its frame, and is marked if that succeeds. -/
def writeThrough (s : Store) (t : TxnId) (f : FrameId) (page : Page) (w : Writing) :
    Result Tuple :=
  match w.on page with
  | (page, .error e) => (s.setFrame f page, .error e)
  | (page, .ok tuple) => (s.setFrame f (page.mark (some t)), .ok tuple)

theorem writeThrough_locks : (s.writeThrough t f page w).1.locks = s.locks := by
  unfold writeThrough
  split <;> rfl

theorem writeThrough_resident (hs : s.Sound) (hr : s.cache.resident[page.id]? = some f)
    (hf : s.frame? f = some page) (hm : s.locks.modeOf page.id t = some .exclusive) :
    (s.writeThrough t f page w).1.Sound ∧ Lasts s (s.writeThrough t f page w).1 ∧
      Turn s (s.writeThrough t f page w).1
        (.ofEdit t (w.edit? (s.writeThrough t f page w).2)) := by
  unfold writeThrough
  rcases w.on_cases page with ⟨image, e, hon, hsame⟩ | ⟨image, tuple, slot, x, hon, hedit, hstored⟩
  · rw [hon]
    obtain ⟨hs', hk⟩ :=
      hs.scribble (W := s.Loose) { page with image } hr hf rfl rfl hsame rfl
    refine ⟨hs', hk.steady.lasts, ?_⟩
    cases w <;> exact .quiet hk.saves (.refl _)
  · rw [hon]
    dsimp only
    rw [hedit]
    obtain ⟨hs', he⟩ := hs.marked (t := t) { page with image } hr hf rfl rfl hstored
    exact ⟨hs', he.steady.lasts, .edited (Keeps.refl s).saves (.refl _) hm he⟩

/-- Nobody sees what is written through a frame that is not the cache's copy. -/
theorem writeThrough_apart {W : PageId → Prop} (hs : s.Sound)
    (hr : s.cache.resident[page.id]? ≠ some f) (hf : s.frame? f = some page) :
    (s.writeThrough t f page w).1.Sound ∧ Keeps W s (s.writeThrough t f page w).1 := by
  -- the frame holds this page, so it is no other page's copy either
  have hout : ∀ q : PageId, s.cache.resident[q]? ≠ some f := by
    intro q hq
    obtain ⟨page', hf', rfl⟩ := hs.framed q f hq
    rw [show s.cache.frame? f = some page from hf] at hf'
    cases hf'
    exact hr hq
  have hset : ∀ page', (s.setFrame f page').Sound ∧ Keeps W s (s.setFrame f page') := by
    intro page'
    obtain ⟨hframed, hpage⟩ := hs.framed.setFrame_apart hf hout page'
    exact same_pages hs hframed hpage
  unfold writeThrough
  split <;> exact hset _

theorem inserted_through {tuple tuple' : Tuple}
    (h : (s.writeThrough t f page (.insert tuple)).2 = .ok tuple') :
    ∃ slot bytes, tuple' = { tuple with record := some ⟨page.id, slot⟩ } ∧
      tuple.schema = page.schema ∧ tuple.encode = .ok bytes := by
  unfold writeThrough at h
  dsimp only [Writing.on] at h
  rcases page.insert_cases tuple with ⟨image, e, hi, _⟩ | ⟨image, slot, bytes, hi, hfree, hrest⟩
  · rw [hi] at h
    cases h
  · obtain ⟨hschema, hbytes, _⟩ := hrest
    rw [hi] at h
    cases h
    rw [Page.recordAt_eq (Page.firstFree?_eq_some hfree).1]
    exact ⟨slot, bytes, rfl, hschema, hbytes⟩

end Store

namespace Engine

variable {σ σ₀ σ₁ : Engine} {es es₁ : List Event} {t : TxnId} {p : PageId} {f : FrameId}
  {page : Page} {w : Writing} {a : Action}

/-- A transaction may write through a frame: it does nothing else just now, and holds the page in
the frame exclusively. -/
structure Grants (σ : Engine) (t : TxnId) (f : FrameId) (page : Page) : Prop where
  calls : σ.calls t = none
  frame : σ.store.frame? f = some page
  held : σ.store.locks.modeOf page.id t = some .exclusive

def through (σ : Engine) (t : TxnId) (f : FrameId) (page : Page) (w : Writing) : Engine :=
  { σ with store := (σ.store.writeThrough t f page w).1 }

def throughEvent (σ : Engine) (t : TxnId) (f : FrameId) (page : Page) (w : Writing) : Event :=
  if σ.store.cache.resident[page.id]? = some f then
    .ofEdit t (w.edit? (σ.store.writeThrough t f page w).2)
  else .quiet

/-- Runs in which pages are also written through their frames. -/
inductive Course (σ₀ : Engine) : List Event → Engine → Prop where
  | start : Course σ₀ [] σ₀
  | act {es : List Event} {σ : Engine} (a : Action) :
      Course σ₀ es σ → σ.Allows a → σ.Regular a → Course σ₀ (σ.event a :: es) (σ.act a)
  | write {es : List Event} {σ : Engine} {t : TxnId} {f : FrameId} {page : Page} (w : Writing) :
      Course σ₀ es σ → σ.Grants t f page →
      Course σ₀ (σ.throughEvent t f page w :: es) (σ.through t f page w)

/-- Whoever has fetched a page to write it may write through its frame, which is the cache's copy
as yet. -/
theorem Lawful.grants (h : Lawful σ) (ha : σ.Allows a) (ho : σ.Regular a)
    (hans : σ.answered? a = some (t, .fetch p .readWrite, .fetched (.ok (f, page)))) :
    (σ.act a).Grants t f page ∧ page.id = p ∧
      (σ.act a).store.cache.resident[page.id]? = some f := by
  obtain ⟨hserves, _⟩ := h.fetched ha ho hans
  obtain ⟨s, hm⟩ := moved_of_answered hans
  obtain ⟨_, hact, _⟩ := act_of_moved hm
  have hid := hserves.id_eq
  obtain ⟨k, hk, hcovers⟩ := hserves.locked
  refine ⟨⟨?_, hserves.frame, ?_⟩, hid, ?_⟩
  · rw [hact]
    exact Function.update_self ..
  · rw [hid, hk, LockMode.eq_exclusive_of_covers hcovers]
  · rw [hid]
    exact hserves.copy

theorem Lawful.through (h : Lawful σ) (hg : σ.Grants t f page) (w : Writing) :
    Lawful (σ.through t f page w) ∧ Store.Lasts σ.store (σ.through t f page w).store ∧
      Store.Turn σ.store (σ.through t f page w).store (σ.throughEvent t f page w) := by
  have hlocks : (σ.store.writeThrough t f page w).1.locks = σ.store.locks :=
    Store.writeThrough_locks
  unfold Engine.through throughEvent
  by_cases hr : σ.store.cache.resident[page.id]? = some f
  · rw [if_pos hr]
    obtain ⟨hs, hlasts, hturn⟩ := Store.writeThrough_resident (w := w) h.sound hr hg.frame hg.held
    exact ⟨h.still hs hlocks, hlasts, hturn⟩
  · rw [if_neg hr]
    obtain ⟨hs, hk⟩ :=
      Store.writeThrough_apart (W := σ.store.Loose) (t := t) (w := w) h.sound hr hg.frame
    refine ⟨h.still hs hlocks, hk.steady.lasts, .quiet hk.saves ?_⟩
    rw [hlocks]
    exact .refl _

theorem Course.turns (h₀ : Lawful σ₀) (h : Course σ₀ es σ) : Turns σ₀ es σ := by
  induction h with
  | start => exact .start
  | act a _ ha ho ih =>
    obtain ⟨hlawful, hlasts, hturn⟩ := (ih.lawful h₀).1.act ha ho
    exact .turn ih hlawful hlasts hturn
  | write w _ hg ih =>
    obtain ⟨hlawful, hlasts, hturn⟩ := (ih.lawful h₀).1.through hg w
    exact .turn ih hlawful hlasts hturn

theorem Run.course (h : Run Regular σ₀ es σ) : Course σ₀ es σ := by
  induction h with
  | start => exact .start
  | act a _ ha ho ih => exact .act a ih ha ho

theorem Lawful.leaves_through (h : Lawful σ) (hg : σ.Grants t f page)
    (hr : σ.store.cache.resident[page.id]? = some f) {tuple tuple' : Tuple} {r : RecordId}
    (hput : (σ.store.writeThrough t f page (.insert tuple)).2 = .ok tuple')
    (hrec : tuple'.record = some r) :
    ∃ x, σ.throughEvent t f page (.insert tuple) = .edited t ⟨r, x⟩ ∧
      Stands σ.store r x (some tuple') := by
  obtain ⟨slot, bytes, rfl, hschema, hencode⟩ := Store.inserted_through hput
  cases hrec
  have hbytes : ({ tuple with record := some ⟨page.id, slot⟩ } : Tuple).encode = .ok bytes :=
    hencode
  refine ⟨some bytes, ?_, ?_⟩
  · unfold throughEvent
    rw [if_pos hr, hput]
    dsimp only [Writing.edit?]
    rw [hbytes]
    rfl
  · rintro q _ hstored ⟨table, htable, hq⟩
    obtain ⟨table', htable', hpage, _⟩ :=
      h.sound.known page.id page (Store.page?_of_frame hr hg.frame)
    rw [htable'] at htable
    cases htable
    exact Page.tuple_eq_ok hstored hbytes (hq.trans (hpage.symm.trans hschema.symm))

/-- A tuple that a transaction puts into a page through its frame, and marks, is read from the file
after the commit if the frame is still the cache's copy of the page at that moment, whatever is
fetched, evicted and flushed before and afterwards. Through another frame nothing changes that is
shown, stored or marked. -/
theorem Course.kept_if_resident {config : PoolConfig} {v : Volume} {s₀ : Store}
    (hopen : Store.Opened config v s₀) (h₁ : Course (idle s₀) es₁ σ₁) (hg : σ₁.Grants t f page)
    {tuple tuple' : Tuple}
    (hput : (σ₁.store.writeThrough t f page (.insert tuple)).2 = .ok tuple') :
    ∃ slot, tuple' = { tuple with record := some ⟨page.id, slot⟩ } ∧
      (σ₁.store.cache.resident[page.id]? = some f →
        ∀ {es₂ σ₂}, Course (σ₁.through t f page (.insert tuple)) es₂ σ₂ →
          (∀ e ∈ es₂, ¬ e.Upsets t ⟨page.id, slot⟩) → σ₂.calls t = none →
          (σ₂.store.commit t).2 = .ok () →
          (∀ q, ((σ₂.act (.commit t)).store.readPage page.id).2 = .ok q →
            q.tuple slot = .ok (tuple'.readBack ⟨q.id, slot⟩)) ∧
          ((σ₂.act (.commit t)).store.volume.faults = [] →
            ∃ q, ((σ₂.act (.commit t)).store.readPage page.id).2 = .ok q)) ∧
      (σ₁.store.cache.resident[page.id]? ≠ some f →
        Store.Same σ₁.store (σ₁.through t f page (.insert tuple)).store) := by
  have hlawful₁ := ((h₁.turns (lawful_idle hopen)).lawful (lawful_idle hopen)).1
  obtain ⟨slot, _, hrec, _⟩ := Store.inserted_through hput
  refine ⟨slot, hrec, fun hr es₂ σ₂ h₂ hcalm ht hok => ?_, fun hr => ?_⟩
  · obtain ⟨x, hevent, hstands⟩ := hlawful₁.leaves_through hg hr hput (by rw [hrec])
    obtain ⟨hlawful, hlasts, hturn⟩ := hlawful₁.through hg (.insert tuple)
    rw [hevent] at hturn
    obtain ⟨hlawful₂, hlasts₂, hrests⟩ :=
      (h₂.turns hlawful).rests_of_carries hlawful hturn.carried hcalm ht hok
    exact ⟨fun q hread => (hstands.lasts (hlasts.trans hlasts₂)).shows hrests hread,
      fun hfaults => hlawful.sound.readable hturn.dirties hlawful₂.sound hlasts₂ hfaults⟩
  · exact (Store.writeThrough_apart (W := fun _ => False) hlawful₁.sound hr hg.frame).2.same
      fun _ => id

/-- A transaction has fetched a page to write it. -/
def granted : Engine :=
  (play (idle (Store.sample {})) (firstInsertion ⟨1⟩ 7 ++
    [.commit ⟨1⟩, .call ⟨2⟩ (.fetch ⟨⟨0⟩, 0⟩ .readWrite), .step ⟨2⟩])).2

def grantedPage : Page := (granted.store.frame? 0).get (by decide +kernel)

/-- It puts a tuple into the page through the frame, and another one commits. -/
def written : Engine := (granted.through ⟨2⟩ 0 grantedPage (.insert (Store.sampleTuple 9))).act
  (.commit ⟨3⟩)

theorem written_is_kept :
    granted.Grants ⟨2⟩ 0 grantedPage ∧
    granted.store.cache.resident[grantedPage.id]? = some 0 ∧
    (written.store.commit ⟨2⟩).2 = .ok () ∧
    ∃ page, ((written.act (.commit ⟨2⟩)).store.readPage ⟨⟨0⟩, 0⟩).2 = .ok page ∧
      page.tuple 1 = .ok ((Store.sampleTuple 9).readBack ⟨page.id, 1⟩) := by
  have h₁ : Run Regular (idle (Store.sample {})) (play (idle (Store.sample {}))
      (firstInsertion ⟨1⟩ 7 ++
        [.commit ⟨1⟩, .call ⟨2⟩ (.fetch ⟨⟨0⟩, 0⟩ .readWrite), .step ⟨2⟩])).1 granted :=
    run_play (by decide +kernel)
  have hid : grantedPage.id = ⟨⟨0⟩, 0⟩ := by decide +kernel
  have hg : granted.Grants ⟨2⟩ 0 grantedPage :=
    ⟨by decide +kernel, (Option.some_get _).symm, by decide +kernel⟩
  have hput : (granted.store.writeThrough ⟨2⟩ 0 grantedPage (.insert (Store.sampleTuple 9))).2 =
      .ok { Store.sampleTuple 9 with record := some ⟨⟨⟨0⟩, 0⟩, 1⟩ } := by decide +kernel
  obtain ⟨slot, hrec, hkept, _⟩ :=
    Course.kept_if_resident (Store.opened_sample {}) h₁.course hg hput
  obtain rfl : 1 = slot := by simpa [hid] using hrec
  have hr : granted.store.cache.resident[grantedPage.id]? = some 0 := by decide +kernel
  have hok : (written.store.commit ⟨2⟩).2 = .ok () := by decide +kernel
  have h₂ : Course (granted.through ⟨2⟩ 0 grantedPage (.insert (Store.sampleTuple 9))) _ written :=
    .act (.commit ⟨3⟩) .start (by decide +kernel) (by decide +kernel)
  obtain ⟨hshows, hreads⟩ := hkept hr h₂ (by decide +kernel) (by decide +kernel) hok
  rw [hid] at hshows hreads
  obtain ⟨page, hread⟩ := hreads (by decide +kernel)
  exact ⟨hg, hr, hok, page, hread, hshows page hread⟩

/-- Two transactions insert into the empty table at the same time, so that it gets two pages, and
commit one after the other. Then a third one fetches the first page to write it, and the second
page. -/
def detaching : List Action :=
  [.call ⟨1⟩ (.insertion ⟨0⟩ (Store.sampleTuple 7)), .step ⟨1⟩, .step ⟨1⟩,
    .call ⟨2⟩ (.insertion ⟨0⟩ (Store.sampleTuple 8)), .step ⟨2⟩, .step ⟨2⟩,
    .step ⟨1⟩, .commit ⟨1⟩, .step ⟨2⟩, .commit ⟨2⟩,
    .call ⟨3⟩ (.fetch ⟨⟨0⟩, 0⟩ .readWrite), .step ⟨3⟩,
    .call ⟨3⟩ (.fetch ⟨⟨0⟩, 1⟩ .readOnly), .step ⟨3⟩]

/-- In a store with room for one page the first page has left the cache. -/
def detached : Engine := (play (idle (Store.sample { capacity := 1 })) detaching).2

def detachedPage : Page := (detached.store.frame? 2).get (by decide +kernel)

/-- What is put in through its frame now does not come into the file. -/
theorem detached_write_is_lost :
    Run Regular (idle (Store.sample { capacity := 1 }))
      (play (idle (Store.sample { capacity := 1 })) detaching).1 detached ∧
    (play (idle (Store.sample { capacity := 1 })) (detaching.take 11)).2.fetched? (.step ⟨3⟩) =
      some (⟨3⟩, ⟨⟨0⟩, 0⟩, .readWrite, 2) ∧
    detached.Grants ⟨3⟩ 2 detachedPage ∧
    (detached.store.writeThrough ⟨3⟩ 2 detachedPage (.insert (Store.sampleTuple 9))).2 =
      .ok { Store.sampleTuple 9 with record := some ⟨⟨⟨0⟩, 0⟩, 1⟩ } ∧
    ((detached.through ⟨3⟩ 2 detachedPage (.insert (Store.sampleTuple 9))).store.commit ⟨3⟩).2 =
      .ok () ∧
    ((((detached.through ⟨3⟩ 2 detachedPage (.insert (Store.sampleTuple 9))).act
      (.commit ⟨3⟩)).store.readPage ⟨⟨0⟩, 0⟩).2.map fun page => page.isUsed 1) = .ok false := by
  refine ⟨run_play (by decide +kernel), by decide +kernel,
    ⟨by decide +kernel, (Option.some_get _).symm, by decide +kernel⟩, by decide +kernel,
    by decide +kernel, by decide +kernel⟩

end Engine
end PageStore

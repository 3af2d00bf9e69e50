import PageStore.Proofs.Store.Answers
import PageStore.Proofs.Store.Coherent
import PageStore.Proofs.Store.Content

/-!
# PageStore.Proofs.Store.Caching

The cache against the files.

* `Run.cache_is_coherent`: as long as nobody releases a lock out of turn, a dirty page in the cache is
  held exclusively by who dirtied it, and a clean one has what its file has.
* `Run.caching_is_transparent`: locks may be released as well; whatever is fetched, evicted or written
  back, every page has the tuples that it had, and a page that is fetched has just these.
-/

namespace PageStore

namespace Page

/-- Another copy of a page has the same slots in use, with the same bytes in them. -/
structure Agrees (p q : Page) : Prop where
  id : q.id = p.id
  schema : q.schema = p.schema
  bitmap : ∀ slot, q.isUsed slot = p.isUsed slot
  bytes : ∀ slot, p.isUsed slot = true → q.slotBytes slot = p.slotBytes slot

theorem agrees_of_stored {p q : Page} (hid : q.id = p.id) (hschema : q.schema = p.schema)
    (hstored : q.stored = p.stored) : p.Agrees q := by
  have hbitmap : ∀ slot, q.isUsed slot = p.isUsed slot := by
    intro slot
    rw [isUsed_eq, isUsed_eq, hstored]
  refine ⟨hid, hschema, hbitmap, ?_⟩
  intro slot hused
  have hcond : ∀ {r : Page}, r.isUsed slot = true → slot < r.slots ∧ r.image.bit slot = true := by
    intro r hr
    simpa [isUsed] using hr
  have hslot := congrFun hstored slot
  rw [stored_eq, stored_eq, if_pos (hcond hused), if_pos (hcond ((hbitmap slot).trans hused))]
    at hslot
  exact Option.some.inj hslot

end Page

namespace Store

variable {p : PageId}

theorem edit?_of_fetch {access : Access} {x : Progress} (h : x.Suits (.fetch p access)) :
    x.edit? (.fetch p access) = none := by
  cases h with
  | next => rfl
  | waiting => rfl
  | @done answer hanswers =>
    cases answer with
    | fetched result => rfl
    | _ => exact hanswers.elim

end Store

namespace Engine

variable {σ σ₀ : Engine} {es : List Event} {t d : TxnId} {p : PageId} {s₀ : Store} {a : Action}
  {page : Page}

/-- Two transactions insert into the empty sample table at the same time, so that it gets two pages,
and the first of them commits. -/
def overlapping : List Action :=
  [.call ⟨1⟩ (.insertion ⟨0⟩ (Store.sampleTuple 7)), .step ⟨1⟩, .step ⟨1⟩,
    .call ⟨2⟩ (.insertion ⟨0⟩ (Store.sampleTuple 8)), .step ⟨2⟩, .step ⟨2⟩,
    .step ⟨1⟩, .commit ⟨1⟩, .step ⟨2⟩]

/-! ## Coherence -/

/-- A cached page that somebody has dirtied is his alone, and every other one reads from its file as
it is in the cache. -/
theorem Run.cache_is_coherent {config : PoolConfig} {v : Volume}
    (hopen : Store.Opened config v s₀) (h : Run Guarded (idle s₀) es σ)
    (hp : σ.store.cache.page? p = some page) :
    (∀ d, page.dirtier = some d → σ.store.locks.modeOf p d = some .exclusive ∧
      ∀ u, σ.store.locks.modeOf p u ≠ none → u = d) ∧
    (page.dirtier = none →
      (∀ disk, (σ.store.readPage p).2 = .ok disk → page.Agrees disk) ∧
      (σ.store.volume.faults = [] → ∃ disk, (σ.store.readPage p).2 = .ok disk)) := by
  have hcoh := h.guarded (fun _ _ => id) (coherent_idle hopen)
  have hdirtier := Store.dirtier_of_cached hp
  constructor
  · intro d hd
    rw [hd] at hdirtier
    refine ⟨hcoh.owned p d hdirtier, ?_⟩
    intro u hu
    exact hcoh.dirtier_eq hdirtier hu
  · intro hclean
    rw [hclean] at hdirtier
    obtain ⟨table, htable, hschema, hno⟩ := hcoh.sound.known p page hp
    refine ⟨?_, Store.readPage_ok hcoh.sound htable hno⟩
    intro disk hread
    obtain ⟨hid, _, hstored, table', htable', hschema', _⟩ :=
      (Store.readPage_spec σ.store p).2 disk hread
    rw [htable] at htable'
    cases htable'
    refine Page.agrees_of_stored (hid.trans (hcoh.sound.framed.id_eq hp).symm)
      (hschema'.trans hschema.symm) ?_
    rw [hstored, ← hcoh.sound.clean p hdirtier, Store.shown_of_cached hp]

def overlapped : Engine := (play (idle (Store.sample {})) overlapping).2

/-- The page of the first transaction is clean, that of the second one is not. -/
theorem overlapped_is_coherent :
    (∃ page disk, overlapped.store.cache.page? ⟨⟨0⟩, 0⟩ = some page ∧ page.dirtier = none ∧
      (overlapped.store.readPage ⟨⟨0⟩, 0⟩).2 = .ok disk ∧ page.Agrees disk) ∧
    ∃ page, overlapped.store.cache.page? ⟨⟨0⟩, 1⟩ = some page ∧ page.dirtier = some ⟨2⟩ ∧
      overlapped.store.locks.modeOf ⟨⟨0⟩, 1⟩ ⟨2⟩ = some .exclusive := by
  have hrun : Run Guarded (idle (Store.sample {})) (play (idle (Store.sample {})) overlapping).1
      overlapped := run_play (by decide +kernel)
  have hcached : ∀ p d, (overlapped.store.cache.page? p).map (·.dirtier) = some d →
      ∃ page, overlapped.store.cache.page? p = some page ∧ page.dirtier = d := fun p d h =>
    Option.map_eq_some_iff.1 h
  constructor
  · obtain ⟨page, hp, hclean⟩ := hcached ⟨⟨0⟩, 0⟩ none (by decide +kernel)
    obtain ⟨hagrees, hreads⟩ :=
      (Run.cache_is_coherent (Store.opened_sample {}) hrun hp).2 hclean
    obtain ⟨disk, hdisk⟩ := hreads (by decide +kernel)
    exact ⟨page, disk, hp, hclean, hdisk, hagrees disk hdisk⟩
  · obtain ⟨page, hp, hdirty⟩ := hcached ⟨⟨0⟩, 1⟩ (some ⟨2⟩) (by decide +kernel)
    obtain ⟨hmode, _⟩ :=
      (Run.cache_is_coherent (Store.opened_sample {}) hrun hp).1 ⟨2⟩ hdirty
    exact ⟨page, hp, hdirty, hmode⟩

/-! ## Transparency -/

/-- An action that goes on with a call to fetch a page, or flushes. -/
inductive Looks (σ : Engine) : Action → Prop where
  | fetch {a : Action} {t : TxnId} {p : PageId} {access : Access} {r : Store × Progress} :
      σ.moved? a = some (t, .fetch p access, r) → Looks σ a
  | flushPage (p : PageId) : Looks σ (.flushPage p)
  | flushOf (t : TxnId) : Looks σ (.flushOf t)
  | flushAll : Looks σ .flushAll

theorem Looks.regular (h : σ.Looks a) : σ.Regular a := by
  cases h with
  | flushPage p => exact ⟨trivial, fun _ htb => by cases htb⟩
  | flushOf t => exact ⟨trivial, fun _ htb => by cases htb⟩
  | flushAll => exact ⟨trivial, fun _ htb => by cases htb⟩
  | @fetch _ t p access r hm =>
    cases a with
    | step u =>
      obtain ⟨c, hc, he⟩ := Option.map_eq_some_iff.1 hm
      cases he
      refine ⟨trivial, fun tb htb => ?_⟩
      simp only [appends?, hc] at htb
      cases htb
    | resume w => exact ⟨trivial, fun _ htb => by cases htb⟩
    | expire w => exact ⟨trivial, fun _ htb => by cases htb⟩
    | _ => cases hm

theorem Lawful.still_of_looks (h : Lawful σ) (ha : σ.Allows a) (hl : σ.Looks a) :
    σ.event a = .quiet ∨ σ.event a = .flushed := by
  cases hl with
  | flushPage p => exact .inr rfl
  | flushOf t => exact .inr rfl
  | flushAll => exact .inr rfl
  | @fetch _ t p access r hm =>
    obtain ⟨_, _, hevent⟩ := act_of_moved hm
    rw [hevent, Store.edit?_of_fetch (h.outcome ha (Looks.fetch hm).regular hm).suits]
    exact .inl rfl

theorem Lawful.content_of_looks (h : Lawful σ) (ha : σ.Allows a) (hl : σ.Looks a) (p : PageId) :
    (σ.act a).store.content p = σ.store.content p := by
  obtain ⟨hlawful, hlasts, hturn⟩ := h.act ha hl.regular
  exact hturn.content_of_still (h.still_of_looks ha hl) h.sound hlawful.sound hlasts p

/-- A fetch and a flush leave every page the tuples that it had, however they end, and a page that is
fetched has the tuples that the page had. -/
theorem Run.caching_is_transparent {config : PoolConfig} {v : Volume}
    (hopen : Store.Opened config v s₀) (h : Run Regular (idle s₀) es σ) (ha : σ.Allows a)
    (hl : σ.Looks a) :
    (∀ p, (σ.act a).store.content p = σ.store.content p) ∧
    ∀ {t p access f page},
      σ.answered? a = some (t, .fetch p access, .fetched (.ok (f, page))) →
      page.id = p ∧ page.content = σ.store.content p ∧
        ∀ slot, page.isUsed slot = (σ.store.content p slot).isSome := by
  have hlawful := (h.lawful (fun _ _ => id) (lawful_idle hopen)).1
  have hcontent := hlawful.content_of_looks ha hl
  refine ⟨hcontent, ?_⟩
  intro t p access f page hans
  obtain ⟨hserves, _⟩ := hlawful.fetched ha hl.regular hans
  have hpage : page.content = σ.store.content p := by
    rw [← hcontent, Store.content_of_cached (Store.page?_of_frame hserves.copy hserves.frame)]
  refine ⟨hserves.id_eq, hpage, ?_⟩
  intro slot
  rw [Page.isUsed_eq_isSome, hpage]

/-- The second page is dirty, but its transaction has given up its lock; the cache has room for one
page, and a third transaction is about to fetch the first page. -/
def crowded : Engine :=
  (play (idle (Store.sample { capacity := 1 })) (overlapping ++
    [.release ⟨2⟩ ⟨⟨0⟩, 1⟩, .call ⟨3⟩ (.fetch ⟨⟨0⟩, 0⟩ .readOnly)])).2

theorem crowded_fetch_is_transparent :
    crowded.store.dirtier ⟨⟨0⟩, 1⟩ = some ⟨2⟩ ∧
    (crowded.act (.step ⟨3⟩)).store.cache.page? ⟨⟨0⟩, 1⟩ = none ∧
    (∀ p, (crowded.act (.step ⟨3⟩)).store.content p = crowded.store.content p) ∧
    ∃ f page, crowded.answered? (.step ⟨3⟩) =
        some (⟨3⟩, .fetch ⟨⟨0⟩, 0⟩ .readOnly, .fetched (.ok (f, page))) ∧
      page.content = crowded.store.content ⟨⟨0⟩, 0⟩ := by
  have hrun : Run Regular (idle (Store.sample { capacity := 1 }))
      (play (idle (Store.sample { capacity := 1 })) (overlapping ++
        [.release ⟨2⟩ ⟨⟨0⟩, 1⟩, .call ⟨3⟩ (.fetch ⟨⟨0⟩, 0⟩ .readOnly)])).1 crowded :=
    run_play (by decide +kernel)
  have hfetched : crowded.fetched? (.step ⟨3⟩) = some (⟨3⟩, ⟨⟨0⟩, 0⟩, .readOnly, 2) := by
    decide +kernel
  obtain ⟨page, hans⟩ := answered_of_fetched hfetched
  obtain ⟨_, hm⟩ := moved_of_answered hans
  obtain ⟨hcontent, hpage⟩ := Run.caching_is_transparent (Store.opened_sample { capacity := 1 })
    hrun (by decide +kernel) (.fetch hm)
  exact ⟨by decide +kernel, by decide +kernel, hcontent, 2, page, hans, (hpage hans).2.1⟩

end Engine
end PageStore

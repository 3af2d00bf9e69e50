import PageStore.Proofs.Store.Ledger

/-!
# PageStore.Proofs.Store.Commit

What the files of a store have if a commit writes back the pages of its own transaction only, and no
commit and no abort fails on the device. `Run.disk_is_committed`: at any time the file of a page
stores the settled edits in the order of the commits and no others, and the cached copy shows
besides them the pending edits of the one transaction that holds the page exclusively.

The invariant is `Settles`. A page with pending edits is dirty, and what it shows is its file with
these edits made; an eviction cannot write it since its dirtier still holds it.
-/

namespace PageStore

/-- An action that ends a transaction. -/
def Action.Ends : Action → Prop
  | .commit _ => True
  | .abort _ => True
  | _ => False

namespace Store

variable {s s' : Store} {t u d : TxnId} {p : PageId} {e : Event} {l : Ledger} {x : Edit}
  {init : PageId → Content}

/-- Files store what has been settled. Dirty pages show besides it what their dirtier has pending,
and whatever is pending is on such a page. -/
structure Settles (init : PageId → Content) (l : Ledger) (s : Store) : Prop where
  onDisk : ∀ p, s.onDisk p = replay p l.settled (init p)
  shown : ∀ p t, s.dirtier p = some t → s.shown p = replay p (l.pending t) (s.onDisk p)
  placed : ∀ t, ∀ x ∈ l.pending t, s.dirtier x.record.page = some t

/-- Pending edits are edits of other pages if the page is not dirtied by their transaction. -/
theorem Settles.absent (h : Settles init l s) (hp : s.dirtier p ≠ some t) :
    ∀ x ∈ l.pending t, x.record.page ≠ p := by
  intro x hx hxp
  have := h.placed t x hx
  rw [hxp] at this
  exact hp this

theorem Settles.shown_of_mine (h : Settles init l s) (hs : s.Sound)
    (hp : s.dirtier p = none ∨ s.dirtier p = some t) :
    s.shown p = replay p (l.pending t) (s.onDisk p) := by
  rcases hp with hp | hp
  · have habsent := h.absent (p := p) (t := t) (by simp [hp])
    rw [replay_of_absent habsent]
    exact hs.clean p hp
  · exact h.shown p t hp

theorem Settles.same (h : Settles init l s) (hsame : Same s s') : Settles init l s' := by
  refine ⟨fun p => ?_, fun p t hd => ?_, fun t x hx => ?_⟩
  · rw [hsame.onDisk]
    exact h.onDisk p
  · rw [hsame.dirtier] at hd
    rw [hsame.shown, hsame.onDisk]
    exact h.shown p t hd
  · rw [hsame.dirtier]
    exact h.placed t x hx

theorem Settles.edited (h : Settles init l s) (hs : s.Sound)
    (hmine : s.dirtier x.record.page = none ∨ s.dirtier x.record.page = some t)
    (hdisk : ∀ p, s'.onDisk p = s.onDisk p)
    (hshown : ∀ p, s'.shown p = if p = x.record.page then
      Function.update (s.shown p) x.record.slot x.bytes else s.shown p)
    (hdirty : ∀ p, s'.dirtier p = if p = x.record.page then some t else s.dirtier p) :
    Settles init (l.enter (.edited t x)) s' := by
  refine ⟨fun p => (hdisk p).trans (h.onDisk p), fun p u hd => ?_, fun u y hy => ?_⟩
  · change s'.shown p = replay p (Function.update l.pending t (l.pending t ++ [x]) u) (s'.onDisk p)
    rw [hdirty] at hd
    rw [hshown, hdisk]
    by_cases hp : p = x.record.page
    · rw [if_pos hp] at hd
      cases hd
      rw [if_pos hp, Function.update_self, replay_concat, if_pos hp.symm]
      rw [← hp] at hmine
      rw [h.shown_of_mine hs hmine]
    · rw [if_neg hp] at hd ⊢
      by_cases hu : u = t
      · subst hu
        rw [Function.update_self, replay_concat, if_neg (Ne.symm hp)]
        exact h.shown p u hd
      · rw [Function.update_of_ne hu]
        exact h.shown p u hd
  · rcases Ledger.mem_update_concat.1 hy with hy | ⟨rfl, rfl⟩
    · have hplaced := h.placed u y hy
      rw [hdirty]
      by_cases hp : y.record.page = x.record.page
      · -- who dirtied the page that is edited now is `t`
        rw [hp] at hplaced
        rw [if_pos hp]
        rcases hmine with hn | ht
        · rw [hn] at hplaced
          cases hplaced
        · rw [← ht, hplaced]
      · rw [if_neg hp]
        exact hplaced
    · rw [hdirty, if_pos rfl]

theorem Settles.committed (h : Settles init l s) (hmode : s.config.commitFlush = .transaction)
    (hflushes : Flushes t s s') (hdone : ∀ p, s.Writes t p → s'.dirtier p = none) :
    Settles init (l.enter (.committed t)) s' := by
  have hwrites : ∀ p, s.Writes t p ↔ s.dirtier p = some t := by
    intro p
    unfold Writes
    rw [hmode]
  have hmine : ∀ p, s.dirtier p = some t → s'.dirtier p = none ∧ s'.onDisk p = s.shown p := by
    intro p hp
    have hnone := hdone p ((hwrites p).2 hp)
    rcases hflushes.page p with ⟨he, _⟩ | ⟨_, _, _, hdisk⟩
    · rw [he, hp] at hnone
      cases hnone
    · exact ⟨hnone, hdisk⟩
  have hother : ∀ p, s.dirtier p ≠ some t → s'.dirtier p = s.dirtier p ∧ s'.onDisk p = s.onDisk p :=
    fun p hp => (hflushes.page p).resolve_right fun hq => hp ((hwrites p).1 hq.1)
  refine ⟨fun p => ?_, fun p u hd => ?_, fun u y hy => ?_⟩
  · change s'.onDisk p = replay p (l.settled ++ l.pending t) (init p)
    rw [replay_append, ← h.onDisk]
    by_cases hp : s.dirtier p = some t
    · rw [(hmine p hp).2]
      exact h.shown p t hp
    · rw [(hother p hp).2, replay_of_absent (h.absent hp)]
  · change s'.shown p = replay p (Function.update l.pending t [] u) (s'.onDisk p)
    have hp : s.dirtier p ≠ some t := by
      intro hp
      rw [(hmine p hp).1] at hd
      cases hd
    obtain ⟨hdirty, hdisk⟩ := hother p hp
    rw [hdirty] at hd
    have hu : u ≠ t := by
      rintro rfl
      exact hp hd
    rw [Function.update_of_ne hu, hflushes.shown, hdisk]
    exact h.shown p u hd
  · obtain ⟨hu, hy⟩ := Ledger.mem_update_nil.1 hy
    have hplaced := h.placed u y hy
    have hp : s.dirtier y.record.page ≠ some t := by
      rw [hplaced]
      exact fun he => hu (Option.some.inj he)
    rw [(hother _ hp).1]
    exact hplaced

theorem Settles.aborted (h : Settles init l s)
    (hdisk : ∀ p, s'.onDisk p = s.onDisk p)
    (hshown : ∀ p, s'.shown p = if s.dirtier p = some t then s.onDisk p else s.shown p)
    (hdirty : ∀ p, s'.dirtier p = if s.dirtier p = some t then none else s.dirtier p) :
    Settles init (l.enter (.aborted t)) s' := by
  refine ⟨fun p => (hdisk p).trans (h.onDisk p), fun p u hd => ?_, fun u y hy => ?_⟩
  · change s'.shown p = replay p (Function.update l.pending t [] u) (s'.onDisk p)
    rw [hdirty] at hd
    by_cases hp : s.dirtier p = some t
    · rw [if_pos hp] at hd
      cases hd
    · rw [if_neg hp] at hd
      have hu : u ≠ t := by
        rintro rfl
        exact hp hd
      rw [Function.update_of_ne hu, hshown, if_neg hp, hdisk]
      exact h.shown p u hd
  · obtain ⟨hu, hy⟩ := Ledger.mem_update_nil.1 hy
    have hplaced := h.placed u y hy
    rw [hdirty, if_neg, hplaced]
    rw [hplaced]
    exact fun he => hu (Option.some.inj he)

theorem Settles.restarted (h : Settles init l s)
    (hdisk : ∀ p, s'.onDisk p = s.onDisk p) (hdirty : ∀ p, s'.dirtier p = none) :
    Settles init (l.enter .restarted) s' := by
  refine ⟨fun p => (hdisk p).trans (h.onDisk p), fun p u hd => ?_, fun u y hy => by cases hy⟩
  rw [hdirty] at hd
  cases hd

end Store

namespace Engine

variable {σ σ₀ : Engine} {es : List Event} {t : TxnId} {p : PageId} {a : Action} {l : Ledger}
  {init : PageId → Content}

/-- Ordinary actions, of which those that end a transaction meet no fault of the device. -/
def Calm (σ : Engine) (a : Action) : Prop :=
  σ.Ordinary a ∧ (a.Ends → σ.store.volume.faults = [])

instance : (a : Action) → Decidable a.Ends
  | .commit _ => .isTrue trivial
  | .abort _ => .isTrue trivial
  | .device _ _ => .isFalse id
  | .reorder _ => .isFalse id
  | .call _ _ => .isFalse id
  | .step _ => .isFalse id
  | .resume _ => .isFalse id
  | .expire _ => .isFalse id
  | .restart => .isFalse id
  | .flushPage _ => .isFalse id
  | .flushOf _ => .isFalse id
  | .flushAll => .isFalse id
  | .discard _ => .isFalse id
  | .release _ _ => .isFalse id

instance (σ : Engine) (a : Action) : Decidable (σ.Calm a) :=
  inferInstanceAs (Decidable (σ.Ordinary a ∧ (a.Ends → σ.store.volume.faults = [])))

theorem ofEdit_ne (t u : TxnId) (e? : Option Edit) :
    Event.ofEdit t e? ≠ .halted u ∧ Event.ofEdit t e? ≠ .stuck u := by
  cases e? <;> simp [Event.ofEdit]

theorem Coherent.event_ne (h : Coherent σ) (hcalm : σ.Calm a) (u : TxnId) :
    σ.event a ≠ .halted u ∧ σ.event a ≠ .stuck u := by
  obtain ⟨_, hfaults⟩ := hcalm
  cases a with
  | commit t =>
    have hok : (σ.store.commit t).2 = .ok () := by
      have hflushed := Store.flushed_ok (t := t) h.sound (hfaults trivial)
      rcases σ.store.commit_cases t with ⟨e, he, _⟩ | ⟨_, hc⟩
      · rw [hflushed] at he
        cases he
      · rw [hc]
    simp [event, hok, Except.isOk, Except.toBool]
  | abort t =>
    have hok : (σ.store.abort t).2 = .ok () := by
      have hrestored := Store.restore_ok (t := t) h.sound (hfaults trivial)
      rcases σ.store.abort_cases t with ⟨e, he, _⟩ | ⟨_, hc⟩
      · rw [hrestored] at he
        cases he
      · rw [hc]
    simp [event, hok, Except.isOk, Except.toBool]
  | step t =>
    simp only [event]
    cases σ.calls t with
    | none => simp
    | some c => exact ofEdit_ne _ _ _
  | resume w =>
    simp only [event]
    cases σ.calls w.txn with
    | none => simp
    | some c => exact ofEdit_ne _ _ _
  | expire w =>
    simp only [event]
    cases σ.calls w.txn with
    | none => simp
    | some c => exact ofEdit_ne _ _ _
  | _ => simp [event]

theorem Coherent.settles (h : Coherent σ) (ha : σ.Allows a) (hcalm : σ.Calm a)
    (hmode : σ.store.config.commitFlush = .transaction) (hl : Store.Settles init l σ.store) :
    Store.Settles init (l.enter (σ.event a)) (σ.act a).store := by
  obtain ⟨hcoh', hchange⟩ := h.act ha hcalm.1
  have hne := h.event_ne hcalm
  generalize σ.event a = e at hchange hne
  cases hchange with
  | quiet hsame _ => exact hl.same hsame
  | @edited t x _ hfirm hx hdisk hshown hdirty =>
    refine hl.edited h.sound ?_ hdisk hshown hdirty
    cases hd : σ.store.dirtier x.record.page with
    | none => exact .inl rfl
    | some d =>
      -- who dirtied the page still holds it exclusively, as `t` does
      have hdx := hfirm _ d (h.owned _ d hd)
      have heq := (hcoh'.orderly.sound.holders _).eq_of_exclusive hdx
        (Option.isSome_iff_exists.2 ⟨_, hx⟩)
      rw [heq]
      exact .inr rfl
  | halted => exact absurd rfl (hne _).1
  | committed hflushes _ hdone => exact hl.committed hmode hflushes hdone
  | stuck => exact absurd rfl (hne _).2
  | aborted _ _ hdisk hshown hdirty => exact hl.aborted hdisk hshown hdirty
  | restarted _ _ hdisk _ hdirty => exact hl.restarted hdisk hdirty

theorem Run.settles (h₀ : Coherent σ₀) (hclean : ∀ p, σ₀.store.dirtier p = none)
    (hmode : σ₀.store.config.commitFlush = .transaction) (h : Run Calm σ₀ es σ) :
    Store.Settles σ₀.store.onDisk (.ofEvents es) σ.store := by
  induction h with
  | start =>
    refine ⟨fun p => rfl, fun p t hd => ?_, fun t x hx => by cases hx⟩
    rw [hclean] at hd
    cases hd
  | act a hrun ha hcalm ih =>
    obtain ⟨hcoh, hconfig⟩ := hrun.coherent (fun _ _ => And.left) h₀
    exact hcoh.settles ha hcalm (by rw [hconfig]; exact hmode) ih

/-- If commits write back their own pages only, and the device is sound whenever a transaction ends,
a page reads from its file as it was at first with the edits of the committed transactions made in
the order of the commits, and no others. Its cached copy holds the same, and the pending edits of
the transaction that holds the page exclusively, if there is one; nobody else's are on it. -/
theorem Run.disk_is_committed {config : PoolConfig} {v : Volume} {s₀ : Store}
    (hopen : Store.Opened config v s₀) (hmode : config.commitFlush = .transaction)
    (h : Run Calm (idle s₀) es σ) (p : PageId) :
    (∀ page, (σ.store.readPage p).2 = .ok page →
      page.Holds (replay p (Ledger.ofEvents es).settled (s₀.onDisk p))) ∧
    (p.no < σ.store.wholeCount p.table → σ.store.volume.faults = [] →
      ∃ page, (σ.store.readPage p).2 = .ok page) ∧
    (∀ page, σ.store.cache.page? p = some page →
      (∀ t, σ.store.locks.modeOf p t = some .exclusive → page.Holds (replay p
        ((Ledger.ofEvents es).settled ++ (Ledger.ofEvents es).pending t) (s₀.onDisk p))) ∧
      ((∀ t, σ.store.locks.modeOf p t ≠ some .exclusive) →
        page.Holds (replay p (Ledger.ofEvents es).settled (s₀.onDisk p)))) ∧
    ∀ t, ∀ x ∈ (Ledger.ofEvents es).pending t, x.record.page = p →
      σ.store.locks.modeOf p t = some .exclusive := by
  have h₀ := coherent_idle hopen
  obtain ⟨_, hcache, _, hconfig⟩ := hopen.spec
  have hclean : ∀ p, (idle s₀).store.dirtier p = none := Store.dirtier_of_empty hcache
  have hl := h.settles h₀ hclean (by rw [← hmode, ← hconfig]; rfl)
  obtain ⟨hcoh, _⟩ := h.coherent (fun _ _ => And.left) h₀
  have hdisk : σ.store.onDisk p = replay p (Ledger.ofEvents es).settled (s₀.onDisk p) :=
    hl.onDisk p
  refine ⟨fun page hread => ?_, fun hno hfaults => ?_, fun page hp => ⟨fun t hx => ?_, fun hfree => ?_⟩,
    fun t x hx hxp => ?_⟩
  · have hstored := ((σ.store.readPage_spec p).2 page hread).2.2.1
    exact Page.holds_of_stored (hstored.trans hdisk)
  · cases ht : σ.store.catalog.table? p.table with
    | none =>
      unfold Store.wholeCount Store.fileOf at hno
      rw [ht] at hno
      simp [ByteFile.wholeCount, ByteFile.empty, pageSize] at hno
    | some tb => exact Store.readPage_ok hcoh.sound ht hno hfaults
  · have hmine : σ.store.dirtier p = none ∨ σ.store.dirtier p = some t := by
      cases hd : σ.store.dirtier p with
      | none => exact .inl rfl
      | some d =>
        have heq : t = d := hcoh.dirtier_eq hd (by rw [hx]; exact Option.some_ne_none _)
        rw [heq]
        exact .inr rfl
    have hshown := hl.shown_of_mine hcoh.sound hmine
    rw [Store.shown_of_cached hp, hdisk, ← replay_append] at hshown
    exact Page.holds_of_stored hshown
  · have hd : σ.store.dirtier p = none := by
      cases hd : σ.store.dirtier p with
      | none => rfl
      | some d => exact absurd (hcoh.owned p d hd) (hfree d)
    have hshown := hcoh.sound.clean p hd
    rw [Store.shown_of_cached hp, hdisk] at hshown
    exact Page.holds_of_stored hshown
  · rw [← hxp]
    exact hcoh.owned _ _ (hl.placed t x hx)

/-- One insertion has been committed, and another one has gone into the same page. -/
def halfCommitted : List Event × Engine :=
  play (idle (Store.sample { commitFlush := .transaction }))
    (firstInsertion ⟨1⟩ 7 ++ [.commit ⟨1⟩, .call ⟨2⟩ (.insertion ⟨0⟩ (Store.sampleTuple 8)),
      .step ⟨2⟩, .step ⟨2⟩])

theorem halfCommitted_holds :
    (∃ page, (halfCommitted.2.store.readPage ⟨⟨0⟩, 0⟩).2 = .ok page ∧
      page.Holds (replay ⟨⟨0⟩, 0⟩ [⟨⟨⟨⟨0⟩, 0⟩, 0⟩, some [0, 7, 0]⟩]
        ((Store.sample { commitFlush := .transaction }).onDisk ⟨⟨0⟩, 0⟩))) ∧
    ∃ page, halfCommitted.2.store.cache.page? ⟨⟨0⟩, 0⟩ = some page ∧
      page.Holds (replay ⟨⟨0⟩, 0⟩
        [⟨⟨⟨⟨0⟩, 0⟩, 0⟩, some [0, 7, 0]⟩, ⟨⟨⟨⟨0⟩, 0⟩, 1⟩, some [0, 8, 0]⟩]
        ((Store.sample { commitFlush := .transaction }).onDisk ⟨⟨0⟩, 0⟩)) := by
  have hrun : Run Calm (idle (Store.sample { commitFlush := .transaction })) halfCommitted.1
      halfCommitted.2 := run_play (by decide +kernel)
  obtain ⟨hread, hreads, hcached, _⟩ :=
    hrun.disk_is_committed (Store.opened_sample _) rfl ⟨⟨0⟩, 0⟩
  have hsettled : (Ledger.ofEvents halfCommitted.1).settled =
      [⟨⟨⟨⟨0⟩, 0⟩, 0⟩, some [0, 7, 0]⟩] := by decide +kernel
  have hpending : (Ledger.ofEvents halfCommitted.1).pending ⟨2⟩ =
      [⟨⟨⟨⟨0⟩, 0⟩, 1⟩, some [0, 8, 0]⟩] := by decide +kernel
  rw [hsettled] at hread hcached
  constructor
  · obtain ⟨page, hpage⟩ := hreads (by decide +kernel) (by decide +kernel)
    exact ⟨page, hpage, hread page hpage⟩
  · obtain ⟨page, hpage⟩ : ∃ page, halfCommitted.2.store.cache.page? ⟨⟨0⟩, 0⟩ = some page :=
      Option.isSome_iff_exists.1 (by decide +kernel)
    have hholds := (hcached page hpage).1 ⟨2⟩ (by decide +kernel)
    rw [hpending] at hholds
    exact ⟨page, hpage, hholds⟩

end Engine
end PageStore

import PageStore.Proofs.Store.Turn
import PageStore.Proofs.Tuple.RoundTrip

/-!
# PageStore.Proofs.Store.Answers

What the answers of calls tell. `Outcome` has the ways in which a step of a call can go: it ends or
goes on without a page, it waits, it fails for want of its page, or it has locked and fetched a page
that it wants and uses it. From it the answers are read: `Lawful.fetched`, `Lawful.inserted` and
`Lawful.deleted`.
-/

namespace PageStore

open LockManager

deriving instance DecidableEq for Answer

namespace Call

/-- A call without what it has done so far. -/
def origin : Call → Call
  | .insert table tuple marks _ => .insert table tuple marks .starting
  | .next cursor => .next cursor.rewind
  | .scan table _ _ => .scan table 0 []
  | c => c

/-- Whether an answer is of the kind that a call gets. -/
def Answers : Call → Answer → Prop
  | .lock _ _, .locked _ => True
  | .fetch _ _, .fetched _ => True
  | .insert _ _ _ _, .inserted _ _ => True
  | .delete _ _, .deleted _ => True
  | .next _, .item _ _ => True
  | .scan _ _ _, .scanned _ _ => True
  | _, _ => False

theorem answers_fail (c : Call) (e : Error) : c.Answers (c.fail e) := by
  cases c <;> trivial

end Call

/-- The same call goes on, or it gets an answer of its kind. -/
inductive Progress.Suits (c : Call) : Progress → Prop where
  | next {c' : Call} : c'.origin = c.origin → Suits c (.next c')
  | waiting {p : PageId} {m : LockMode} {c' : Call} :
      c'.origin = c.origin → Suits c (.waiting p m c')
  | done {a : Answer} : c.Answers a → Suits c (.done a)

namespace Store

variable {s s₁ : Store} {t : TxnId} {p : PageId} {m : LockMode} {c : Call} {r : Store × Progress}
  {f : FrameId} {page : Page}

/-- A page in memory is what its frame holds, and its transaction has locked it in a mode. -/
structure Serves (s : Store) (t : TxnId) (m : LockMode) (p : PageId) (f : FrameId) (page : Page) :
    Prop where
  sound : s.Sound
  copy : s.cache.resident[p]? = some f
  frame : s.frame? f = some page
  locked : ∃ k, s.locks.modeOf p t = some k ∧ k.covers m = true

/-- What becomes of a call that asks for a page. -/
inductive Asks (s : Store) (t : TxnId) (c : Call) : Store × Progress → Prop where
  | waits {s' : Store} {p : PageId} {m : LockMode} : Asks s t c (s', .waiting p m c)
  | failed {s' : Store} {e : Error} : Asks s t c (s', .done (c.fail e))
  | locked {s' : Store} {p : PageId} {m : LockMode} :
      c = .lock p m → Asks s t c (s', .done (.locked (.ok ())))
  | used {s₁ : Store} {p : PageId} {f : FrameId} {page : Page} :
      c.Wants p → Lasts s s₁ → (∀ q, s₁.shown q = s.shown q) → s₁.Serves t c.mode p f page →
      Asks s t c (s₁.use t f page c)

/-- How a step of a call can go. -/
inductive Outcome (s : Store) (t : TxnId) (c : Call) : Store × Progress → Prop where
  | finish {s' : Store} {a : Answer} : (s.aim c).2 = .finish a → Outcome s t c (s', .done a)
  | onward {s' : Store} {c' : Call} : (s.aim c).2 = .onward c' → Outcome s t c (s', .next c')
  | asks {r : Store × Progress} : Asks s t c r → Outcome s t c r

theorem Serves.id_eq (h : s.Serves t m p f page) : page.id = p :=
  h.sound.framed.id_eq (page?_of_frame h.copy h.frame)

theorem Serves.stored (h : s.Serves t m p f page) : page.stored = s.shown p :=
  (shown_of_cached (page?_of_frame h.copy h.frame)).symm

theorem Serves.known (h : s.Serves t m p f page) : ∃ tb, s.catalog.table? p.table = some tb ∧
    page.schema = tb.schema ∧ p.no < s.wholeCount p.table :=
  h.sound.known p page (page?_of_frame h.copy h.frame)

theorem Asks.after (h : Asks s₁ t c r) (hlasts : Lasts s s₁) (hshown : ∀ q, s₁.shown q = s.shown q) :
    Asks s t c r := by
  cases h with
  | waits => exact .waits
  | failed => exact .failed
  | locked hlock => exact .locked hlock
  | used hwants hlasts' hshown' hserves =>
    exact .used hwants (hlasts.trans hlasts') (fun q => (hshown' q).trans (hshown q)) hserves

theorem proceed_asks (hs : s.Sound) (hwants : c.Wants p)
    (hlocked : ∃ k, s.locks.modeOf p t = some k ∧ k.covers c.mode = true) :
    Asks s t c (s.proceed t p c) := by
  unfold proceed
  split
  · exact .locked rfl
  · obtain ⟨hs', hk, hcopy⟩ := fetch_spec (p := p) hs
    generalize s.fetch p = r at hs' hk hcopy
    obtain ⟨s', x⟩ := r
    cases x with
    | error e => exact .failed
    | ok found =>
      obtain ⟨f, page⟩ := found
      obtain ⟨hr, hf⟩ := hcopy f page rfl
      refine .used hwants hk.steady.lasts hk.shown ⟨hs', hr, hf, ?_⟩
      rw [hk.steady.locks]
      exact hlocked

theorem decided_asks (hs : s.Sound) (hwants : c.Wants p) {r : LockManager × Verdict}
    (htried : Tried s.locks r.1 t p c.mode r.2) : Asks s t c (s.decided t p c.mode c r) := by
  obtain ⟨l, v⟩ := r
  cases v with
  | granted =>
    exact (proceed_asks (hs.with_locks l) hwants htried.covers).after (lasts_locks s l)
      fun _ => rfl
  | asleep => exact .waits
  | refused => exact .failed

theorem step_cases (s : Store) (t : TxnId) (c : Call) :
    (∃ a, (s.aim c).2 = .finish a ∧ s.step t c = ((s.aim c).1, .done a)) ∨
    (∃ c', (s.aim c).2 = .onward c' ∧ s.step t c = ((s.aim c).1, .next c')) ∨
    ∃ p m c', (s.aim c).2 = .page p m c' ∧
      s.step t c = (s.aim c).1.decided t p m c' ((s.aim c).1.locks.request t p m) := by
  unfold step
  rcases s.aim c with ⟨s', a⟩
  cases a with
  | finish a => exact .inl ⟨a, rfl, rfl⟩
  | onward c' => exact .inr (.inl ⟨c', rfl, rfl⟩)
  | page p m c' => exact .inr (.inr ⟨p, m, c', rfl, rfl⟩)

theorem step_of_finish {a : Answer} (h : (s.aim c).2 = .finish a) :
    s.step t c = ((s.aim c).1, .done a) := by
  unfold step
  generalize s.aim c = x at h ⊢
  obtain ⟨s', b⟩ := x
  cases h
  rfl

theorem step_of_page {c' : Call} (h : (s.aim c).2 = .page p m c') :
    s.step t c = (s.aim c).1.decided t p m c' ((s.aim c).1.locks.request t p m) := by
  unfold step
  generalize s.aim c = x at h ⊢
  obtain ⟨s', b⟩ := x
  cases h
  rfl

theorem finish_of_insert {tb : TableId} {tuple : Tuple} {marks : Bool} {placing : Placing}
    {a : Answer} (h : (s.aim (.insert tb tuple marks placing)).2 = .finish a) :
    ∃ e, a = .inserted tuple (.error e) := by
  obtain ⟨_, haims⟩ := aims_of_aim h
  cases haims <;> exact ⟨_, rfl⟩

theorem used_insert {tb : TableId} {tuple tuple' : Tuple} {placing : Placing} {g : FrameId}
    (h : (s.use t f page (.insert tb tuple true placing)).2 = .done (.inserted tuple' (.ok g))) :
    ∃ slot bytes, page.firstFree? = some slot ∧ tuple.schema = page.schema ∧
      tuple.encode = .ok bytes ∧ tuple' = { tuple with record := some ⟨page.id, slot⟩ } := by
  simp only [use] at h
  by_cases hfull : page.isFull = true
  · rw [if_pos hfull] at h
    cases h
  · rw [if_neg hfull] at h
    rcases page.insert_cases tuple with ⟨image, e, hi, _⟩ | ⟨image, slot, bytes, hi, hfree, hrest⟩
    · rw [hi] at h
      cases h
    · obtain ⟨hschema, hbytes, _⟩ := hrest
      rw [hi] at h
      dsimp only [finishInsert] at h
      rw [if_pos rfl] at h
      generalize (s.setFrame f { page with image }).markDirty t f = r at h
      obtain ⟨s', x⟩ := r
      cases x with
      | error e => cases h
      | ok u =>
        cases h
        rw [Page.recordAt_eq (Page.firstFree?_eq_some hfree).1]
        exact ⟨slot, bytes, hfree, hschema, hbytes, rfl⟩

theorem finish_of_delete {tuple : Tuple} {from? : Option TableId} {a : Answer}
    (h : (s.aim (.delete tuple from?)).2 = .finish a) : ∃ e, a = .deleted (.error e) := by
  obtain ⟨_, haims⟩ := aims_of_aim h
  cases haims
  exact ⟨_, rfl⟩

theorem used_delete {tuple : Tuple} {from? : Option TableId} {g : FrameId}
    (h : (s.use t f page (.delete tuple from?)).2 = .done (.deleted (.ok g))) :
    ∃ r, tuple.record = some r ∧ r.page = page.id ∧ (page.stored r.slot).isSome = true := by
  simp only [use] at h
  cases hd : page.delete tuple with
  | error e =>
    rw [hd] at h
    cases h
  | ok page' =>
    obtain ⟨r, hrec, hid, hused, _⟩ := Page.delete_eq_ok hd
    exact ⟨r, hrec, hid, hused⟩

theorem onward_of_aim {c' : Call} (h : (s.aim c).2 = .onward c') : c'.origin = c.origin := by
  obtain ⟨_, haims⟩ := aims_of_aim h
  cases haims <;> rfl

theorem answers_of_finish {a : Answer} (h : (s.aim c).2 = .finish a) : c.Answers a := by
  obtain ⟨_, haims⟩ := aims_of_aim h
  cases haims <;> trivial

theorem use_suits (s : Store) (t : TxnId) (f : FrameId) (page : Page) (c : Call) :
    (s.use t f page c).2.Suits c := by
  cases c with
  | lock q mode => exact .done trivial
  | fetch q access => exact .done trivial
  | insert table tuple marks placing =>
    simp only [use]
    by_cases hfull : page.isFull = true
    · rw [if_pos hfull]
      exact .next rfl
    · rw [if_neg hfull]
      generalize page.insert tuple = r
      obtain ⟨page', x⟩ := r
      cases x with
      | error e => exact .done trivial
      | ok tuple' =>
        dsimp only [finishInsert]
        cases marks with
        | false => exact .done trivial
        | true =>
          rw [if_pos rfl]
          generalize (s.setFrame f page').markDirty t f = r
          obtain ⟨s', x⟩ := r
          cases x <;> exact .done trivial
  | delete tuple from? =>
    simp only [use]
    cases page.delete tuple with
    | error e => exact .done trivial
    | ok page' =>
      dsimp only
      split
      · exact .done trivial
      · generalize (s.setFrame f page').markDirty t f = r
        obtain ⟨s', x⟩ := r
        cases x <;> exact .done trivial
  | next k =>
    simp only [use]
    cases page.tuples with
    | error e => exact .done trivial
    | ok us => exact .next rfl
  | scan table no seen =>
    simp only [use]
    cases page.tuples with
    | error e => exact .done trivial
    | ok us => exact .next rfl

/-- However a step goes, the same call goes on, or it gets an answer of its kind. -/
theorem Outcome.suits (h : Outcome s t c r) : r.2.Suits c := by
  cases h with
  | finish haim => exact .done (answers_of_finish haim)
  | onward haim => exact .next (onward_of_aim haim)
  | asks hasks =>
    cases hasks with
    | waits => exact .waiting rfl
    | failed => exact .done (c.answers_fail _)
    | locked hlock =>
      subst hlock
      exact .done trivial
    | used => exact use_suits _ _ _ _ _

/-- A free slot in a page of a table, for a tuple of the table's schema. -/
structure Takes (s : Store) (tb : TableId) (tuple : Tuple) (r : RecordId) : Prop where
  table_eq : r.page.table = tb
  schema : ∃ table, s.catalog.table? r.page.table = some table ∧ table.schema = tuple.schema
  slot_lt : r.slot < slotsPerPage tuple.schema.width
  free : s.shown r.page r.slot = none

end Store

namespace Engine

variable {σ : Engine} {t : TxnId} {p : PageId} {c : Call} {a : Action} {r : Store × Progress}
  {f : FrameId} {page : Page}

/-- The call that an action goes on with, and how it goes. -/
def moved? (σ : Engine) : Action → Option (TxnId × Call × (Store × Progress))
  | .step t => (σ.calls t).map fun c => (t, c, σ.store.step t c)
  | .resume w => (σ.calls w.txn).map fun c => (w.txn, c, σ.store.resume w c)
  | .expire w => (σ.calls w.txn).map fun c => (w.txn, c, σ.store.expire w c)
  | _ => none

/-- The call that ends with an action, and its answer. -/
def answered? (σ : Engine) (a : Action) : Option (TxnId × Call × Answer) :=
  match σ.moved? a with
  | some (t, c, (_, .done answer)) => some (t, c, answer)
  | _ => none

theorem moved_cases (h : σ.moved? a = some (t, c, r)) :
    σ.calls t = some c ∧ (a = .step t ∧ r = σ.store.step t c ∨
      (∃ w, a = .resume w ∧ w.txn = t ∧ r = σ.store.resume w c) ∨
      ∃ w, a = .expire w ∧ w.txn = t ∧ r = σ.store.expire w c) := by
  cases a with
  | step u =>
    obtain ⟨d, hd, he⟩ := Option.map_eq_some_iff.1 h
    cases he
    exact ⟨hd, .inl ⟨rfl, rfl⟩⟩
  | resume w =>
    obtain ⟨d, hd, he⟩ := Option.map_eq_some_iff.1 h
    cases he
    exact ⟨hd, .inr (.inl ⟨w, rfl, rfl, rfl⟩)⟩
  | expire w =>
    obtain ⟨d, hd, he⟩ := Option.map_eq_some_iff.1 h
    cases he
    exact ⟨hd, .inr (.inr ⟨w, rfl, rfl, rfl⟩)⟩
  | _ => cases h

theorem act_of_moved (h : σ.moved? a = some (t, c, r)) :
    σ.calls t = some c ∧ σ.act a = σ.after t r ∧ σ.event a = .ofEdit t (r.2.edit? c) := by
  obtain ⟨hcall, ⟨rfl, rfl⟩ | ⟨w, rfl, rfl, rfl⟩ | ⟨w, rfl, rfl, rfl⟩⟩ := moved_cases h
  all_goals
    simp only [act, event, hcall]
    exact ⟨trivial, trivial, trivial⟩

theorem moved_of_answered {answer : Answer} (h : σ.answered? a = some (t, c, answer)) :
    ∃ s, σ.moved? a = some (t, c, (s, .done answer)) := by
  unfold answered? at h
  split at h
  · next hm =>
    cases h
    exact ⟨_, hm⟩
  · cases h

/-- Who has fetched which page with an action, and the page's frame. -/
def fetched? (σ : Engine) (a : Action) : Option (TxnId × PageId × Access × FrameId) :=
  match σ.answered? a with
  | some (t, .fetch p access, .fetched (.ok (f, _))) => some (t, p, access, f)
  | _ => none

theorem answered_of_fetched {access : Access}
    (h : σ.fetched? a = some (t, p, access, f)) :
    ∃ page, σ.answered? a = some (t, .fetch p access, .fetched (.ok (f, page))) := by
  unfold fetched? at h
  split at h
  · next hans =>
    cases h
    exact ⟨_, hans⟩
  · cases h

theorem Lawful.step_outcome (h : Lawful σ) (ho : σ.Regular (.step t)) (hcall : σ.calls t = some c)
    (hawake : σ.store.locks.Awake t) : Store.Outcome σ.store t c (σ.store.step t c) := by
  obtain ⟨hs, hk⟩ := Store.aim_spec (W := fun _ => False) h.sound c fun tb htb =>
    ho.2 tb (by simp [appends?, hcall, htb])
  rcases σ.store.step_cases t c with ⟨a, haim, hstep⟩ | ⟨c', haim, hstep⟩ | ⟨p, m, c', haim, hstep⟩
  · rw [hstep]
    exact .finish haim
  · rw [hstep]
    exact .onward haim
  · obtain ⟨rfl, rfl, hwants⟩ := Store.aim_page h.sound haim
    have htried := tried_request (p := p) (m := c'.mode) h.orderly hawake
    rw [← hk.steady.locks] at htried
    rw [hstep]
    exact .asks ((Store.decided_asks hs hwants htried).after hk.steady.lasts hk.shown)

/-- Every step of a call has an outcome, whether it is a new one, a retry or a last try. -/
theorem Lawful.outcome (h : Lawful σ) (ha : σ.Allows a) (ho : σ.Regular a)
    (hm : σ.moved? a = some (t, c, r)) : Store.Outcome σ.store t c r := by
  have hslept : ∀ {w : Sleeper} {x : LockManager × Verdict}, σ.calls w.txn = some c →
      w ∈ σ.store.locks.sleepers → Tried σ.store.locks x.1 w.txn w.page w.mode x.2 →
      Store.Outcome σ.store w.txn c (σ.store.decided w.txn w.page w.mode c x) := by
    intro w x hc hw htried
    obtain ⟨c', hc', hmode, hwants⟩ := h.call_of_sleeper hw
    rw [hc] at hc'
    cases hc'
    rw [← hmode] at htried ⊢
    exact .asks (Store.decided_asks h.sound hwants htried)
  obtain ⟨hcall, ⟨rfl, rfl⟩ | ⟨w, rfl, rfl, rfl⟩ | ⟨w, rfl, rfl, rfl⟩⟩ := moved_cases hm
  · exact h.step_outcome ho hcall ha.2
  · exact hslept hcall ha.1 (tried_retry h.orderly ha.1)
  · exact hslept hcall ha (tried_expire h.orderly ha)

/-! ## Answers -/

theorem Lawful.outcome_of_answered (h : Lawful σ) (ha : σ.Allows a) (ho : σ.Regular a)
    {answer : Answer} (hans : σ.answered? a = some (t, c, answer)) :
    Store.Outcome σ.store t c ((σ.act a).store, .done answer) ∧
      σ.event a = .ofEdit t (c.edit? answer) := by
  obtain ⟨s, hm⟩ := moved_of_answered hans
  obtain ⟨_, hact, hevent⟩ := act_of_moved hm
  rw [hact]
  exact ⟨h.outcome ha ho hm, hevent⟩

/-- A page that is fetched is the cache's copy, and its transaction has locked it. -/
theorem Lawful.fetched (h : Lawful σ) (ha : σ.Allows a) (ho : σ.Regular a) {access : Access}
    (hans : σ.answered? a = some (t, .fetch p access, .fetched (.ok (f, page)))) :
    (σ.act a).store.Serves t access.mode p f page ∧ page.stored = σ.store.shown p := by
  obtain ⟨hout, _⟩ := h.outcome_of_answered ha ho hans
  generalize hr : ((σ.act a).store, Progress.done (.fetched (.ok (f, page)))) = r at hout
  cases hout with
  | finish haim => cases haim
  | onward haim => cases haim
  | asks hasks =>
    cases hasks with
    | waits => cases hr
    | failed => cases hr
    | locked => cases hr
    | used hwants _ hshown hserves =>
      cases hwants
      cases hr
      exact ⟨hserves, hserves.stored.trans (hshown _)⟩

/-- A tuple that is inserted gets a free slot in a page of the table, and its bytes go there. -/
theorem Lawful.inserted (h : Lawful σ) (ha : σ.Allows a) (ho : σ.Regular a) {tb : TableId}
    {tuple tuple' : Tuple} {marks : Bool} {placing : Placing}
    (hans : σ.answered? a = some (t, .insert tb tuple marks placing, .inserted tuple' (.ok f))) :
    ∃ r bytes, tuple' = { tuple with record := some r } ∧ tuple.encode = .ok bytes ∧
      σ.event a = .edited t ⟨r, some bytes⟩ ∧ σ.store.Takes tb tuple r := by
  obtain ⟨hout, hevent⟩ := h.outcome_of_answered ha ho hans
  have hmarks : marks = true := by
    obtain ⟨_, hm⟩ := moved_of_answered hans
    exact h.marks t _ (act_of_moved hm).1
  subst hmarks
  generalize hr : ((σ.act a).store, Progress.done (.inserted tuple' (.ok f))) = r at hout
  cases hout with
  | finish haim =>
    cases hr
    obtain ⟨e, he⟩ := Store.finish_of_insert haim
    cases he
  | onward haim => cases hr
  | asks hasks =>
    cases hasks with
    | waits => cases hr
    | failed => cases hr
    | locked => cases hr
    | @used s₁ p g page hwants hlasts hshown hserves =>
      obtain ⟨slot, bytes, hfree, hschema, hbytes, hrec⟩ :=
        Store.used_insert (congrArg Prod.snd hr.symm)
      obtain ⟨hslot, hbit⟩ := Page.firstFree?_eq_some hfree
      obtain ⟨table, htable, hsch, _⟩ := hserves.known
      obtain ⟨table', htable', hfresh⟩ := Catalog.table?_of_fresh hlasts.tables.symm htable
      rw [hserves.id_eq] at hrec
      refine ⟨⟨p, slot⟩, bytes, hrec, hbytes, ?_, hwants.table_of_insert,
        ⟨table', htable', (Table.schema_of_fresh hfresh).trans (hsch.symm.trans hschema.symm)⟩,
        ?_, ?_⟩
      · rw [hevent, hrec]
        have henc : ({ tuple with record := some ⟨p, slot⟩ } : Tuple).encode = .ok bytes := hbytes
        simp only [Call.edit?, henc]
        rfl
      · rw [hschema]
        exact hslot
      · rw [← hshown, ← hserves.stored, Page.stored_eq, if_neg (by simp [hbit])]

/-- A tuple that is deleted had its record in use, which is free then. -/
theorem Lawful.deleted (h : Lawful σ) (ha : σ.Allows a) (ho : σ.Regular a) {tuple : Tuple}
    {from? : Option TableId}
    (hans : σ.answered? a = some (t, .delete tuple from?, .deleted (.ok f))) :
    ∃ r, tuple.record = some r ∧ σ.event a = .edited t ⟨r, none⟩ ∧
      (σ.store.shown r.page r.slot).isSome = true := by
  obtain ⟨hout, hevent⟩ := h.outcome_of_answered ha ho hans
  generalize hr : ((σ.act a).store, Progress.done (.deleted (.ok f))) = r at hout
  cases hout with
  | finish haim =>
    cases hr
    obtain ⟨e, he⟩ := Store.finish_of_delete haim
    cases he
  | onward haim => cases hr
  | asks hasks =>
    cases hasks with
    | waits => cases hr
    | failed => cases hr
    | locked => cases hr
    | used _ _ hshown hserves =>
      obtain ⟨r, hrec, hpage, hused⟩ := Store.used_delete (congrArg Prod.snd hr.symm)
      rw [hserves.id_eq] at hpage
      refine ⟨r, hrec, ?_, ?_⟩
      · rw [hevent]
        simp only [Call.edit?, Call.deletes?, hrec]
        rfl
      · rw [hpage, ← hshown, ← hserves.stored]
        exact hused

end Engine
end PageStore

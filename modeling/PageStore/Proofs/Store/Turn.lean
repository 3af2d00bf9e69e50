import PageStore.Proofs.Store.Engine

/-!
# PageStore.Proofs.Store.Turn

What an action of any kind does to what is seen of the pages. `Change` in `Store.Engine` is for
actions that leave the order of things alone; here pages may also be flushed, discarded and released
out of turn, so a dirty page need not be locked by who dirtied it, and an eviction may write it.

* `Turn`: what can happen, event by event. A step of a call writes back at most dirty pages whose
  dirtier has no lock on them any more (`Loose`).
* `Lawful`: sound pages, orderly locks, and sleepers whose calls want what they sleep for.
* `Lawful.act`: an action keeps these, and does to the pages what its event says.
* `Turns`: engines that follow each other so, by actions or otherwise. What holds of pages over a run
  is shown for these.
-/

namespace PageStore

open LockManager

namespace LockManager

variable {l l' l'' : LockManager} {t u : TxnId} {p q : PageId} {m k : LockMode} {v : Verdict}

/-- Nobody loses a lock, or is left with a weaker one. -/
def Retains (l l' : LockManager) : Prop :=
  ∀ p t k, l.modeOf p t = some k → ∃ j, l'.modeOf p t = some j ∧ j.covers k = true

theorem Retains.refl (l : LockManager) : Retains l l := fun _ _ k hk => ⟨k, hk, k.covers_self⟩

theorem Retains.trans (h : Retains l l') (h' : Retains l' l'') : Retains l l'' := by
  intro p t k hk
  obtain ⟨j, hj, hjk⟩ := h p t k hk
  obtain ⟨i, hi, hij⟩ := h' p t j hj
  exact ⟨i, hi, LockMode.covers_trans hij hjk⟩

theorem Retains.exclusive (h : Retains l l') (hm : l.modeOf p t = some .exclusive) :
    l'.modeOf p t = some .exclusive := by
  obtain ⟨j, hj, hc⟩ := h p t _ hm
  rw [hj, LockMode.eq_exclusive_of_covers hc]

theorem Retains.holds (h : Retains l l') (hm : l.modeOf p t ≠ none) : l'.modeOf p t ≠ none := by
  obtain ⟨k, hk⟩ := Option.ne_none_iff_exists'.1 hm
  obtain ⟨j, hj, _⟩ := h p t k hk
  rw [hj]
  exact Option.some_ne_none j

theorem Tried.retains (h : Tried l l' t p m v) : Retains l l' := by
  intro q u k hk
  cases h with
  | granted _ _ hmode =>
    rw [hmode]
    split
    · next hqu =>
      obtain ⟨rfl, rfl⟩ := hqu
      refine ⟨_, rfl, ?_⟩
      rw [hk]
      exact (LockMode.covers_max k m).1
    · exact ⟨k, hk, k.covers_self⟩
  | asleep _ _ hmode =>
    rw [hmode]
    exact ⟨k, hk, k.covers_self⟩
  | refused _ _ hmode =>
    rw [hmode]
    exact ⟨k, hk, k.covers_self⟩

theorem Tried.covers (h : Tried l l' t p m .granted) :
    ∃ k, l'.modeOf p t = some k ∧ k.covers m = true := by
  cases h with
  | granted _ _ hmode =>
    rw [hmode, if_pos ⟨rfl, rfl⟩]
    exact ⟨_, rfl, raised_covers _ m⟩

/-- After an attempt only those sleep that slept before, and the one that is blocked. -/
theorem Tried.asleep_cases (h : Tried l l' t p m v) (ha : l'.Asleep u q k) :
    (u ≠ t ∧ l.Asleep u q k) ∨ (v = .asleep ∧ u = t ∧ q = p ∧ k = m) := by
  cases h with
  | granted _ _ _ hs =>
    obtain ⟨hold, hne⟩ := (hs _ _ _).1 ha
    exact .inl ⟨hne, hold⟩
  | asleep _ _ _ hs =>
    rcases (hs _ _ _).1 ha with hnew | hold
    · exact .inr ⟨rfl, hnew⟩
    · exact .inl hold
  | refused _ _ _ hs =>
    obtain ⟨hold, hne⟩ := (hs _ _ _).1 ha
    exact .inl ⟨hne, hold⟩

end LockManager

namespace Store

variable {s s' s'' s₁ : Store} {t u : TxnId} {p : PageId} {c : Call} {e : Event} {e? : Option Edit}
  {W W' : PageId → Prop}

/-- Settings and tables stay, and files only grow. -/
structure Lasts (s s' : Store) : Prop where
  config : s'.config = s.config
  tables : s'.catalog.fresh = s.catalog.fresh
  grows : ∀ tb, s.wholeCount tb ≤ s'.wholeCount tb

/-- Every page shows what it showed, and some dirty pages among `W` have been written back. -/
structure Saves (W : PageId → Prop) (s s' : Store) : Prop where
  shown : ∀ p, s'.shown p = s.shown p
  page : ∀ p, (s'.dirtier p = s.dirtier p ∧ s'.onDisk p = s.onDisk p) ∨
    (W p ∧ s.dirtier p ≠ none ∧ s'.dirtier p = none ∧ s'.onDisk p = s.shown p)

/-- What can happen to what is seen of the pages. -/
inductive Turn (s s' : Store) : Event → Prop where
  | quiet : Saves s.Loose s s' → Retains s.locks s'.locks → Turn s s' .quiet
  | edited {t : TxnId} {e : Edit} {s₁ : Store} :
      Saves s.Loose s s₁ → Retains s.locks s'.locks →
      s'.locks.modeOf e.record.page t = some .exclusive → Edits t e.record e.bytes s₁ s' →
      Turn s s' (.edited t e)
  | halted {t : TxnId} : Saves (s.Writes t) s s' → s'.locks = s.locks → Turn s s' (.halted t)
  | committed {t : TxnId} :
      Saves (s.Writes t) s s' → Frees t s s' → (∀ p, s.Writes t p → s'.dirtier p = none) →
      Turn s s' (.committed t)
  | stuck {t : TxnId} :
      Reverts (fun p => s.dirtier p = some t) s s' → s'.locks = s.locks → Turn s s' (.stuck t)
  | aborted {t : TxnId} :
      Frees t s s' → (∀ p, s'.onDisk p = s.onDisk p) →
      (∀ p, s'.shown p = if s.dirtier p = some t then s.onDisk p else s.shown p) →
      (∀ p, s'.dirtier p = if s.dirtier p = some t then none else s.dirtier p) →
      Turn s s' (.aborted t)
  | restarted :
      (∀ p u, s'.locks.modeOf p u = none) → (∀ p, s'.onDisk p = s.onDisk p) →
      (∀ p, s'.shown p = s.onDisk p) → (∀ p, s'.dirtier p = none) → Turn s s' .restarted
  | flushed : Saves (fun _ => True) s s' → s'.locks = s.locks → Turn s s' .flushed
  | discarded {p : PageId} :
      s'.locks = s.locks → (∀ q, s'.onDisk q = s.onDisk q) →
      (∀ q, s'.shown q = if q = p then s.onDisk q else s.shown q) →
      (∀ q, s'.dirtier q = if q = p then none else s.dirtier q) → Turn s s' (.discarded p)
  | released {t : TxnId} {p : PageId} :
      Same s s' →
      (∀ q u, s'.locks.modeOf q u = if q = p ∧ u = t then none else s.locks.modeOf q u) →
      Turn s s' (.released t p)

theorem Lasts.refl (s : Store) : Lasts s s := ⟨rfl, rfl, fun _ => Nat.le_refl _⟩

theorem Lasts.trans (h : Lasts s s') (h' : Lasts s' s'') : Lasts s s'' where
  config := h'.config.trans h.config
  tables := h'.tables.trans h.tables
  grows tb := Nat.le_trans (h.grows tb) (h'.grows tb)

theorem Steady.lasts (h : Steady s s') : Lasts s s' := ⟨h.config, h.tables, h.grows⟩

theorem lasts_locks (s : Store) (l : LockManager) : Lasts s { s with locks := l } :=
  ⟨rfl, rfl, fun _ => Nat.le_refl _⟩

theorem Keeps.saves (h : Keeps W s s') : Saves W s s' := ⟨h.shown, h.page⟩

theorem Same.saves (h : Same s s') : Saves W s s' :=
  ⟨h.shown, fun p => .inl ⟨h.dirtier p, h.onDisk p⟩⟩

theorem Saves.after (h : Saves W' s₁ s') (hsame : Same s s₁) (hW : ∀ p, W' p → W p) :
    Saves W s s' := by
  refine ⟨fun p => (h.shown p).trans (hsame.shown p), fun p => ?_⟩
  rw [← hsame.dirtier, ← hsame.onDisk, ← hsame.shown]
  rcases h.page p with hp | ⟨hw, hp⟩
  · exact .inl hp
  · exact .inr ⟨hW p hw, hp⟩

theorem Same.loose (hsame : Same s s₁) (hlocks : Retains s.locks s₁.locks) (h : s₁.Loose p) :
    s.Loose p := by
  obtain ⟨u, hd, hfree⟩ := h
  rw [hsame.dirtier] at hd
  refine ⟨u, hd, ?_⟩
  unfold LockManager.holds at hfree ⊢
  rw [Option.isSome_eq_false_iff, Option.isNone_iff_eq_none] at hfree ⊢
  by_contra hm
  exact hlocks.holds hm hfree

theorem Turn.after (h : Turn s₁ s' (.ofEdit t e?)) (hsame : Same s s₁)
    (hlocks : Retains s.locks s₁.locks) : Turn s s' (.ofEdit t e?) := by
  have hloose := fun p => hsame.loose (p := p) hlocks
  cases e? with
  | none =>
    cases h with
    | quiet hsaves hretains => exact .quiet (hsaves.after hsame hloose) (hlocks.trans hretains)
  | some e =>
    cases h with
    | edited hsaves hretains hmode hedits =>
      exact .edited (hsaves.after hsame hloose) (hlocks.trans hretains) hmode hedits

theorem Sound.discard (hs : s.Sound) (p : PageId) :
    (s.discard p).1.Sound ∧ Lasts s (s.discard p).1 ∧ Turn s (s.discard p).1 (.discarded p) := by
  unfold Store.discard
  have hpage : ∀ q, (s.cache.drop p).page? q = if q = p then none else s.cache.page? q :=
    s.cache.page?_drop p
  have hgone : (s.cache.drop p).page? p = none := by rw [hpage, if_pos rfl]
  have hshown : ∀ q, shown { s with cache := s.cache.drop p } q =
      if q = p then s.onDisk q else s.shown q := by
    intro q
    by_cases hq : q = p
    · rw [if_pos hq, hq, shown_of_not_cached hgone]
      rfl
    · rw [if_neg hq]
      exact shown_congr ((hpage q).trans (if_neg hq))
  have hdirty : ∀ q, dirtier { s with cache := s.cache.drop p } q =
      if q = p then none else s.dirtier q := by
    intro q
    by_cases hq : q = p
    · rw [if_pos hq, hq, dirtier_of_not_cached hgone]
    · rw [if_neg hq]
      exact dirtier_congr ((hpage q).trans (if_neg hq))
  refine ⟨⟨hs.catalog, hs.framed.drop p, fun q page hq => ?_, fun q hq => ?_⟩,
    (steady_cache s _).lasts, .discarded rfl (fun _ => rfl) hshown hdirty⟩
  · have hq := (hpage q).symm.trans hq
    by_cases hqp : q = p
    · rw [if_pos hqp] at hq
      cases hq
    · rw [if_neg hqp] at hq
      exact hs.known q page hq
  · rw [hshown]
    rw [hdirty] at hq
    by_cases hqp : q = p
    · rw [if_pos hqp]
      rfl
    · rw [if_neg hqp] at hq ⊢
      exact hs.clean q hq

/-! ## A step of a call -/

/-- What a step of a call leaves: sound pages, a turn of the kind that its answer tells of, and the
same call if it goes on. -/
structure Goes (t : TxnId) (c : Call) (s : Store) (r : Store × Progress) : Prop where
  sound : r.1.Sound
  lasts : Lasts s r.1
  turn : Turn s r.1 (.ofEdit t (r.2.edit? c))
  follows : ∀ c', r.2.call? = some c' → c.Follows c'

theorem Goes.after {r : Store × Progress} (h : Goes t c s₁ r) (hsame : Same s s₁)
    (hlasts : Lasts s s₁) (hlocks : Retains s.locks s₁.locks) : Goes t c s r :=
  ⟨h.sound, hlasts.trans h.lasts, h.turn.after hsame hlocks, h.follows⟩

theorem goes_still {x : Progress} (hs : s.Sound) (hx : x.edit? c = none)
    (hgoes : ∀ c', x.call? = some c' → c.Follows c') : Goes t c s (s, x) where
  sound := hs
  lasts := .refl s
  turn := by
    rw [hx]
    exact .quiet (Keeps.refl s).saves (.refl _)
  follows := hgoes

theorem Went.goes {r : Store × Progress} (h : Went t p c s.Loose s r)
    (hm : c.mode = .exclusive → s.locks.modeOf p t = some .exclusive) :
    Goes t c s r ∧ r.1.locks = s.locks := by
  obtain ⟨hs', hdoes, hplace, hfollows⟩ := h
  cases hedit : r.2.edit? c with
  | none =>
    rw [hedit] at hdoes
    cases hdoes with
    | nothing hk =>
      have hlocks := hk.steady.locks
      refine ⟨⟨hs', hk.steady.lasts, ?_, hfollows⟩, hlocks⟩
      rw [hedit]
      exact .quiet hk.saves (by rw [hlocks]; exact .refl _)
  | some e =>
    rw [hedit] at hdoes
    obtain ⟨rfl, hmode⟩ := hplace e hedit
    cases hdoes with
    | @edit s₁ _ hk he =>
      have hlocks := he.steady.locks.trans hk.steady.locks
      refine ⟨⟨hs', (hk.steady.trans he.steady).lasts, ?_, hfollows⟩, hlocks⟩
      rw [hedit]
      refine .edited hk.saves (by rw [hlocks]; exact .refl _) ?_ he
      rw [hlocks]
      exact hm hmode

theorem decided_goes (hs : s.Sound) (hc : c.Marks) {r : LockManager × Verdict}
    (htried : Tried s.locks r.1 t p c.mode r.2) :
    Goes t c s (s.decided t p c.mode c r) ∧ (s.decided t p c.mode c r).1.locks = r.1 ∧
      (r.2 = .asleep → (s.decided t p c.mode c r).2.call? = some c) := by
  obtain ⟨l, v⟩ := r
  have hretains := htried.retains
  cases v with
  | granted =>
    obtain ⟨hgoes, hlocks⟩ := (proceed_spec (hs.with_locks l) hc t p).goes fun hm => by
      obtain ⟨k, hk, hcov⟩ := htried.covers
      rw [hm] at hcov
      rw [LockMode.eq_exclusive_of_covers hcov] at hk
      exact hk
    exact ⟨hgoes.after (same_locks s l) (lasts_locks s l) hretains, hlocks, fun h => by cases h⟩
  | asleep =>
    have hgoes : Goes t c { s with locks := l } ({ s with locks := l }, .waiting p c.mode c) :=
      goes_still (hs.with_locks l) rfl fun c' h => by
        cases h
        exact .refl c
    exact ⟨hgoes.after (same_locks s l) (lasts_locks s l) hretains, rfl, fun _ => rfl⟩
  | refused =>
    have hgoes : Goes t c { s with locks := l }
        ({ s with locks := l }, .done (c.fail (.aborted t))) :=
      goes_still (hs.with_locks l) (c.edit?_fail _) fun c' h => by cases h
    exact ⟨hgoes.after (same_locks s l) (lasts_locks s l) hretains, rfl, fun h => by cases h⟩

end Store

/-- The page that a call changes is marked. -/
def Action.Marked : Action → Prop
  | .call _ c => c.Marks
  | _ => True

instance : (a : Action) → Decidable a.Marked
  | .call _ c => inferInstanceAs (Decidable c.Marks)
  | .device _ _ => .isTrue trivial
  | .reorder _ => .isTrue trivial
  | .step _ => .isTrue trivial
  | .resume _ => .isTrue trivial
  | .expire _ => .isTrue trivial
  | .commit _ => .isTrue trivial
  | .abort _ => .isTrue trivial
  | .restart => .isTrue trivial
  | .flushPage _ => .isTrue trivial
  | .flushOf _ => .isTrue trivial
  | .flushAll => .isTrue trivial
  | .discard _ => .isTrue trivial
  | .release _ _ => .isTrue trivial

namespace Engine

variable {σ σ₀ : Engine} {es : List Event} {t u d : TxnId} {p : PageId} {c c' : Call} {s : Store}
  {a : Action}

/-- Actions whose calls mark what they change, and that append no page to a file with a page for
every number of 32 bits. -/
def Regular (σ : Engine) (a : Action) : Prop :=
  a.Marked ∧ ∀ tb ∈ σ.appends? a, σ.store.wholeCount tb < 4294967296

instance (σ : Engine) (a : Action) : Decidable (σ.Regular a) :=
  inferInstanceAs
    (Decidable (a.Marked ∧ ∀ tb ∈ σ.appends? a, σ.store.wholeCount tb < 4294967296))

theorem Ordinary.regular (h : σ.Ordinary a) : σ.Regular a := by
  refine ⟨?_, h.2⟩
  cases a with
  | call t c => exact h.1
  | _ => trivial

/-- Sound pages and orderly locks, and whoever sleeps has a call under way that wants the lock. -/
structure Lawful (σ : Engine) : Prop where
  sound : σ.store.Sound
  orderly : σ.store.locks.Orderly
  marks : ∀ t c, σ.calls t = some c → c.Marks
  asleep : ∀ t p m, σ.store.locks.Asleep t p m →
    ∃ c, σ.calls t = some c ∧ c.mode = m ∧ c.Wants p

theorem Lawful.awake (h : Lawful σ) (ht : σ.calls t = none) : σ.store.locks.Awake t := by
  intro w hw hwt
  obtain ⟨c, hc, _⟩ := h.asleep _ _ _ (asleep_of_mem hw)
  rw [hwt, ht] at hc
  cases hc

theorem Lawful.call_of_sleeper (h : Lawful σ) {w : Sleeper} (hw : w ∈ σ.store.locks.sleepers) :
    ∃ c, σ.calls w.txn = some c ∧ c.mode = w.mode ∧ c.Wants w.page :=
  h.asleep _ _ _ (asleep_of_mem hw)

theorem Lawful.after (h : Lawful σ) (hcall : σ.calls t = some c) {r : Store × Progress}
    (hgoes : Store.Goes t c σ.store r) (horderly : r.1.locks.Orderly)
    (hasleep : ∀ u q k, r.1.locks.Asleep u q k →
      (u ≠ t ∧ σ.store.locks.Asleep u q k) ∨
        (u = t ∧ ∃ d, r.2.call? = some d ∧ d.mode = k ∧ d.Wants q)) :
    Lawful (σ.after t r) := by
  refine ⟨hgoes.sound, horderly, fun u d hd => ?_, fun u q k ha => ?_⟩
  · have hd : Function.update σ.calls t r.2.call? u = some d := hd
    by_cases hu : u = t
    · rw [hu, Function.update_self] at hd
      exact (hgoes.follows d hd).marks (h.marks _ _ hcall)
    · rw [Function.update_of_ne hu] at hd
      exact h.marks u d hd
  · change ∃ d, Function.update σ.calls t r.2.call? u = some d ∧ d.mode = k ∧ d.Wants q
    rcases hasleep u q k ha with ⟨hne, hold⟩ | ⟨rfl, d, hd⟩
    · rw [Function.update_of_ne hne]
      exact h.asleep u q k hold
    · rw [Function.update_self]
      exact ⟨d, hd⟩

theorem Lawful.decided (h : Lawful σ) (hcall : σ.calls t = some c) (hs : s.Sound)
    (hsame : Store.Same σ.store s) (hlasts : Store.Lasts σ.store s)
    (hlocks : s.locks = σ.store.locks) (hwants : c.Wants p) {r : LockManager × Verdict}
    (horderly : r.1.Orderly) (htried : Tried σ.store.locks r.1 t p c.mode r.2) :
    Lawful (σ.after t (s.decided t p c.mode c r)) ∧
      Store.Goes t c σ.store (s.decided t p c.mode c r) := by
  rw [← hlocks] at htried
  obtain ⟨hgoes, hafter, hwaits⟩ := Store.decided_goes hs (h.marks _ _ hcall) htried
  have hgoes := hgoes.after hsame hlasts (by rw [hlocks]; exact .refl _)
  refine ⟨h.after hcall hgoes (by rw [hafter]; exact horderly) fun u q k ha => ?_, hgoes⟩
  rw [hafter] at ha
  rcases htried.asleep_cases ha with ⟨hne, hold⟩ | ⟨hv, hu, rfl, rfl⟩
  · rw [hlocks] at hold
    exact .inl ⟨hne, hold⟩
  · exact .inr ⟨hu, c, hwaits hv, rfl, hwants⟩

theorem Lawful.step (h : Lawful σ) (ho : σ.Regular (.step t)) (hcall : σ.calls t = some c)
    (hawake : σ.store.locks.Awake t) :
    Lawful (σ.after t (σ.store.step t c)) ∧ Store.Goes t c σ.store (σ.store.step t c) := by
  obtain ⟨hs, hk⟩ := Store.aim_spec (W := fun _ => False) h.sound c fun tb htb =>
    ho.2 tb (by simp [appends?, hcall, htb])
  have hsuits := (σ.store.aims c).suits
  have hpage : ∀ p m c', (σ.store.aim c).2 = .page p m c' → c' = c ∧ m = c.mode ∧ c.Wants p :=
    fun _ _ _ => Store.aim_page h.sound
  have hsame := hk.same fun _ hp => hp
  have hlasts := hk.steady.lasts
  have hlocks := hk.steady.locks
  unfold Store.step
  generalize σ.store.aim c = r at hs hsame hlasts hlocks hsuits hpage
  obtain ⟨s, a⟩ := r
  dsimp only at hs hsame hlasts hlocks hsuits hpage
  have hstill : ∀ x : Progress, x.edit? c = none → (∀ d, x.call? = some d → c.Follows d) →
      Lawful (σ.after t (s, x)) ∧ Store.Goes t c σ.store (s, x) := by
    intro x hx hfollows
    have hgoes := (Store.goes_still (t := t) hs hx hfollows).after hsame hlasts
      (by rw [hlocks]; exact .refl _)
    refine ⟨h.after hcall hgoes (by rw [hlocks]; exact h.orderly) fun u q k ha => .inl ?_, hgoes⟩
    have ha : s.locks.Asleep u q k := ha
    rw [hlocks] at ha
    refine ⟨?_, ha⟩
    rintro rfl
    exact hawake.not_asleep ha
  cases hsuits with
  | finish hnone => exact hstill (.done _) hnone fun d hd => by cases hd
  | onward hfollows =>
    refine hstill (.next _) rfl fun d hd => ?_
    cases hd
    exact hfollows
  | @page p =>
    obtain ⟨_, _, hwants⟩ := hpage p _ c rfl
    dsimp only
    rw [hlocks]
    exact h.decided hcall hs hsame hlasts hlocks hwants
      (h.orderly.act (a := .request t p c.mode) hawake) (tried_request h.orderly hawake)

theorem Lawful.tried (h : Lawful σ) {w : Sleeper} (hcall : σ.calls w.txn = some c)
    (hw : w ∈ σ.store.locks.sleepers) {r : LockManager × Verdict} (horderly : r.1.Orderly)
    (htried : Tried σ.store.locks r.1 w.txn w.page w.mode r.2) :
    Lawful (σ.after w.txn (σ.store.decided w.txn w.page w.mode c r)) ∧
      Store.Goes w.txn c σ.store (σ.store.decided w.txn w.page w.mode c r) := by
  obtain ⟨c', hc', hmode, hwants⟩ := h.call_of_sleeper hw
  rw [hcall] at hc'
  cases hc'
  rw [← hmode] at htried ⊢
  exact h.decided hcall h.sound ⟨rfl, fun _ => rfl, fun _ => rfl, fun _ => rfl⟩ (.refl _) rfl
    hwants horderly htried

/-! ## Between calls -/

theorem Lawful.store (h : Lawful σ) (hs : s.Sound) (horderly : s.locks.Orderly)
    (hasleep : ∀ u q k, s.locks.Asleep u q k → σ.store.locks.Asleep u q k) :
    Lawful { σ with store := s } :=
  ⟨hs, horderly, h.marks, fun u q k ha => h.asleep u q k (hasleep u q k ha)⟩

theorem Lawful.still (h : Lawful σ) (hs : s.Sound) (hlocks : s.locks = σ.store.locks) :
    Lawful { σ with store := s } := by
  refine h.store hs (by rw [hlocks]; exact h.orderly) fun u q k ha => ?_
  rw [← hlocks]
  exact ha

theorem Lawful.frees (h : Lawful σ) (ht : σ.calls t = none)
    (hlocks : s.locks = σ.store.locks.releaseAll t) :
    s.locks.Orderly ∧ Store.Frees t σ.store s ∧
      ∀ u q k, s.locks.Asleep u q k → σ.store.locks.Asleep u q k := by
  have horderly := h.orderly.act (a := .releaseAll t) (h.awake ht)
  unfold Store.Frees
  rw [hlocks]
  exact ⟨horderly, fun p u => h.orderly.sound.modeOf_releaseAll, fun u q k => asleep_releaseAll.1⟩

theorem Lawful.commit (h : Lawful σ) (ht : σ.calls t = none) :
    Lawful (σ.act (.commit t)) ∧ Store.Lasts σ.store (σ.act (.commit t)).store ∧
      Store.Turn σ.store (σ.act (.commit t)).store (σ.event (.commit t)) := by
  obtain ⟨hs, hk, hdone⟩ := Store.flushed_spec (t := t) h.sound
  have hlocks := hk.steady.locks
  simp only [act, event]
  rcases σ.store.commit_cases t with ⟨e, he, hc⟩ | ⟨hok, hc⟩
  · rw [hc]
    exact ⟨h.still hs hlocks, hk.steady.lasts, .halted hk.saves hlocks⟩
  · rw [hc]
    obtain ⟨horderly, hfrees, hasleep⟩ := h.frees (s := (σ.store.flushed t).1.releaseAll t) ht
      (congrArg (·.releaseAll t) hlocks)
    exact ⟨h.store (hs.with_locks _) horderly hasleep,
      hk.steady.lasts.trans (Store.lasts_locks _ _), .committed ⟨hk.shown, hk.page⟩ hfrees (hdone hok)⟩

theorem Lawful.abort (h : Lawful σ) (ht : σ.calls t = none) :
    Lawful (σ.act (.abort t)) ∧ Store.Lasts σ.store (σ.act (.abort t)).store ∧
      Store.Turn σ.store (σ.act (.abort t)).store (σ.event (.abort t)) := by
  obtain ⟨hs, hrev, hdone⟩ := Store.restore_spec (t := t) h.sound
  have hlocks := hrev.steady.locks
  simp only [act, event]
  rcases σ.store.abort_cases t with ⟨e, he, hc⟩ | ⟨hok, hc⟩
  · rw [hc]
    exact ⟨h.still hs hlocks, hrev.steady.lasts, .stuck hrev hlocks⟩
  · rw [hc]
    obtain ⟨horderly, hfrees, hasleep⟩ := h.frees (s := (σ.store.restore t).1.releaseAll t) ht
      (congrArg (·.releaseAll t) hlocks)
    have hkept : ∀ p, σ.store.dirtier p ≠ some t →
        (σ.store.restore t).1.dirtier p = σ.store.dirtier p ∧
          (σ.store.restore t).1.shown p = σ.store.shown p :=
      fun p hp => (hrev.page p).resolve_right fun hq => hp hq.1
    refine ⟨h.store (hs.with_locks _) horderly hasleep,
      hrev.steady.lasts.trans (Store.lasts_locks _ _),
      .aborted hfrees hrev.onDisk (fun p => ?_) fun p => ?_⟩
    · by_cases hp : σ.store.dirtier p = some t
      · rw [if_pos hp]
        exact (hdone hok p hp).2
      · rw [if_neg hp]
        exact (hkept p hp).2
    · by_cases hp : σ.store.dirtier p = some t
      · rw [if_pos hp]
        exact (hdone hok p hp).1
      · rw [if_neg hp]
        exact (hkept p hp).1

theorem Lawful.restart (h : Lawful σ) :
    Lawful (σ.act .restart) ∧ Store.Lasts σ.store (σ.act .restart).store ∧
      Store.Turn σ.store (σ.act .restart).store .restarted := by
  obtain ⟨hs, hconfig, hlocks, hdisk, hshown, hclean⟩ := h.sound.reopen
  have hlasts : Store.Lasts σ.store σ.store.reopen := by
    have htables : σ.store.reopen.catalog.fresh = σ.store.catalog.fresh := by
      rw [Store.reopen_eq h.sound.catalog]
      exact Store.fresh_fresh _
    refine ⟨hconfig, htables, fun tb => Nat.le_of_eq ?_⟩
    unfold Store.wholeCount
    rw [Store.fileOf_congr htables fun k => ?_]
    rw [Store.reopen_eq h.sound.catalog]
    rfl
  refine ⟨⟨hs, ?_, fun u d hd => (by cases hd), fun u q k hasleep => ?_⟩, hlasts,
    .restarted (fun p u => ?_) hdisk hshown hclean⟩
  · change σ.store.reopen.locks.Orderly
    rw [hlocks]
    exact orderly_start _
  · have hasleep : σ.store.reopen.locks.Asleep u q k := hasleep
    rw [hlocks] at hasleep
    obtain ⟨w, hw, _⟩ := hasleep
    exact absurd hw List.not_mem_nil
  · change σ.store.reopen.locks.modeOf p u = none
    rw [hlocks]
    exact modeOf_start _ _ _

theorem Lawful.flush (h : Lawful σ) {fs : List FrameId}
    (hres : ∀ f ∈ fs, ∃ p : PageId, σ.store.cache.resident[p]? = some f) :
    Lawful { σ with store := (σ.store.flushFrames fs).1 } ∧
      Store.Lasts σ.store (σ.store.flushFrames fs).1 ∧
      Store.Turn σ.store (σ.store.flushFrames fs).1 .flushed := by
  obtain ⟨hs, hk, _⟩ := Store.flushFrames_spec h.sound hres
  exact ⟨h.still hs hk.steady.locks, hk.steady.lasts,
    .flushed (hk.mono fun _ _ => trivial).saves hk.steady.locks⟩

theorem Lawful.flushPage (h : Lawful σ) (p : PageId) :
    Lawful { σ with store := (σ.store.flushPage p).1 } ∧
      Store.Lasts σ.store (σ.store.flushPage p).1 ∧
      Store.Turn σ.store (σ.store.flushPage p).1 .flushed := by
  unfold Store.flushPage
  cases hr : σ.store.cache.resident[p]? with
  | none => exact ⟨h, .refl _, .flushed (Store.Keeps.refl _).saves rfl⟩
  | some f =>
    obtain ⟨hs, hk, _⟩ := Store.flushFrame_spec h.sound hr
    exact ⟨h.still hs hk.steady.locks, hk.steady.lasts,
      .flushed (hk.mono fun _ _ => trivial).saves hk.steady.locks⟩

theorem Lawful.release (h : Lawful σ) (ht : σ.calls t = none) (p : PageId) :
    Lawful (σ.act (.release t p)) ∧ Store.Lasts σ.store (σ.act (.release t p)).store ∧
      Store.Turn σ.store (σ.act (.release t p)).store (.released t p) := by
  have horderly := h.orderly.act (a := .release p t) (h.awake ht)
  exact ⟨h.store (h.sound.with_locks _) horderly fun u q k => asleep_release.1,
    Store.lasts_locks _ _,
    .released (Store.same_locks _ _) fun q u => h.orderly.sound.modeOf_release⟩

/-- An action does to the pages what its event says. -/
theorem Lawful.act (h : Lawful σ) (ha : σ.Allows a) (ho : σ.Regular a) :
    Lawful (σ.act a) ∧ Store.Lasts σ.store (σ.act a).store ∧
      Store.Turn σ.store (σ.act a).store (σ.event a) := by
  cases a with
  | device faults lengthFails =>
    exact ⟨h.store (h.sound.with_device faults lengthFails) h.orderly fun _ _ _ => id,
      ⟨rfl, rfl, fun _ => Nat.le_refl _⟩, .quiet (Store.same_device _ _ _).saves (.refl _)⟩
  | reorder walk =>
    exact ⟨h.store (h.sound.with_walk walk) h.orderly fun _ _ _ => id,
      ⟨rfl, rfl, fun _ => Nat.le_refl _⟩, .quiet (Store.same_walk _ _).saves (.refl _)⟩
  | call t c =>
    refine ⟨⟨h.sound, h.orderly, fun u d hd => ?_, fun u q k hasleep => ?_⟩, .refl _,
      .quiet (Store.Keeps.refl _).saves (.refl _)⟩
    · have hd : Function.update σ.calls t (some c) u = some d := hd
      by_cases hu : u = t
      · rw [hu, Function.update_self] at hd
        cases hd
        exact ho.1
      · rw [Function.update_of_ne hu] at hd
        exact h.marks u d hd
    · have hu : u ≠ t := by
        rintro rfl
        exact (h.awake ha).not_asleep hasleep
      change ∃ d, Function.update σ.calls t (some c) u = some d ∧ d.mode = k ∧ d.Wants q
      rw [Function.update_of_ne hu]
      exact h.asleep u q k hasleep
  | step t =>
    obtain ⟨hsome, hawake⟩ := ha
    obtain ⟨c, hc⟩ := Option.isSome_iff_exists.1 hsome
    obtain ⟨hlawful, hgoes⟩ := h.step ho hc hawake
    simp only [Engine.act, event, hc]
    exact ⟨hlawful, hgoes.lasts, hgoes.turn⟩
  | resume w =>
    obtain ⟨c, hc, _⟩ := h.call_of_sleeper ha.1
    obtain ⟨hlawful, hgoes⟩ :=
      h.tried hc ha.1 (h.orderly.act (a := .retry w) ha) (tried_retry h.orderly ha.1)
    simp only [Engine.act, event, hc]
    exact ⟨hlawful, hgoes.lasts, hgoes.turn⟩
  | expire w =>
    obtain ⟨c, hc, _⟩ := h.call_of_sleeper ha
    obtain ⟨hlawful, hgoes⟩ :=
      h.tried hc ha (h.orderly.act (a := .expire w) ha) (tried_expire h.orderly ha)
    simp only [Engine.act, event, hc]
    exact ⟨hlawful, hgoes.lasts, hgoes.turn⟩
  | commit t => exact h.commit ha
  | abort t => exact h.abort ha
  | restart => exact h.restart
  | flushPage p => exact h.flushPage p
  | flushOf t => exact h.flush (Store.resident_of_framesWhere _)
  | flushAll => exact h.flush (Store.resident_of_framesWhere _)
  | discard p =>
    obtain ⟨hs, hlasts, hturn⟩ := h.sound.discard p
    exact ⟨h.still hs rfl, hlasts, hturn⟩
  | release t p => exact h.release ha p

/-! ## Runs -/

theorem lawful_idle {config : PoolConfig} {v : Volume} (h : Store.Opened config v s) :
    Lawful (idle s) := by
  obtain ⟨hcat, hcache, hlocks, _⟩ := h.spec
  refine ⟨Store.sound_of_empty hcat hcache, ?_, fun t c hc => (by cases hc),
    fun t p m hasleep => ?_⟩
  · change s.locks.Orderly
    rw [hlocks]
    exact orderly_start _
  · have hasleep : s.locks.Asleep t p m := hasleep
    rw [hlocks] at hasleep
    obtain ⟨w, hw, _⟩ := hasleep
    exact absurd hw List.not_mem_nil

/-- Lawful engines one after the other, with what happens to the pages on the way, the latest
first. -/
inductive Turns (σ₀ : Engine) : List Event → Engine → Prop where
  | start : Turns σ₀ [] σ₀
  | turn {es : List Event} {e : Event} {σ σ' : Engine} :
      Turns σ₀ es σ → Lawful σ' → Store.Lasts σ.store σ'.store → Store.Turn σ.store σ'.store e →
      Turns σ₀ (e :: es) σ'

theorem Turns.lawful (h₀ : Lawful σ₀) (h : Turns σ₀ es σ) :
    Lawful σ ∧ Store.Lasts σ₀.store σ.store := by
  induction h with
  | start => exact ⟨h₀, .refl _⟩
  | turn _ hlawful hlasts _ ih => exact ⟨hlawful, ih.2.trans hlasts⟩

theorem Run.turns {ok : Engine → Action → Prop} (hok : ∀ σ a, ok σ a → Regular σ a)
    (h₀ : Lawful σ₀) (h : Run ok σ₀ es σ) : Turns σ₀ es σ := by
  induction h with
  | start => exact .start
  | act a _ ha hoka ih =>
    obtain ⟨hlawful, hlasts, hturn⟩ := (ih.lawful h₀).1.act ha (hok _ _ hoka)
    exact .turn ih hlawful hlasts hturn

theorem Run.lawful {ok : Engine → Action → Prop} (hok : ∀ σ a, ok σ a → Regular σ a)
    (h₀ : Lawful σ₀) (h : Run ok σ₀ es σ) : Lawful σ ∧ Store.Lasts σ₀.store σ.store :=
  (h.turns hok h₀).lawful h₀

end Engine
end PageStore

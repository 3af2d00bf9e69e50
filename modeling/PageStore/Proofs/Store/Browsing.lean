import PageStore.Proofs.Store.Residency

/-!
# PageStore.Proofs.Store.Browsing

Transactions that only look at pages, any number of them, step by step: they wait for locks, commit,
abort and flush, and nobody changes a page.

* `Browse` is a run of such transactions, with the pages that were got, in order.
* `Browsing` is the invariant, `Browsing.act` its step: a fetch that goes on gets its page
  (`Browsing.goes_on`), and whatever else is done leaves the pool alone (`Browsing.rests`).
* `Browse.keeps_most_recent`: the pages in memory are always the ones that were got last.
-/

namespace PageStore

open LockManager

/-- Whether an action only looks at pages, or is done between looking, and drops none. -/
def Action.browses : Action → Bool
  | .call _ (.fetch _ _) => true
  | .call _ _ => false
  | .restart => false
  | .discard _ => false
  | _ => true

namespace Engine

variable {σ σ₀ : Engine} {a : Action} {n : Nat} {us : List PageId} {t : TxnId} {p : PageId}
  {access : Access} {c : Call} {r : Store × Progress} {x : LockManager × Verdict} {s : Store}
  {f : FrameId}

/-- Whether a fetch ends without its page although it has the lock. -/
def fetchFails (σ : Engine) (a : Action) : Bool :=
  match σ.answered? a with
  | some (t, _, .fetched (.error e)) => e ≠ .aborted t
  | _ => false

/-- Actions that look at pages, and find them. A fetch may have to wait, and may be refused. -/
def Browses (σ : Engine) (a : Action) : Prop := a.browses = true ∧ σ.fetchFails a = false

instance (σ : Engine) (a : Action) : Decidable (σ.Browses a) :=
  inferInstanceAs (Decidable (a.browses = true ∧ σ.fetchFails a = false))

/-- The page that is got with an action. -/
def got (σ : Engine) (a : Action) : List PageId :=
  match σ.fetched? a with
  | some (_, p, _, _) => [p]
  | none => []

/-- The engines that are reached by looking at pages, with the pages that were got, in order. -/
inductive Browse (σ₀ : Engine) : List PageId → Engine → Prop where
  | start : Browse σ₀ [] σ₀
  | act {us : List PageId} {σ : Engine} (a : Action) :
      Browse σ₀ us σ → σ.Allows a → σ.Browses a → Browse σ₀ (us ++ σ.got a) (σ.act a)

/-- Every call under way fetches a page, and whoever sleeps sleeps for the lock of his page. -/
structure Browsing (n : Nat) (σ : Engine) (us : List PageId) : Prop where
  lately : σ.store.Lately n us
  orderly : σ.store.locks.Orderly
  fetches : ∀ t c, σ.calls t = some c → ∃ p access, c = .fetch p access
  asleep : ∀ t p m, σ.store.locks.Asleep t p m →
    ∃ access, σ.calls t = some (.fetch p access) ∧ access.mode = m

theorem browsing_idle (h : s.Unused) : Browsing s.config.capacity (idle s) [] where
  lately := Store.lately_empty h.cache
  orderly := by
    change s.locks.Orderly
    rw [h.locks]
    exact orderly_start _
  fetches t c hc := by cases hc
  asleep t p m hasleep := by
    have hasleep : s.locks.Asleep t p m := hasleep
    rw [h.locks] at hasleep
    obtain ⟨w, hw, -⟩ := hasleep
    exact absurd hw List.not_mem_nil

theorem Browsing.awake (h : Browsing n σ us) (ht : σ.calls t = none) : σ.store.locks.Awake t := by
  intro w hw hwt
  obtain ⟨access, hc, -⟩ := h.asleep _ _ _ (asleep_of_mem hw)
  rw [hwt, ht] at hc
  cases hc

/-! ## A fetch goes on -/

/-- A fetch goes on as the lock manager decides about the lock of its page. -/
structure Asks (σ : Engine) (t : TxnId) (p : PageId) (access : Access)
    (x : LockManager × Verdict) : Prop where
  call : σ.calls t = some (.fetch p access)
  orderly : x.1.Orderly
  tried : Tried σ.store.locks x.1 t p access.mode x.2

theorem Browsing.asks (h : Browsing n σ us) (ha : σ.Allows a) (hm : σ.moved? a = some (t, c, r)) :
    ∃ p access x, c = .fetch p access ∧ σ.Asks t p access x ∧
      r = σ.store.decided t p access.mode (.fetch p access) x := by
  obtain ⟨hcall, hcases⟩ := moved_cases hm
  obtain ⟨p, access, rfl⟩ := h.fetches t c hcall
  -- a sleeper sleeps for the page and the mode of its call
  have hslept : ∀ w ∈ σ.store.locks.sleepers, w.txn = t → w.page = p ∧ w.mode = access.mode := by
    rintro w hw rfl
    obtain ⟨access', hc, hmode⟩ := h.asleep _ _ _ (asleep_of_mem hw)
    rw [hcall] at hc
    cases hc
    exact ⟨rfl, hmode.symm⟩
  rcases hcases with ⟨rfl, rfl⟩ | ⟨w, rfl, rfl, rfl⟩ | ⟨w, rfl, rfl, rfl⟩
  · exact ⟨p, access, σ.store.locks.request t p access.mode, rfl,
      ⟨hcall, h.orderly.act (a := .request t p access.mode) ha.2, tried_request h.orderly ha.2⟩, rfl⟩
  · obtain ⟨rfl, hmode⟩ := hslept w ha.1 rfl
    refine ⟨w.page, access, σ.store.locks.retry w, rfl,
      ⟨hcall, h.orderly.act (a := .retry w) ha, ?_⟩, ?_⟩
    · rw [← hmode]
      exact tried_retry h.orderly ha.1
    · rw [← hmode]
      rfl
  · obtain ⟨rfl, hmode⟩ := hslept w ha rfl
    refine ⟨w.page, access, σ.store.locks.expire w, rfl,
      ⟨hcall, h.orderly.act (a := .expire w) ha, ?_⟩, ?_⟩
    · rw [← hmode]
      exact tried_expire h.orderly ha
    · rw [← hmode]
      rfl

/-- Only a fetch that has to wait is still under way. -/
theorem Browsing.after (h : Browsing n σ us) (hasks : σ.Asks t p access x) {us' : List PageId}
    (hlately : r.1.Lately n us') (hlocks : r.1.locks = x.1)
    (hcall : r.2.call? = if x.2 = .asleep then some (.fetch p access) else none) :
    Browsing n (σ.after t r) us' := by
  refine ⟨hlately, ?_, ?_, ?_⟩
  · change r.1.locks.Orderly
    rw [hlocks]
    exact hasks.orderly
  · intro u c hc
    have hc : Function.update σ.calls t r.2.call? u = some c := hc
    by_cases hu : u = t
    · rw [hu, Function.update_self, hcall] at hc
      split at hc
      · cases hc
        exact ⟨p, access, rfl⟩
      · cases hc
    · rw [Function.update_of_ne hu] at hc
      exact h.fetches u c hc
  · intro u q k hasleep
    have hasleep : r.1.locks.Asleep u q k := hasleep
    change ∃ access', Function.update σ.calls t r.2.call? u = some (.fetch q access') ∧ _
    rw [hlocks] at hasleep
    rcases hasks.tried.asleep_cases hasleep with ⟨hne, hold⟩ | ⟨hv, rfl, rfl, rfl⟩
    · rw [Function.update_of_ne hne]
      exact h.asleep u q k hold
    · rw [Function.update_self, hcall, if_pos hv]
      exact ⟨access, rfl, rfl⟩

theorem answered_of_moved {answer : Answer} (hm : σ.moved? a = some (t, c, (s, .done answer))) :
    σ.answered? a = some (t, c, answer) := by
  unfold answered?
  rw [hm]

/-- What one action more comes to. -/
structure Furthers (n : Nat) (us : List PageId) (σ : Engine) (a : Action) : Prop where
  browsing : Browsing n (σ.act a) (us ++ σ.got a)
  gets : ∀ t p access f, σ.fetched? a = some (t, p, access, f) →
    σ.store.Gets n us p (σ.act a).store

theorem furthers_of_none (h : Browsing n (σ.act a) us) (hf : σ.fetched? a = none) :
    Furthers n us σ a := by
  have hgot : σ.got a = [] := by
    unfold got
    rw [hf]
  refine ⟨?_, fun t p access f hf' => ?_⟩
  · rwa [hgot, List.append_nil]
  · rw [hf] at hf'
    cases hf'

theorem furthers_of_fetched (hf : σ.fetched? a = some (t, p, access, f))
    (h : Browsing n (σ.act a) (us ++ [p])) (hgets : σ.store.Gets n us p (σ.act a).store) :
    Furthers n us σ a := by
  have hgot : σ.got a = [p] := by
    unfold got
    rw [hf]
  refine ⟨?_, fun t p access f hf' => ?_⟩
  · rwa [hgot]
  · rw [hf] at hf'
    cases hf'
    exact hgets

/-- A fetch that goes on waits, is refused, or gets its page. -/
theorem Browsing.goes_on (h : Browsing n σ us) (ha : σ.Allows a) (hb : σ.fetchFails a = false)
    (hm : σ.moved? a = some (t, c, r)) : Furthers n us σ a := by
  obtain ⟨p, access, ⟨l, v⟩, rfl, hasks, hr⟩ := h.asks ha hm
  have hlately : Store.Lately n { σ.store with locks := l } us := h.lately.congr rfl rfl
  have hact := (act_of_moved hm).2.1
  cases v with
  | asleep =>
    cases hr
    refine furthers_of_none ?_ ?_
    · rw [hact]
      exact h.after hasks hlately rfl rfl
    · unfold fetched? answered?
      rw [hm]
      rfl
  | refused =>
    cases hr
    refine furthers_of_none ?_ ?_
    · rw [hact]
      exact h.after hasks hlately rfl rfl
    · unfold fetched?
      rw [answered_of_moved hm]
      rfl
  | granted =>
    have hgets : ∀ found, (Store.fetch _ p).2 = .ok found → _ := fun _ => hlately.fetch
    have herror := fun e => hlately.fetch_error (p := p) (t := t) (e := e)
    rw [Store.decided_of_granted] at hr
    generalize Store.fetch _ p = y at hr hgets herror
    obtain ⟨s', z⟩ := y
    cases hr
    have hans := answered_of_moved hm
    cases z with
    | error e =>
      -- the lock is there, so this is the failure that is left out
      unfold fetchFails at hb
      rw [hans] at hb
      exact absurd (by simpa using hb) (herror e rfl)
    | ok found =>
      obtain ⟨hlately', hlocks, hgets⟩ := hgets found rfl
      obtain ⟨f, page⟩ := found
      have hfetched : σ.fetched? a = some (t, p, access, f) := by
        unfold fetched?
        rw [hans]
      refine furthers_of_fetched hfetched ?_ ?_
      · rw [hact]
        exact h.after hasks hlately' hlocks rfl
      · rw [hact]
        exact hgets.of_locks

/-! ## Between fetches -/

theorem Browsing.between (h : Browsing n σ us) (hlately : s.Lately n us)
    (horderly : s.locks.Orderly)
    (hasleep : ∀ u q k, s.locks.Asleep u q k → σ.store.locks.Asleep u q k) :
    Browsing n { σ with store := s } us :=
  ⟨hlately, horderly, h.fetches, fun u q k ha => h.asleep u q k (hasleep u q k ha)⟩

theorem Browsing.releaseAll (h : Browsing n σ us) (ht : σ.calls t = none) :
    Browsing n { σ with store := σ.store.releaseAll t } us :=
  h.between (h.lately.congr rfl rfl) (h.orderly.act (a := .releaseAll t) (h.awake ht))
    fun _ _ _ => asleep_releaseAll.1

/-- Nothing else that browsing transactions do gets a page. -/
theorem Browsing.rests (h : Browsing n σ us) (ha : σ.Allows a) (hb : a.browses = true)
    (hm : σ.moved? a = none) : Browsing n (σ.act a) us := by
  have hclean := h.lately.clean
  have hframed := h.lately.tidy.tracked.framed
  cases a with
  | device faults lengthFails => exact h.between (h.lately.congr rfl rfl) h.orderly fun _ _ _ => id
  | reorder walk => exact h.between (h.lately.congr rfl rfl) h.orderly fun _ _ _ => id
  | call t c =>
    refine ⟨h.lately, h.orderly, fun u d hd => ?_, fun u q k hasleep => ?_⟩
    · have hd : Function.update σ.calls t (some c) u = some d := hd
      by_cases hu : u = t
      · rw [hu, Function.update_self] at hd
        cases hd
        cases c with
        | fetch p access => exact ⟨p, access, rfl⟩
        | _ => cases hb
      · rw [Function.update_of_ne hu] at hd
        exact h.fetches u d hd
    · have hu : u ≠ t := by
        rintro rfl
        exact (h.awake ha).not_asleep hasleep
      change ∃ access, Function.update σ.calls t (some c) u = some (.fetch q access) ∧ _
      rw [Function.update_of_ne hu]
      exact h.asleep u q k hasleep
  | step t =>
    obtain ⟨c, hc⟩ := Option.isSome_iff_exists.1 ha.1
    simp [moved?, hc] at hm
  | resume w =>
    obtain ⟨access, hc, -⟩ := h.asleep _ _ _ (asleep_of_mem ha.1)
    simp [moved?, hc] at hm
  | expire w =>
    obtain ⟨access, hc, -⟩ := h.asleep _ _ _ (asleep_of_mem ha)
    simp [moved?, hc] at hm
  | commit t =>
    simp only [Engine.act]
    rw [hclean.commit]
    exact h.releaseAll ha
  | abort t =>
    simp only [Engine.act]
    rw [hclean.abort]
    exact h.releaseAll ha
  | restart => cases hb
  | flushPage p =>
    simp only [Engine.act]
    rw [hclean.flushPage hframed]
    exact h
  | flushOf t =>
    simp only [Engine.act]
    rw [hclean.flushOf]
    exact h
  | flushAll =>
    simp only [Engine.act]
    rw [hclean.flushAll]
    exact h
  | discard p => cases hb
  | release t p =>
    exact h.between (h.lately.congr rfl rfl) (h.orderly.act (a := .release p t) (h.awake ha))
      fun _ _ _ => asleep_release.1

theorem Browsing.act (h : Browsing n σ us) (ha : σ.Allows a) (hb : σ.Browses a) :
    Furthers n us σ a := by
  cases hm : σ.moved? a with
  | some y =>
    obtain ⟨t, c, r⟩ := y
    exact h.goes_on ha hb.2 hm
  | none =>
    refine furthers_of_none (h.rests ha hb.1 hm) ?_
    unfold fetched? answered?
    rw [hm]

/-! ## Runs -/

theorem Browse.browsing (h : Browse σ₀ us σ) (h₀ : Browsing n σ₀ []) : Browsing n σ us := by
  induction h with
  | start => exact h₀
  | act a _ ha hb ih => exact (ih.act ha hb).browsing

/-- The pages in memory are those that were got last, as many of the distinct ones as there is room
for. What is got from among them is a hit, and everything else is one miss and one read. -/
theorem Browse.keeps_most_recent {s₀ : Store} (h₀ : s₀.Unused) (h : Browse (idle s₀) us σ) :
    (∀ p, σ.store.cache.contains p = true ↔ p ∈ recent s₀.config.capacity us) ∧
    (∀ p, σ.store.cache.contains p = true → p ∈ us ∧
      ∀ q ∈ us, σ.store.cache.contains q = false → UsedSince us q p) ∧
    σ.store.cache.size = min s₀.config.capacity us.dedup.length ∧
    σ.store.cache.stats.hits + σ.store.cache.stats.misses = us.length ∧
    σ.store.cache.stats.misses = σ.store.cache.stats.evictions + σ.store.cache.size ∧
    ∀ a t p access f, σ.Allows a → σ.Browses a → σ.fetched? a = some (t, p, access, f) →
      σ.store.Gets s₀.config.capacity us p (σ.act a).store := by
  have hbrowsing := h.browsing (browsing_idle h₀)
  have hlately := hbrowsing.lately
  refine ⟨fun p => hlately.contains_iff, ?_, ?_, hlately.counted, hlately.filled, ?_⟩
  · intro p hp
    have hp := hlately.contains_iff.1 hp
    refine ⟨mem_of_recent hp, ?_⟩
    intro q hq hout
    refine recent_since hp hq ?_
    rwa [← hlately.contains_iff, Bool.not_eq_true]
  · rw [hlately.size_eq, length_recent]
  · intro a t p access f ha hb hf
    exact (hbrowsing.act ha hb).gets t p access f hf

/-- An engine after looking at some pages, with the pages that were got. -/
def browse (σ : Engine) : List Action → List PageId × Engine :=
  List.foldl (fun r a => (r.1 ++ r.2.got a, r.2.act a)) ([], σ)

theorem Browse.foldl (as : List Action) :
    ∀ {us : List PageId} {σ : Engine}, Browse σ₀ us σ → Follow Browses σ as →
      Browse σ₀ (as.foldl (fun r a => (r.1 ++ r.2.got a, r.2.act a)) (us, σ)).1
        (as.foldl (fun r a => (r.1 ++ r.2.got a, r.2.act a)) (us, σ)).2 := by
  induction as with
  | nil =>
    intro us σ h _
    exact h
  | cons a rest ih =>
    intro us σ h hf
    exact ih (.act a h hf.1.1 hf.1.2) hf.2

/-- A table of three blank pages, and room for two of them. -/
def gallery : Store :=
  ((Store.start { capacity := 2 }
    { Volume.ofDirectory "/db" with
      entries := (Volume.ofDirectory "/db").entries.insert "/db/t"
        (.file (ByteFile.empty.write 2 Image.blank)) }).createTable "t" "/db/t"
      Store.sampleSchema).1

/-- The third transaction waits for the second page until the first one has committed. -/
def visits : List Action :=
  [.call ⟨1⟩ (.fetch ⟨⟨0⟩, 0⟩ .readOnly), .step ⟨1⟩,
    .call ⟨1⟩ (.fetch ⟨⟨0⟩, 1⟩ .readWrite), .step ⟨1⟩,
    .call ⟨2⟩ (.fetch ⟨⟨0⟩, 0⟩ .readOnly), .step ⟨2⟩,
    .call ⟨2⟩ (.fetch ⟨⟨0⟩, 2⟩ .readOnly), .step ⟨2⟩,
    .call ⟨3⟩ (.fetch ⟨⟨0⟩, 1⟩ .readOnly), .step ⟨3⟩, .commit ⟨1⟩]

def visited : Engine := (browse (idle gallery) visits).2

/-- The second page has made way for the third one, and has to be read again. -/
theorem visited_keeps_most_recent :
    (browse (idle gallery) visits).1 = [⟨⟨0⟩, 0⟩, ⟨⟨0⟩, 1⟩, ⟨⟨0⟩, 0⟩, ⟨⟨0⟩, 2⟩] ∧
    (∀ p, visited.store.cache.contains p = true ↔ p ∈ [⟨⟨0⟩, 0⟩, (⟨⟨0⟩, 2⟩ : PageId)]) ∧
    UsedSince (browse (idle gallery) visits).1 ⟨⟨0⟩, 1⟩ ⟨⟨0⟩, 0⟩ ∧
    Store.Miss visited.store ⟨⟨0⟩, 1⟩
      (visited.act (.resume ⟨⟨3⟩, ⟨⟨0⟩, 1⟩, .shared, true⟩)).store := by
  have hunused : gallery.Unused := (Store.unused_start _ _).createTable _ _ _
  have hbrowse : Browse (idle gallery) (browse (idle gallery) visits).1 visited :=
    Browse.start.foldl visits (by decide +kernel)
  have hgot : (browse (idle gallery) visits).1 =
      [⟨⟨0⟩, 0⟩, ⟨⟨0⟩, 1⟩, ⟨⟨0⟩, 0⟩, ⟨⟨0⟩, 2⟩] := by
    decide +kernel
  have hrecent : recent gallery.config.capacity (browse (idle gallery) visits).1 =
      [⟨⟨0⟩, 0⟩, ⟨⟨0⟩, 2⟩] := by
    rw [hgot]
    decide +kernel
  obtain ⟨hin, hsince, -, -, -, hgets⟩ := Browse.keeps_most_recent hunused hbrowse
  have hmiss := (hgets (.resume ⟨⟨3⟩, ⟨⟨0⟩, 1⟩, .shared, true⟩) ⟨3⟩ ⟨⟨0⟩, 1⟩ .readOnly 3
    (by decide +kernel) (by decide +kernel) (by decide +kernel)).miss.1
  rw [hrecent] at hin hmiss
  refine ⟨hgot, hin, ?_, hmiss (by decide)⟩
  refine (hsince _ ((hin _).2 (by decide))).2 _ ?_ ?_
  · rw [hgot]
    decide
  · rw [← Bool.not_eq_true, hin]
    decide

end Engine
end PageStore

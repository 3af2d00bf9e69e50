import PageStore.Proofs.Lock.Index
import PageStore.Proofs.Lock.Waking

/-!
# PageStore.Proofs.Lock.Decisions

How a request is decided, and what a refused one leaves behind. The holders of a page are decided by
two fields, but what comes out is the matrix of compatible modes: `decisions` says so of every lock
manager that threads can come to, and what a grant changes.

A call that is refused in the end has tried once or several times, and other transactions may have
taken steps in between (`Fails`). None of its tries touches a lock, so if the call is taken out of
the run and the other steps stay, the locks come out the same (`Fails.sameLocks`); and the step that
refuses it drops the edges of its transaction.
-/

namespace PageStore
namespace LockManager

variable {c : LockConfig} {l l' : LockManager} {t u : TxnId} {p q : PageId} {m k : LockMode}
  {v : Verdict} {a : LockAction} {s : LockStep} {steps call : List LockStep}

/-! ## Lock managers with the same locks -/

/-- The same holders of every page and the same index. -/
structure SameLocks (l l' : LockManager) : Prop where
  table : l.table = l'.table
  held : l.held = l'.held

theorem SameLocks.trans {l'' : LockManager} (h : SameLocks l l') (h' : SameLocks l' l'') :
    SameLocks l l'' :=
  ⟨h.table.trans h'.table, h.held.trans h'.held⟩

theorem SameLocks.modeOf (h : SameLocks l l') : l.modeOf q u = l'.modeOf q u := by
  unfold LockManager.modeOf LockManager.holders
  rw [h.table]

theorem SameLocks.pagesOf (h : SameLocks l l') : l.pagesOf u = l'.pagesOf u := by
  unfold LockManager.pagesOf
  rw [h.held]

theorem SameLocks.lockedPages (h : SameLocks l l') : l.lockedPages u = l'.lockedPages u := by
  unfold LockManager.lockedPages
  rw [h.pagesOf]

/-- What becomes of the locks depends on the locks alone. -/
theorem SameLocks.attempt (h : SameLocks l l') :
    SameLocks (l.attempt t p m).1 (l'.attempt t p m).1 := by
  obtain ⟨c, table, held, g, ss⟩ := l
  obtain ⟨c', table', held', g', ss'⟩ := l'
  obtain ⟨htable, hheld⟩ := h
  dsimp only at htable hheld
  subst htable hheld
  unfold LockManager.attempt
  dsimp only [LockManager.holders, LockManager.pagesOf]
  by_cases hc : ((table.getD p {}).modeOf t).any (·.covers m) = true
  · rw [if_pos hc, if_pos hc]
    exact ⟨rfl, rfl⟩
  · rw [if_neg hc, if_neg hc]
    cases (table.getD p {}).grant? t m with
    | some x => exact ⟨rfl, rfl⟩
    | none =>
      dsimp only
      repeat' split
      all_goals exact ⟨rfl, rfl⟩

theorem SameLocks.release (h : SameLocks l l') :
    SameLocks (l.release p t).1 (l'.release p t).1 := by
  obtain ⟨c, table, held, g, ss⟩ := l
  obtain ⟨c', table', held', g', ss'⟩ := l'
  obtain ⟨htable, hheld⟩ := h
  dsimp only at htable hheld
  subst htable hheld
  unfold LockManager.release
  dsimp only [LockManager.holders]
  cases (table.getD p {}).release? t with
  | some x => exact ⟨rfl, rfl⟩
  | none => exact ⟨rfl, rfl⟩

theorem SameLocks.drop (h : SameLocks l l') : SameLocks (drop t l p) (drop t l' p) := by
  unfold LockManager.drop LockManager.holders
  exact ⟨by simp only [h.table], h.held⟩

theorem SameLocks.foldl_drop (h : SameLocks l l') (ps : List PageId) :
    SameLocks (ps.foldl (LockManager.drop t) l) (ps.foldl (LockManager.drop t) l') := by
  induction ps generalizing l l' with
  | nil => exact h
  | cons p rest ih => exact ih h.drop

theorem SameLocks.releaseAll (h : SameLocks l l') :
    SameLocks (l.releaseAll t) (l'.releaseAll t) := by
  have hdropped := h.foldl_drop (t := t) (l.lockedPages t)
  unfold LockManager.releaseAll
  rw [← h.lockedPages]
  exact ⟨hdropped.table, by simp only [h.held]⟩

theorem sameLocks_of_tries (ha : a.tries = some (t, p, m)) :
    SameLocks (l.act a) (l.attempt t p m).1 :=
  ⟨(locks_of_tries ha).1, (locks_of_tries ha).2⟩

theorem SameLocks.symm (h : SameLocks l l') : SameLocks l' l := ⟨h.table.symm, h.held.symm⟩

theorem SameLocks.take (h : SameLocks l l') (s : LockStep) : SameLocks (l.take s) (l'.take s) := by
  cases s with
  | action a =>
    rcases a.tries_cases with ⟨t, p, m, ha⟩ | ⟨p, t, rfl⟩ | ⟨t, rfl⟩
    · exact ((sameLocks_of_tries ha).trans h.attempt).trans (sameLocks_of_tries ha).symm
    · exact h.release
    · exact h.releaseAll
  | disown t =>
    simp only [LockManager.take]
    exact ⟨h.table, by simp only [h.held]⟩
  | drop t p => exact h.drop
  | unlink t => exact ⟨h.table, h.held⟩

/-! ## Steps of others -/

theorem pagesOf_take_of_ne (hu : u ≠ s.txn) : (l.take s).pagesOf u = l.pagesOf u := by
  cases s with
  | action a => exact pagesOf_act_of_ne hu
  | disown t => exact pagesOf_erase.trans (if_neg hu)
  | drop t p => rfl
  | unlink t => rfl

theorem modeOf_after_of_ne (h : ∀ p, (l.holders p).Sound) (hs : ∀ s ∈ steps, s.txn ≠ t) :
    (l.after steps).modeOf q t = l.modeOf q t := by
  induction steps generalizing l with
  | nil => rfl
  | cons s rest ih =>
    rw [List.forall_mem_cons] at hs
    exact (ih (holders_take h s) hs.2).trans (modeOf_take_of_ne h (Ne.symm hs.1))

theorem lockedPages_after_of_ne (hs : ∀ s ∈ steps, s.txn ≠ t) :
    (l.after steps).lockedPages t = l.lockedPages t := by
  induction steps generalizing l with
  | nil => rfl
  | cons s rest ih =>
    rw [List.forall_mem_cons] at hs
    refine (ih hs.2).trans ?_
    unfold lockedPages
    rw [pagesOf_take_of_ne (Ne.symm hs.1)]

/-! ## Verdicts -/

/-- What is not granted touches no lock. -/
theorem sameLocks_of_not_granted (h : l.answered a = some (t, p, m, v)) (hv : v ≠ .granted) :
    SameLocks (l.act a) l := by
  refine (sameLocks_of_tries (tries_of_answered h)).trans ?_
  rw [ne_eq, granted_iff_of_answered h] at hv
  rcases attempt_cases l t p m with ⟨_, e⟩ | ⟨_, ⟨_, _, e⟩ | ⟨_, ⟨_, e⟩ | ⟨_, _, e⟩ | ⟨_, _, e⟩⟩⟩ <;>
    rw [e] at hv ⊢
  · exact absurd rfl hv
  · exact absurd rfl hv
  all_goals exact ⟨rfl, rfl⟩

/-! ## Edges -/

/-- Nobody is noted as waiting unless deadlocks are looked for. -/
def Unwatched (l : LockManager) : Prop := l.config.detectDeadlocks = false → l.graph = {}

theorem take_config : (l.take s).config = l.config := by
  cases s with
  | action a => exact act_config a
  | disown t => rfl
  | drop t p => rfl
  | unlink t => rfl

theorem graph_attempt (hd : l.config.detectDeadlocks = false) :
    (l.attempt t p m).1.graph = l.graph := by
  rcases attempt_cases l t p m with
    ⟨_, e⟩ | ⟨_, ⟨_, _, e⟩ | ⟨_, ⟨_, e⟩ | ⟨hd', _, e⟩ | ⟨hd', _, e⟩⟩⟩ <;> rw [e]
  · rw [hd] at hd'
    cases hd'
  · rw [hd] at hd'
    cases hd'

theorem stopWaiting_of_unwatched (hd : l.config.detectDeadlocks = false) :
    l.stopWaiting t = l := by
  unfold stopWaiting
  rw [hd]
  rfl

theorem graph_act (hd : l.config.detectDeadlocks = false) : (l.act a).graph = l.graph := by
  cases a with
  | request t p m =>
    have hattempt := graph_attempt (t := t) (p := p) (m := m) hd
    simp only [act]
    by_cases hv : (l.attempt t p m).2 = .asleep
    · rw [request_of_asleep hv]
      exact hattempt
    · rw [request_of_ne_asleep hv]
      exact hattempt
  | retry s =>
    have hattempt := graph_attempt (t := s.txn) (p := s.page) (m := s.mode) hd
    have hforget : ((l.attempt s.txn s.page s.mode).1.forget s).config.detectDeadlocks = false := by
      simpa [forget] using hd
    simp only [act]
    cases hv : (l.attempt s.txn s.page s.mode).2 with
    | granted =>
      rw [retry_of_granted hv, stopWaiting_of_unwatched hforget]
      exact hattempt
    | asleep =>
      rw [retry_of_asleep hv]
      exact hattempt
    | refused =>
      rw [retry_of_refused hv]
      exact hattempt
  | expire s =>
    have hattempt := graph_attempt (t := s.txn) (p := s.page) (m := s.mode) hd
    have hforget : ((l.attempt s.txn s.page s.mode).1.forget s).config.detectDeadlocks = false := by
      simpa [forget] using hd
    simp only [act]
    by_cases hv : (l.attempt s.txn s.page s.mode).2 = .granted
    · rw [expire_of_granted hv, stopWaiting_of_unwatched hforget]
      exact hattempt
    · rw [expire_of_ne_granted hv, stopWaiting_of_unwatched hforget]
      exact hattempt
  | release p t =>
    rcases release_cases l p t with ⟨_, e⟩ | ⟨_, _, e⟩
    · simp only [act, e]
    · simp only [act, e, hd, Bool.false_eq_true, if_false]
  | releaseAll t =>
    simp only [act, releaseAll_graph, hd, Bool.false_eq_true, if_false]

theorem Unwatched.take (h : l.Unwatched) (s : LockStep) : (l.take s).Unwatched := by
  intro hd
  rw [take_config] at hd
  cases s with
  | action a => exact (graph_act hd).trans (h hd)
  | disown t => exact h hd
  | drop t p => exact h hd
  | unlink t =>
    simp only [LockManager.take, hd]
    exact h hd

theorem unwatched_reached (c : LockConfig) (steps : List LockStep) :
    (reached c steps).Unwatched := by
  suffices hafter : ∀ l : LockManager, l.Unwatched → (l.after steps).Unwatched from
    hafter _ fun _ => rfl
  induction steps with
  | nil => exact fun l h => h
  | cons s rest ih => exact fun l h => ih _ (h.take s)

theorem exists_clearWaits_of_refused (hd : l.config.detectDeadlocks = true)
    (h : l.answered a = some (t, p, m, .refused)) : ∃ g : WaitGraph, (l.act a).graph = g.clearWaits t := by
  have hno := granted_iff_of_answered h
  cases a with
  | request t p m =>
    simp only [answered, Option.some.injEq, Prod.mk.injEq] at h
    obtain ⟨rfl, rfl, rfl, hv⟩ := h
    cases hattempt : (l.attempt t p m).2 with
    | granted => simp [hattempt] at hno
    | asleep =>
      rw [request_of_asleep hattempt] at hv
      cases hv
    | refused =>
      simp only [act]
      rw [request_of_ne_asleep (by simp [hattempt])]
      exact ⟨_, (graph_of_refused hattempt).2.2⟩
  | retry s =>
    simp only [answered, Option.some.injEq, Prod.mk.injEq] at h
    obtain ⟨rfl, rfl, rfl, hv⟩ := h
    cases hattempt : (l.attempt s.txn s.page s.mode).2 with
    | granted => simp [hattempt] at hno
    | asleep =>
      rw [retry_of_asleep hattempt] at hv
      cases hv
    | refused =>
      simp only [act]
      rw [retry_of_refused hattempt]
      exact ⟨_, (graph_of_refused hattempt).2.2⟩
  | expire s =>
    simp only [answered, Option.some.injEq, Prod.mk.injEq] at h
    obtain ⟨rfl, rfl, rfl, -⟩ := h
    simp only [act]
    rw [expire_of_ne_granted fun hv => by simp [hv] at hno]
    exact ⟨_, stopWaiting_graph (by simpa [forget] using hd)⟩
  | release p t => cases h
  | releaseAll t => cases h

/-- Who is refused is left without edges. -/
theorem no_edge_of_refused (hl : l.Unwatched) (h : l.answered a = some (t, p, m, .refused)) :
    ¬ (l.act a).graph.Edge t q u := by
  cases hd : l.config.detectDeadlocks with
  | false =>
    rw [graph_act hd, hl hd]
    exact WaitGraph.not_edge_empty _ _ _
  | true =>
    obtain ⟨g, hg⟩ := exists_clearWaits_of_refused hd h
    rw [hg, WaitGraph.edge_clearWaits]
    simp

/-! ## Calls that are refused -/

/-- A call of `t` for a page that is refused in the end, with steps of others in between. -/
inductive Fails (t : TxnId) (p : PageId) (m : LockMode) : LockManager → List LockStep → Prop where
  | refused {l : LockManager} {a : LockAction} :
      l.answered a = some (t, p, m, .refused) → Fails t p m l [.action a]
  | blocked {l : LockManager} {a : LockAction} {rest : List LockStep} :
      l.answered a = some (t, p, m, .asleep) → Fails t p m (l.act a) rest →
      Fails t p m l (.action a :: rest)
  | other {l : LockManager} {s : LockStep} {rest : List LockStep} :
      s.txn ≠ t → Fails t p m (l.take s) rest → Fails t p m l (s :: rest)

theorem txn_of_answered (h : l.answered a = some (t, p, m, v)) :
    (LockStep.action a).txn = t :=
  LockAction.txn_of_tries (tries_of_answered h)

theorem Fails.sameLocks (h : Fails t p m l call) (hl : SameLocks l l') :
    SameLocks (l.after call) (l'.after (call.filter (·.txn ≠ t))) := by
  induction h generalizing l' with
  | refused ha =>
    have hgone := sameLocks_of_not_granted ha (by simp)
    rw [List.filter_cons_of_neg (by simp [txn_of_answered ha])]
    exact hgone.trans hl
  | blocked ha _ ih =>
    have hgone := sameLocks_of_not_granted ha (by simp)
    rw [List.filter_cons_of_neg (by simp [txn_of_answered ha])]
    exact ih (hgone.trans hl)
  | other hs _ ih =>
    rw [List.filter_cons_of_pos (by simp [hs])]
    exact ih (hl.take _)

theorem Fails.no_edge (h : Fails t p m l call) (hl : l.Unwatched) :
    ¬ (l.after call).graph.Edge t q u := by
  induction h with
  | refused ha => exact no_edge_of_refused hl ha
  | @blocked l a rest _ _ ih => exact ih (hl.take (.action a))
  | @other l s rest _ _ ih => exact ih (hl.take s)

/-- A request is granted just if no other transaction holds the page in an incompatible mode, or the
mode held covers it. A grant raises the mode of its transaction and leaves the other holders, the
other pages and the lists of the others; what is not granted is blocked by another transaction.

A call that is refused in the end leaves the locks as they would be without it, and its transaction
with the locks that it had and with no edges. -/
theorem decisions_and_refusals (c : LockConfig) (steps : List LockStep) :
    (∀ a t p m v, (reached c steps).answered a = some (t, p, m, v) →
      (v = .granted ↔
        (∀ u k, u ≠ t → (reached c steps).modeOf p u = some k → k.compatible m = true) ∨
          ((reached c steps).modeOf p t).any (·.covers m) = true) ∧
      (v = .granted →
        (∀ q u, ((reached c steps).act a).modeOf q u =
          if q = p ∧ u = t then some (raised ((reached c steps).modeOf p t) m)
          else (reached c steps).modeOf q u) ∧
        ∀ u, u ≠ t → ((reached c steps).act a).lockedPages u = (reached c steps).lockedPages u) ∧
      (v ≠ .granted → ∃ u ∈ ((reached c steps).holders p).blockers t, u ≠ t ∧
        ∃ k, (reached c steps).modeOf p u = some k ∧ k.compatible m = false)) ∧
    ∀ t p m call, Fails t p m (reached c steps) call →
      (∀ q u, ((reached c steps).after call).modeOf q u =
        ((reached c steps).after (call.filter (·.txn ≠ t))).modeOf q u) ∧
      (∀ u, ((reached c steps).after call).lockedPages u =
        ((reached c steps).after (call.filter (·.txn ≠ t))).lockedPages u) ∧
      (∀ q, ((reached c steps).after call).modeOf q t = (reached c steps).modeOf q t) ∧
      ((reached c steps).after call).lockedPages t = (reached c steps).lockedPages t ∧
      ∀ q u, ¬ ((reached c steps).after call).graph.Edge t q u := by
  have hsound := holders_reached c steps
  have hwatched := unwatched_reached c steps
  generalize reached c steps = l at hsound hwatched ⊢
  constructor
  · intro a t p m v ha
    have htries := tries_of_answered ha
    have hgranted := granted_iff_of_answered ha
    refine ⟨?_, ?_, ?_⟩
    · rw [hgranted, attempt_granted_iff (hsound p), ← free_iff]
      constructor
      · exact .inl
      · rintro (hfree | hcovers)
        · exact hfree
        · exact (hsound p).free_of_covers hcovers
    · intro hv
      refine ⟨?_, ?_⟩
      · intro q u
        rw [modeOf_act_of_tries htries, modeOf_attempt]
        simp only [hgranted.1 hv, true_and]
      · intro u hu
        unfold lockedPages
        rw [pagesOf_act_of_ne (LockAction.txn_of_tries htries ▸ hu)]
    · intro hv
      rw [ne_eq, hgranted, ← ne_eq, attempt_ne_granted_iff hsound] at hv
      obtain ⟨u, k, hne, hk, hc⟩ := hv
      refine ⟨u, Holders.mem_blockers.2 ⟨hne, ?_⟩, hne, k, hk, hc⟩
      exact Option.isSome_iff_exists.2 ⟨k, hk⟩
  · intro t p m call hcall
    have hsame := hcall.sameLocks ⟨rfl, rfl⟩
    have hothers : ∀ s ∈ call.filter (·.txn ≠ t), s.txn ≠ t := by
      intro s hs
      simpa using (List.mem_filter.1 hs).2
    refine ⟨fun q u => hsame.modeOf, fun u => hsame.lockedPages, fun q => ?_, ?_,
      fun q u => hcall.no_edge hwatched⟩
    · rw [hsame.modeOf, modeOf_after_of_ne hsound hothers]
    · rw [hsame.lockedPages, lockedPages_after_of_ne hothers]

/-- Two transactions share a page. -/
def sharing : List LockStep :=
  [.action (.request ⟨1⟩ ⟨⟨0⟩, 0⟩ .shared), .action (.request ⟨2⟩ ⟨⟨0⟩, 0⟩ .shared)]

/-- Both ask to be raised: the first waits, so the second is refused. A third one shares the page, and
then the first one's time is up. -/
def bothRaise : List LockStep :=
  [.action (.request ⟨1⟩ ⟨⟨0⟩, 0⟩ .exclusive), .action (.request ⟨2⟩ ⟨⟨0⟩, 0⟩ .exclusive),
    .action (.request ⟨3⟩ ⟨⟨0⟩, 0⟩ .shared), .action (.expire ⟨⟨1⟩, ⟨⟨0⟩, 0⟩, .exclusive, false⟩)]

theorem fails_bothRaise : Fails ⟨1⟩ ⟨⟨0⟩, 0⟩ .exclusive (reached {} sharing) bothRaise :=
  .blocked (by decide +kernel) (.other (by decide) (.other (by decide) (.refused (by decide +kernel))))

/-- The first transaction keeps its shared lock and waits for nobody, and the third one has its own. -/
theorem bothRaise_refused :
    (reached {} sharing).answered (.request ⟨1⟩ ⟨⟨0⟩, 0⟩ .exclusive) =
      some (⟨1⟩, ⟨⟨0⟩, 0⟩, .exclusive, .asleep) ∧
    (∃ u ∈ ((reached {} sharing).holders ⟨⟨0⟩, 0⟩).blockers ⟨1⟩, u ≠ ⟨1⟩) ∧
    ((reached {} sharing).after bothRaise).modeOf ⟨⟨0⟩, 0⟩ ⟨1⟩ = some .shared ∧
    ((reached {} sharing).after bothRaise).lockedPages ⟨1⟩ = [⟨⟨0⟩, 0⟩] ∧
    ((reached {} sharing).after bothRaise).modeOf ⟨⟨0⟩, 0⟩ ⟨3⟩ = some .shared ∧
    ∀ q u, ¬ ((reached {} sharing).after bothRaise).graph.Edge ⟨1⟩ q u := by
  have hasleep : (reached {} sharing).answered (.request ⟨1⟩ ⟨⟨0⟩, 0⟩ .exclusive) =
      some (⟨1⟩, ⟨⟨0⟩, 0⟩, .exclusive, .asleep) := by decide +kernel
  obtain ⟨hdecided, hrefused⟩ := decisions_and_refusals {} sharing
  obtain ⟨-, -, hblocked⟩ := hdecided _ _ _ _ _ hasleep
  obtain ⟨u, hu, hne, -⟩ := hblocked (by decide)
  obtain ⟨hmodes, -, hmode, hpages, hedges⟩ := hrefused _ _ _ _ fails_bothRaise
  refine ⟨hasleep, ⟨u, hu, hne⟩, (hmode _).trans (by decide +kernel),
    hpages.trans (by decide +kernel), (hmodes _ _).trans (by decide +kernel), hedges⟩

end LockManager
end PageStore

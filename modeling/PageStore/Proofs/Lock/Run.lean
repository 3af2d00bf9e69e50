import PageStore.Proofs.Lock.Edges
import PageStore.Proofs.Lock.Modes

/-!
# PageStore.Proofs.Lock.Run

Runs of the lock manager: any number of transactions ask for pages, fall asleep, are woken and try
again, run out of time, and give up one page or all of them, in any order. A transaction that is
asleep does nothing else (`Allows`).

`Move` says once what an action can do to what can be seen of a lock manager: the mode of every
transaction on every page, who is asleep for what, and the edges of the wait-for graph.
`move_of_allows` shows that every allowed action is such a move, so what holds in every reachable
state is proved by a case split on moves. `Orderly` is what the case split needs.

The events of a run are kept, the latest first. `joinedSince` asks them whether a transaction came
to hold a page after another one last tried to lock it.
-/

namespace PageStore

open Relation

/-- What is done to a lock manager. -/
inductive LockAction where
  | request (t : TxnId) (p : PageId) (m : LockMode)
  | retry (s : Sleeper)
  | expire (s : Sleeper)
  | release (p : PageId) (t : TxnId)
  | releaseAll (t : TxnId)
  deriving DecidableEq, Repr

/-- The request that an action tries. -/
def LockAction.tries : LockAction → Option (TxnId × PageId × LockMode)
  | .request t p m => some (t, p, m)
  | .retry s => some (s.txn, s.page, s.mode)
  | .expire s => some (s.txn, s.page, s.mode)
  | .release _ _ => none
  | .releaseAll _ => none

/-- An action tries a request, or gives pages up. -/
theorem LockAction.tries_cases (a : LockAction) :
    (∃ t p m, a.tries = some (t, p, m)) ∨ (∃ p t, a = .release p t) ∨ ∃ t, a = .releaseAll t := by
  cases a with
  | request t p m => exact .inl ⟨t, p, m, rfl⟩
  | retry s => exact .inl ⟨s.txn, s.page, s.mode, rfl⟩
  | expire s => exact .inl ⟨s.txn, s.page, s.mode, rfl⟩
  | release p t => exact .inr (.inl ⟨p, t, rfl⟩)
  | releaseAll t => exact .inr (.inr ⟨t, rfl⟩)

/-- What happened. -/
inductive LockEvent where
  /-- A transaction was granted a page that it did not hold. -/
  | joined (t : TxnId) (p : PageId)
  /-- A transaction was granted a page that it held already. -/
  | kept (t : TxnId) (p : PageId)
  /-- An attempt was blocked, and the transaction sleeps. -/
  | blocked (t : TxnId) (p : PageId)
  | refused (t : TxnId) (p : PageId)
  | left (t : TxnId) (p : PageId)
  | ended (t : TxnId)
  deriving DecidableEq, Repr

/-- Whether `u` came to hold `p` after the last attempt of `w` on it. Events are listed from the
latest to the earliest. -/
def joinedSince (w u : TxnId) (p : PageId) : List LockEvent → Prop
  | [] => False
  | e :: earlier => e = .joined u p ∨ (e ≠ .blocked w p ∧ joinedSince w u p earlier)

namespace LockManager

variable {l l' : LockManager} {t u w : TxnId} {p q : PageId} {m k : LockMode} {s : Sleeper}

/-- `t` sleeps for the lock of `p` in mode `m`. -/
def Asleep (l : LockManager) (t : TxnId) (p : PageId) (m : LockMode) : Prop :=
  ∃ s ∈ l.sleepers, s.txn = t ∧ s.page = p ∧ s.mode = m

/-- No request of `t` is asleep. -/
def Awake (l : LockManager) (t : TxnId) : Prop := ∀ s ∈ l.sleepers, s.txn ≠ t

/-- `t` is awake or sleeps for the lock of `p` in mode `m`. -/
def MayTry (l : LockManager) (t : TxnId) (p : PageId) (m : LockMode) : Prop :=
  ∀ q k, l.Asleep t q k → q = p ∧ k = m

/-- A transaction that is asleep may only be woken and try again, or run out of time. -/
def Allows (l : LockManager) : LockAction → Prop
  | .request t _ _ => l.Awake t
  | .retry s => s ∈ l.sleepers ∧ s.woken = true
  | .expire s => s ∈ l.sleepers
  | .release _ t => l.Awake t
  | .releaseAll t => l.Awake t

instance : Decidable (l.Asleep t p m) :=
  inferInstanceAs (Decidable (∃ s ∈ l.sleepers, s.txn = t ∧ s.page = p ∧ s.mode = m))

instance : Decidable (l.Awake t) := inferInstanceAs (Decidable (∀ s ∈ l.sleepers, s.txn ≠ t))

instance : (a : LockAction) → Decidable (l.Allows a)
  | .request t _ _ => inferInstanceAs (Decidable (l.Awake t))
  | .retry s => inferInstanceAs (Decidable (s ∈ l.sleepers ∧ s.woken = true))
  | .expire s => inferInstanceAs (Decidable (s ∈ l.sleepers))
  | .release _ t => inferInstanceAs (Decidable (l.Awake t))
  | .releaseAll t => inferInstanceAs (Decidable (l.Awake t))

def act (l : LockManager) : LockAction → LockManager
  | .request t p m => (l.request t p m).1
  | .retry s => (l.retry s).1
  | .expire s => (l.expire s).1
  | .release p t => (l.release p t).1
  | .releaseAll t => l.releaseAll t

/-- What an attempt comes to. -/
def tried (l : LockManager) (t : TxnId) (p : PageId) : Verdict → LockEvent
  | .granted => if (l.modeOf p t).isSome then .kept t p else .joined t p
  | .asleep => .blocked t p
  | .refused => .refused t p

def event (l : LockManager) : LockAction → LockEvent
  | .request t p m => l.tried t p (l.request t p m).2
  | .retry s => l.tried s.txn s.page (l.retry s).2
  | .expire s => l.tried s.txn s.page (l.expire s).2
  | .release p t => .left t p
  | .releaseAll t => .ended t

/-- The lock managers reached from one without locks, with the events on the way. -/
inductive Run (c : LockConfig) : List LockEvent → LockManager → Prop where
  | start : Run c [] { config := c }
  | act {es : List LockEvent} {l : LockManager} (a : LockAction) :
      Run c es l → l.Allows a → Run c (l.event a :: es) (l.act a)

/-- What a request of `t` can come to, whether it is new, tries again, or runs out of time. The graph
is kept only if deadlocks are looked for. -/
inductive Tried (l l' : LockManager) (t : TxnId) (p : PageId) (m : LockMode) : Verdict → Prop where
  | granted :
      l.MayTry t p m → l.Free p t m →
      (∀ q u, l'.modeOf q u =
        if q = p ∧ u = t then some (raised (l.modeOf p t) m) else l.modeOf q u) →
      (∀ u q k, l'.Asleep u q k ↔ l.Asleep u q k ∧ u ≠ t) →
      (l.config.detectDeadlocks = true →
        ∀ u q h, l'.graph.Edge u q h ↔ l.graph.Edge u q h ∧ u ≠ t) →
      Tried l l' t p m .granted
  | asleep :
      l.MayTry t p m → ¬ l.Free p t m →
      (∀ q u, l'.modeOf q u = l.modeOf q u) →
      (∀ u q k, l'.Asleep u q k ↔ (u = t ∧ q = p ∧ k = m) ∨ (u ≠ t ∧ l.Asleep u q k)) →
      (l.config.detectDeadlocks = true → ¬ TransGen l'.graph.Waits t t ∧
        ∀ u q h, l'.graph.Edge u q h ↔
          (u = t ∧ q = p ∧ h ≠ t ∧ (l.modeOf p h).isSome) ∨ (u ≠ t ∧ l.graph.Edge u q h)) →
      Tried l l' t p m .asleep
  | refused :
      l.MayTry t p m → ¬ l.Free p t m →
      (∀ q u, l'.modeOf q u = l.modeOf q u) →
      (∀ u q k, l'.Asleep u q k ↔ l.Asleep u q k ∧ u ≠ t) →
      (l.config.detectDeadlocks = true →
        ∀ u q h, l'.graph.Edge u q h ↔ l.graph.Edge u q h ∧ u ≠ t) →
      Tried l l' t p m .refused

/-- What an action can do. -/
inductive Move (l l' : LockManager) : LockEvent → Prop where
  | tried {t : TxnId} {p : PageId} {m : LockMode} {v : Verdict} :
      Tried l l' t p m v → Move l l' (l.tried t p v)
  | left {t : TxnId} {p : PageId} :
      l.Awake t →
      (∀ q u, l'.modeOf q u = if q = p ∧ u = t then none else l.modeOf q u) →
      (∀ u q k, l'.Asleep u q k ↔ l.Asleep u q k) →
      (l.config.detectDeadlocks = true →
        ∀ u q h, l'.graph.Edge u q h ↔ l.graph.Edge u q h ∧ ¬ (q = p ∧ h = t)) →
      Move l l' (.left t p)
  | ended {t : TxnId} :
      l.Awake t →
      (∀ q u, l'.modeOf q u = if u = t then none else l.modeOf q u) →
      (∀ u q k, l'.Asleep u q k ↔ l.Asleep u q k) →
      (l.config.detectDeadlocks = true →
        ∀ u q h, l'.graph.Edge u q h ↔ l.graph.Edge u q h ∧ u ≠ t ∧ h ≠ t) →
      Move l l' (.ended t)

/-- Sound holders, one request asleep per transaction, and edges from none but these, each to a
holder of the page that is waited for. -/
structure Orderly (l : LockManager) : Prop where
  sound : l.Sound
  once : (l.sleepers.map (·.txn)).Nodup
  edges : l.config.detectDeadlocks = true →
    ∀ w p h, l.graph.Edge w p h → (∃ m, l.Asleep w p m) ∧ h ≠ w ∧ (l.modeOf p h).isSome

/-! ## Who sleeps -/

/-- Who waits for what, in whatever state of waking. -/
def wants (ss : List Sleeper) : List (TxnId × PageId × LockMode) :=
  ss.map fun s => (s.txn, s.page, s.mode)

theorem asleep_iff : l.Asleep t p m ↔ (t, p, m) ∈ wants l.sleepers := by
  unfold Asleep wants
  rw [List.mem_map]
  constructor
  · rintro ⟨s, hs, rfl, rfl, rfl⟩
    exact ⟨s, hs, rfl⟩
  · rintro ⟨s, hs, he⟩
    injection he with h₁ he
    injection he with h₂ h₃
    exact ⟨s, hs, h₁, h₂, h₃⟩

theorem txns_eq_wants (ss : List Sleeper) : ss.map (·.txn) = (wants ss).map (·.1) := by
  unfold wants
  rw [List.map_map]
  rfl

theorem asleep_of_mem (hs : s ∈ l.sleepers) : l.Asleep s.txn s.page s.mode :=
  ⟨s, hs, rfl, rfl, rfl⟩

theorem Awake.not_asleep (h : l.Awake t) : ¬ l.Asleep t p m := by
  rintro ⟨s, hs, ht, _, _⟩
  exact h s hs ht

theorem Awake.mayTry (h : l.Awake t) : l.MayTry t p m :=
  fun _ _ ha => absurd ha h.not_asleep

theorem eq_of_asleep (h : (l.sleepers.map (·.txn)).Nodup) (hs : s ∈ l.sleepers)
    (ha : l.Asleep s.txn p m) : p = s.page ∧ m = s.mode := by
  obtain ⟨s', hs', ht, rfl, rfl⟩ := ha
  have := List.inj_on_of_nodup_map h hs' hs ht
  rw [this]
  exact ⟨rfl, rfl⟩

theorem mayTry_of_mem (h : (l.sleepers.map (·.txn)).Nodup) (hs : s ∈ l.sleepers) :
    l.MayTry s.txn s.page s.mode :=
  fun _ _ ha => eq_of_asleep h hs ha

theorem mem_wants_erase {ss : List Sleeper} (h : (ss.map (·.txn)).Nodup) (hs : s ∈ ss) :
    (u, q, k) ∈ wants (ss.erase s) ↔ (u, q, k) ∈ wants ss ∧ u ≠ s.txn := by
  unfold wants
  rw [List.mem_map, List.mem_map]
  constructor
  · rintro ⟨x, hx, he⟩
    obtain ⟨hne, hin⟩ := (List.Nodup.of_map _ h).mem_erase_iff.1 hx
    injection he with hu he
    refine ⟨⟨x, hin, by rw [hu, he]⟩, fun hus => hne ?_⟩
    exact List.inj_on_of_nodup_map h hin hs (by rw [hu, hus])
  · rintro ⟨⟨x, hx, he⟩, hne⟩
    injection he with hu he
    refine ⟨x, (List.Nodup.of_map _ h).mem_erase_iff.2 ⟨fun hxs => hne ?_, hx⟩, by rw [hu, he]⟩
    rw [← hu, hxs]

theorem wants_replace (ss : List Sleeper) (s : Sleeper) (b : Bool) :
    wants (ss.replace s { s with woken := b }) = wants ss := by
  induction ss with
  | nil => rfl
  | cons x rest ih =>
    rw [List.replace_cons]
    cases hx : s == x with
    | true =>
      rw [eq_of_beq hx]
      rfl
    | false =>
      unfold wants at ih ⊢
      dsimp only
      rw [List.map_cons, List.map_cons, ih]

theorem wants_wake (ss : List Sleeper) (c : Sleeper → Prop) [DecidablePred c] :
    wants (ss.map fun s => if c s then { s with woken := true } else s) = wants ss := by
  unfold wants
  rw [List.map_map]
  refine List.map_congr_left fun s _ => ?_
  dsimp only [Function.comp]
  split <;> rfl

/-! ## What an attempt does to the graph -/

/-- The graph with the holders of a page noted as those that `t` waits for. -/
def noted (l : LockManager) (t : TxnId) (p : PageId) : WaitGraph :=
  l.graph.setWaits t p ((l.holders p).blockers t)

theorem edge_noted {x h : TxnId} :
    (l.noted t p).Edge x q h ↔
      (x = t ∧ q = p ∧ h ≠ t ∧ (l.modeOf p h).isSome) ∨ (x ≠ t ∧ l.graph.Edge x q h) := by
  unfold noted
  rw [WaitGraph.edge_setWaits]
  have hb : (h ∈ (l.holders p).blockers t ∧ h ≠ t) ↔ (h ≠ t ∧ (l.modeOf p h).isSome) := by
    rw [Holders.mem_blockers]
    constructor
    · rintro ⟨⟨hne, hm⟩, _⟩
      exact ⟨hne, hm⟩
    · rintro ⟨hne, hm⟩
      exact ⟨⟨hne, hm⟩, hne⟩
  rw [hb]

theorem graph_of_granted (h : (l.attempt t p m).2 = .granted) :
    (l.attempt t p m).1.graph = l.graph := by
  rcases attempt_cases l t p m with ⟨_, e⟩ | ⟨_, ⟨_, _, e⟩ | ⟨_, ⟨_, e⟩ | ⟨_, _, e⟩ | ⟨_, _, e⟩⟩⟩ <;>
    rw [e] at h ⊢ <;> cases h

/-- A blocked attempt that is not refused has found no cycle in the graph it leaves. -/
theorem graph_of_asleep (h : (l.attempt t p m).2 = .asleep) (hd : l.config.detectDeadlocks = true) :
    (l.attempt t p m).1.graph = l.noted t p ∧ ¬ TransGen (l.noted t p).Waits t t := by
  rcases attempt_cases l t p m with
    ⟨_, e⟩ | ⟨_, ⟨_, _, e⟩ | ⟨_, ⟨hno, e⟩ | ⟨_, _, e⟩ | ⟨_, hc, e⟩⟩⟩ <;> rw [e] at h ⊢
  · cases h
  · cases h
  · rw [hd] at hno
    cases hno
  · cases h
  · refine ⟨rfl, ?_⟩
    rw [← WaitGraph.hasCycleThrough_iff]
    unfold noted
    rw [hc]
    exact Bool.false_ne_true

/-- A refused attempt has found a cycle, and leaves its transaction without edges. -/
theorem graph_of_refused (h : (l.attempt t p m).2 = .refused) :
    l.config.detectDeadlocks = true ∧ TransGen (l.noted t p).Waits t t ∧
      (l.attempt t p m).1.graph = (l.noted t p).clearWaits t := by
  rcases attempt_cases l t p m with
    ⟨_, e⟩ | ⟨_, ⟨_, _, e⟩ | ⟨_, ⟨_, e⟩ | ⟨hd, hc, e⟩ | ⟨_, _, e⟩⟩⟩ <;> rw [e] at h ⊢ <;> cases h
  exact ⟨hd, WaitGraph.hasCycleThrough_iff.1 hc, rfl⟩

theorem edge_clear_noted {x h : TxnId} :
    ((l.noted t p).clearWaits t).Edge x q h ↔ l.graph.Edge x q h ∧ x ≠ t := by
  rw [WaitGraph.edge_clearWaits, edge_noted]
  constructor
  · rintro ⟨hx, ⟨rfl, _⟩ | ⟨_, he⟩⟩
    · exact absurd rfl hx
    · exact ⟨he, hx⟩
  · rintro ⟨he, hx⟩
    exact ⟨hx, .inr ⟨hx, he⟩⟩

theorem stopWaiting_graph (hd : l.config.detectDeadlocks = true) :
    (l.stopWaiting t).graph = l.graph.clearWaits t := by
  unfold stopWaiting
  rw [if_pos hd]

@[simp] theorem stopWaiting_modeOf : (l.stopWaiting t).modeOf q u = l.modeOf q u := by
  unfold stopWaiting
  split <;> rfl

@[simp] theorem stopWaiting_sleepers : (l.stopWaiting t).sleepers = l.sleepers := by
  unfold stopWaiting
  split <;> rfl

/-! ## Every action is a move -/

theorem not_free_of_ne_granted (h : l.Sound) (hv : (l.attempt t p m).2 ≠ .granted) :
    ¬ l.Free p t m :=
  fun hf => hv (h.attempt_granted_iff.2 hf)

theorem modeOf_of_ne_granted (hv : (l.attempt t p m).2 ≠ .granted) :
    (l.attempt t p m).1.modeOf q u = l.modeOf q u := by
  rw [modeOf_attempt, if_neg fun hc => hv hc.1]

theorem asleep_congr (h : wants l'.sleepers = wants l.sleepers) :
    l'.Asleep u q k ↔ l.Asleep u q k := by
  rw [asleep_iff, asleep_iff, h]

theorem asleep_forget (h : (l.sleepers.map (·.txn)).Nodup) (hs : s ∈ l.sleepers)
    (he : l'.sleepers = l.sleepers.erase s) :
    l'.Asleep u q k ↔ l.Asleep u q k ∧ u ≠ s.txn := by
  rw [asleep_iff, asleep_iff, he]
  exact mem_wants_erase h hs

theorem Awake.asleep_iff_and (h : l.Awake t) : l.Asleep u q k ↔ l.Asleep u q k ∧ u ≠ t := by
  refine ⟨fun ha => ⟨ha, ?_⟩, And.left⟩
  rintro rfl
  exact h.not_asleep ha

theorem Orderly.edge_iff_and (h : l.Orderly) (hd : l.config.detectDeadlocks = true)
    (ha : l.Awake t) {x : TxnId} : l.graph.Edge u q x ↔ l.graph.Edge u q x ∧ u ≠ t := by
  refine ⟨fun he => ⟨he, ?_⟩, And.left⟩
  rintro rfl
  obtain ⟨⟨k, hk⟩, _⟩ := h.edges hd _ _ _ he
  exact ha.not_asleep hk

theorem Orderly.tried_granted (h : l.Orderly) (hmay : l.MayTry t p m)
    (hv : (l.attempt t p m).2 = .granted)
    (hm : ∀ q u, l'.modeOf q u = (l.attempt t p m).1.modeOf q u)
    (hs : ∀ u q k, l'.Asleep u q k ↔ l.Asleep u q k ∧ u ≠ t)
    (hg : l.config.detectDeadlocks = true →
      ∀ u q x, l'.graph.Edge u q x ↔ l.graph.Edge u q x ∧ u ≠ t) :
    Tried l l' t p m .granted := by
  refine .granted hmay (h.sound.attempt_granted_iff.1 hv) (fun q u => ?_) hs hg
  rw [hm, modeOf_attempt]
  simp only [hv, true_and]

theorem Orderly.tried_asleep (h : l.Orderly) (hmay : l.MayTry t p m)
    (hv : (l.attempt t p m).2 = .asleep)
    (hm : ∀ q u, l'.modeOf q u = (l.attempt t p m).1.modeOf q u)
    (hs : ∀ u q k, l'.Asleep u q k ↔ (u = t ∧ q = p ∧ k = m) ∨ (u ≠ t ∧ l.Asleep u q k))
    (hg : l'.graph = (l.attempt t p m).1.graph) : Tried l l' t p m .asleep := by
  have hne : (l.attempt t p m).2 ≠ .granted := by simp [hv]
  refine .asleep hmay (not_free_of_ne_granted h.sound hne) (fun q u => ?_) hs fun hd => ?_
  · rw [hm, modeOf_of_ne_granted hne]
  · obtain ⟨he, hno⟩ := graph_of_asleep hv hd
    rw [hg, he]
    exact ⟨hno, fun u q x => edge_noted⟩

theorem Orderly.tried_refused (h : l.Orderly) (hmay : l.MayTry t p m)
    (hv : (l.attempt t p m).2 ≠ .granted)
    (hm : ∀ q u, l'.modeOf q u = (l.attempt t p m).1.modeOf q u)
    (hs : ∀ u q k, l'.Asleep u q k ↔ l.Asleep u q k ∧ u ≠ t)
    (hg : l.config.detectDeadlocks = true →
      ∀ u q x, l'.graph.Edge u q x ↔ ((l.noted t p).clearWaits t).Edge u q x) :
    Tried l l' t p m .refused := by
  refine .refused hmay (not_free_of_ne_granted h.sound hv) (fun q u => ?_) hs
    fun hd u q x => (hg hd u q x).trans edge_clear_noted
  rw [hm, modeOf_of_ne_granted hv]

theorem request_of_asleep (hv : (l.attempt t p m).2 = .asleep) :
    l.request t p m =
      ({ (l.attempt t p m).1 with sleepers := l.sleepers ++ [⟨t, p, m, false⟩] }, .asleep) := by
  have hs := attempt_sleepers (l := l) (t := t) (p := p) (m := m)
  unfold request
  generalize l.attempt t p m = r at hv hs ⊢
  obtain ⟨l', v⟩ := r
  cases hv
  dsimp only at hs ⊢
  rw [hs]

theorem request_of_ne_asleep (hv : (l.attempt t p m).2 ≠ .asleep) :
    l.request t p m = l.attempt t p m := by
  unfold request
  generalize l.attempt t p m = r at hv ⊢
  obtain ⟨l', v⟩ := r
  cases v with
  | granted => rfl
  | asleep => exact absurd rfl hv
  | refused => rfl

theorem tried_request (h : l.Orderly) (ha : l.Awake t) :
    Tried l (l.request t p m).1 t p m (l.request t p m).2 := by
  have hs := attempt_sleepers (l := l) (t := t) (p := p) (m := m)
  have hstill : ∀ u q k, (l.attempt t p m).1.Asleep u q k ↔ l.Asleep u q k ∧ u ≠ t := by
    intro u q k
    rw [asleep_congr (congrArg wants hs)]
    exact ha.asleep_iff_and
  cases hv : (l.attempt t p m).2 with
  | granted =>
    rw [request_of_ne_asleep (by simp [hv]), hv]
    refine h.tried_granted ha.mayTry hv (fun _ _ => rfl) hstill fun hd u q x => ?_
    rw [graph_of_granted hv]
    exact h.edge_iff_and hd ha
  | asleep =>
    rw [request_of_asleep hv]
    refine h.tried_asleep ha.mayTry hv (fun _ _ => rfl) (fun u q k => ?_) rfl
    rw [asleep_iff]
    unfold wants
    rw [List.map_append, List.mem_append, List.map_singleton, List.mem_singleton]
    change (u, q, k) ∈ wants l.sleepers ∨ (u, q, k) = (t, p, m) ↔ _
    have hne := ha.asleep_iff_and (u := u) (q := q) (k := k)
    rw [← asleep_iff, Prod.mk.injEq, Prod.mk.injEq, or_comm]
    exact or_congr_right (hne.trans And.comm)
  | refused =>
    rw [request_of_ne_asleep (by simp [hv]), hv]
    exact h.tried_refused ha.mayTry (by simp [hv]) (fun _ _ => rfl) hstill
      fun _ _ _ _ => by rw [(graph_of_refused hv).2.2]

theorem retry_of_granted (hv : (l.attempt s.txn s.page s.mode).2 = .granted) :
    l.retry s = ((((l.attempt s.txn s.page s.mode).1.forget s).stopWaiting s.txn), .granted) := by
  unfold retry
  generalize l.attempt s.txn s.page s.mode = r at hv ⊢
  obtain ⟨l', v⟩ := r
  cases hv
  rfl

theorem retry_of_asleep (hv : (l.attempt s.txn s.page s.mode).2 = .asleep) :
    l.retry s =
      ({ (l.attempt s.txn s.page s.mode).1 with
          sleepers := l.sleepers.replace s { s with woken := false } }, .asleep) := by
  have hs := attempt_sleepers (l := l) (t := s.txn) (p := s.page) (m := s.mode)
  unfold retry
  generalize l.attempt s.txn s.page s.mode = r at hv hs ⊢
  obtain ⟨l', v⟩ := r
  cases hv
  dsimp only at hs ⊢
  rw [hs]

theorem retry_of_refused (hv : (l.attempt s.txn s.page s.mode).2 = .refused) :
    l.retry s = ((l.attempt s.txn s.page s.mode).1.forget s, .refused) := by
  unfold retry
  generalize l.attempt s.txn s.page s.mode = r at hv ⊢
  obtain ⟨l', v⟩ := r
  cases hv
  rfl

theorem expire_of_granted (hv : (l.attempt s.txn s.page s.mode).2 = .granted) :
    l.expire s = ((((l.attempt s.txn s.page s.mode).1.forget s).stopWaiting s.txn), .granted) := by
  unfold expire
  generalize l.attempt s.txn s.page s.mode = r at hv ⊢
  obtain ⟨l', v⟩ := r
  cases hv
  rfl

theorem expire_of_ne_granted (hv : (l.attempt s.txn s.page s.mode).2 ≠ .granted) :
    l.expire s = ((((l.attempt s.txn s.page s.mode).1.forget s).stopWaiting s.txn), .refused) := by
  unfold expire
  generalize l.attempt s.txn s.page s.mode = r at hv ⊢
  obtain ⟨l', v⟩ := r
  cases v with
  | granted => exact absurd rfl hv
  | asleep => rfl
  | refused => rfl

theorem asleep_attempt_forget (h : l.Orderly) (hin : s ∈ l.sleepers) :
    ((l.attempt s.txn s.page s.mode).1.forget s).Asleep u q k ↔ l.Asleep u q k ∧ u ≠ s.txn := by
  refine asleep_forget h.once hin ?_
  unfold forget
  rw [attempt_sleepers]

theorem tried_wake (h : l.Orderly) (hin : s ∈ l.sleepers)
    (hv : (l.attempt s.txn s.page s.mode).2 = .granted) :
    Tried l (((l.attempt s.txn s.page s.mode).1.forget s).stopWaiting s.txn) s.txn s.page s.mode
      .granted := by
  refine h.tried_granted (mayTry_of_mem h.once hin) hv (fun q u => stopWaiting_modeOf)
    (fun u q k => ?_) fun hd u q x => ?_
  · rw [asleep_congr (congrArg wants stopWaiting_sleepers)]
    exact asleep_attempt_forget h hin
  · rw [stopWaiting_graph (by simpa [forget] using hd), WaitGraph.edge_clearWaits]
    change u ≠ s.txn ∧ (l.attempt s.txn s.page s.mode).1.graph.Edge u q x ↔ _
    rw [graph_of_granted hv]
    exact And.comm

theorem tried_retry (h : l.Orderly) (hin : s ∈ l.sleepers) :
    Tried l (l.retry s).1 s.txn s.page s.mode (l.retry s).2 := by
  have hmay := mayTry_of_mem h.once hin
  cases hv : (l.attempt s.txn s.page s.mode).2 with
  | granted =>
    rw [retry_of_granted hv]
    exact tried_wake h hin hv
  | asleep =>
    rw [retry_of_asleep hv]
    refine h.tried_asleep hmay hv (fun _ _ => rfl) (fun u q k => ?_) rfl
    rw [asleep_congr (l := l) (wants_replace _ _ _)]
    refine ⟨fun ha => ?_, ?_⟩
    · by_cases hu : u = s.txn
      · subst hu
        obtain ⟨rfl, rfl⟩ := eq_of_asleep h.once hin ha
        exact .inl ⟨rfl, rfl, rfl⟩
      · exact .inr ⟨hu, ha⟩
    · rintro (⟨rfl, rfl, rfl⟩ | ⟨_, ha⟩)
      · exact asleep_of_mem hin
      · exact ha
  | refused =>
    rw [retry_of_refused hv]
    refine h.tried_refused hmay (by simp [hv]) (fun _ _ => rfl)
      (fun _ _ _ => asleep_attempt_forget h hin) fun _ u q x => ?_
    change (l.attempt s.txn s.page s.mode).1.graph.Edge u q x ↔ _
    rw [(graph_of_refused hv).2.2]

theorem tried_expire (h : l.Orderly) (hin : s ∈ l.sleepers) :
    Tried l (l.expire s).1 s.txn s.page s.mode (l.expire s).2 := by
  by_cases hv : (l.attempt s.txn s.page s.mode).2 = .granted
  · rw [expire_of_granted hv]
    exact tried_wake h hin hv
  · rw [expire_of_ne_granted hv]
    refine h.tried_refused (mayTry_of_mem h.once hin) hv (fun q u => stopWaiting_modeOf)
      (fun u q k => ?_) fun hd u q x => ?_
    · rw [asleep_congr (congrArg wants stopWaiting_sleepers)]
      exact asleep_attempt_forget h hin
    · rw [stopWaiting_graph (by simpa [forget] using hd)]
      change ((l.attempt s.txn s.page s.mode).1.graph.clearWaits s.txn).Edge u q x ↔ _
      cases hv' : (l.attempt s.txn s.page s.mode).2 with
      | granted => exact absurd hv' hv
      | asleep => rw [(graph_of_asleep hv' hd).1]
      | refused =>
        rw [(graph_of_refused hv').2.2, WaitGraph.edge_clearWaits]
        refine ⟨And.right, fun he => ⟨?_, he⟩⟩
        exact (WaitGraph.edge_clearWaits.1 he).1

theorem asleep_release : (l.release p t).1.Asleep u q k ↔ l.Asleep u q k := by
  rcases release_cases l p t with ⟨_, e⟩ | ⟨_, _, e⟩ <;> rw [e]
  exact asleep_congr (wants_wake _ fun s => s.page = p)

theorem move_release (h : l.Orderly) (ha : l.Awake t) : Move l (l.release p t).1 (.left t p) := by
  have hmode := fun q u => h.sound.modeOf_release (t := t) (p := p) (q := q) (u := u)
  refine .left ha hmode (fun u q k => asleep_release) fun hd u q x => ?_
  rcases release_cases l p t with ⟨hn, e⟩ | ⟨_, _, e⟩ <;> rw [e]
  · refine ⟨fun he => ⟨he, ?_⟩, And.left⟩
    rintro ⟨rfl, rfl⟩
    have := (h.edges hd _ _ _ he).2.2
    rw [hn] at this
    cases this
  · dsimp only
    rw [if_pos hd]
    exact WaitGraph.edge_releasePage

theorem asleep_releaseAll : (l.releaseAll t).Asleep u q k ↔ l.Asleep u q k := by
  refine asleep_congr ?_
  rw [releaseAll_sleepers]
  exact wants_wake _ _

theorem move_releaseAll (h : l.Orderly) (ha : l.Awake t) : Move l (l.releaseAll t) (.ended t) := by
  refine .ended ha (fun q u => h.sound.modeOf_releaseAll) (fun u q k => asleep_releaseAll)
    fun hd u q x => ?_
  rw [releaseAll_graph, if_pos hd]
  exact WaitGraph.edge_removeTransaction

theorem move_of_allows {a : LockAction} (h : l.Orderly) (ha : l.Allows a) :
    Move l (l.act a) (l.event a) := by
  cases a with
  | request t p m => exact .tried (tried_request h ha)
  | retry s => exact .tried (tried_retry h ha.1)
  | expire s => exact .tried (tried_expire h ha)
  | release p t => exact move_release h ha
  | releaseAll t => exact move_releaseAll h ha

/-! ## Runs -/

theorem Sound.congr (h : l.Sound) (ht : l'.table = l.table) (hh : l'.held = l.held) :
    l'.Sound := by
  refine ⟨fun p => ?_, fun t p => ?_⟩
  · unfold LockManager.holders
    rw [ht]
    exact h.holders p
  · unfold pagesOf modeOf LockManager.holders
    rw [ht, hh]
    exact h.indexed t p

@[simp] theorem stopWaiting_config : (l.stopWaiting t).config = l.config := by
  unfold stopWaiting
  split <;> rfl

theorem stopWaiting_locks : (l.stopWaiting t).table = l.table ∧ (l.stopWaiting t).held = l.held := by
  unfold stopWaiting
  split <;> exact ⟨rfl, rfl⟩

/-- Whatever becomes of a request besides, the locks are those that the attempt leaves. -/
theorem locks_of_tries {a : LockAction} (ha : a.tries = some (t, p, m)) :
    (l.act a).table = (l.attempt t p m).1.table ∧ (l.act a).held = (l.attempt t p m).1.held := by
  cases a with
  | request t p m =>
    cases ha
    simp only [act]
    by_cases hv : (l.attempt t p m).2 = .asleep
    · rw [request_of_asleep hv]
      exact ⟨rfl, rfl⟩
    · rw [request_of_ne_asleep hv]
      exact ⟨rfl, rfl⟩
  | retry s =>
    cases ha
    simp only [act]
    cases hv : (l.attempt s.txn s.page s.mode).2 with
    | granted =>
      rw [retry_of_granted hv]
      exact stopWaiting_locks
    | asleep =>
      rw [retry_of_asleep hv]
      exact ⟨rfl, rfl⟩
    | refused =>
      rw [retry_of_refused hv]
      exact ⟨rfl, rfl⟩
  | expire s =>
    cases ha
    simp only [act]
    by_cases hv : (l.attempt s.txn s.page s.mode).2 = .granted
    · rw [expire_of_granted hv]
      exact stopWaiting_locks
    · rw [expire_of_ne_granted hv]
      exact stopWaiting_locks
  | release p t => cases ha
  | releaseAll t => cases ha

theorem Sound.act (h : l.Sound) (a : LockAction) : (l.act a).Sound := by
  rcases a.tries_cases with ⟨t, p, m, ha⟩ | ⟨p, t, rfl⟩ | ⟨t, rfl⟩
  · obtain ⟨htable, hheld⟩ := locks_of_tries (l := l) ha
    exact h.attempt.congr htable hheld
  · exact h.release
  · exact h.releaseAll

theorem orderly_start (c : LockConfig) : Orderly { config := c } where
  sound := sound_start c
  once := List.nodup_nil
  edges _ _ _ _ he := absurd he (WaitGraph.not_edge_empty _ _ _)

theorem once_forget (h : (l.sleepers.map (·.txn)).Nodup) :
    (((l.attempt t p m).1.forget s).sleepers.map (·.txn)).Nodup := by
  unfold forget
  rw [attempt_sleepers]
  exact h.sublist (List.erase_sublist.map _)

theorem once_act {a : LockAction} (h : (l.sleepers.map (·.txn)).Nodup) (ha : l.Allows a) :
    ((l.act a).sleepers.map (·.txn)).Nodup := by
  cases a with
  | request t p m =>
    simp only [act]
    by_cases hv : (l.attempt t p m).2 = .asleep
    · rw [request_of_asleep hv]
      dsimp only
      rw [List.map_append, List.nodup_append]
      refine ⟨h, List.nodup_singleton _, fun u hu w hw e => ?_⟩
      obtain ⟨s, hs, rfl⟩ := List.mem_map.1 hu
      rw [List.map_singleton, List.mem_singleton] at hw
      exact ha s hs (e.trans hw)
    · rw [request_of_ne_asleep hv, attempt_sleepers]
      exact h
  | retry s =>
    simp only [act]
    cases hv : (l.attempt s.txn s.page s.mode).2 with
    | granted =>
      rw [retry_of_granted hv, stopWaiting_sleepers]
      exact once_forget h
    | asleep =>
      rw [retry_of_asleep hv]
      dsimp only
      rw [txns_eq_wants, wants_replace, ← txns_eq_wants]
      exact h
    | refused =>
      rw [retry_of_refused hv]
      exact once_forget h
  | expire s =>
    simp only [act]
    by_cases hv : (l.attempt s.txn s.page s.mode).2 = .granted
    · rw [expire_of_granted hv, stopWaiting_sleepers]
      exact once_forget h
    · rw [expire_of_ne_granted hv, stopWaiting_sleepers]
      exact once_forget h
  | release p t =>
    simp only [act]
    rcases release_cases l p t with ⟨_, e⟩ | ⟨_, _, e⟩ <;> rw [e]
    · exact h
    · dsimp only
      rw [txns_eq_wants]
      have := wants_wake l.sleepers fun s => s.page = p
      unfold wakeOn
      rw [this, ← txns_eq_wants]
      exact h
  | releaseAll t =>
    simp only [act]
    rw [releaseAll_sleepers, txns_eq_wants, wants_wake, ← txns_eq_wants]
    exact h

@[simp] theorem act_config (a : LockAction) : (l.act a).config = l.config := by
  cases a with
  | request t p m =>
    simp only [act]
    by_cases hv : (l.attempt t p m).2 = .asleep
    · rw [request_of_asleep hv]
      exact attempt_config
    · rw [request_of_ne_asleep hv]
      exact attempt_config
  | retry s =>
    simp only [act]
    cases hv : (l.attempt s.txn s.page s.mode).2 with
    | granted =>
      rw [retry_of_granted hv, stopWaiting_config]
      exact attempt_config
    | asleep =>
      rw [retry_of_asleep hv]
      exact attempt_config
    | refused =>
      rw [retry_of_refused hv]
      exact attempt_config
  | expire s =>
    simp only [act]
    by_cases hv : (l.attempt s.txn s.page s.mode).2 = .granted
    · rw [expire_of_granted hv, stopWaiting_config]
      exact attempt_config
    · rw [expire_of_ne_granted hv, stopWaiting_config]
      exact attempt_config
  | release p t =>
    simp only [act]
    rcases release_cases l p t with ⟨_, e⟩ | ⟨_, _, e⟩ <;> rw [e]
  | releaseAll t => exact releaseAll_config

theorem Move.edges {e : LockEvent} (hmv : Move l l' e) (hd : l.config.detectDeadlocks = true)
    (h : ∀ w p x, l.graph.Edge w p x →
      (∃ m, l.Asleep w p m) ∧ x ≠ w ∧ (l.modeOf p x).isSome) :
    ∀ w p x, l'.graph.Edge w p x → (∃ m, l'.Asleep w p m) ∧ x ≠ w ∧ (l'.modeOf p x).isSome := by
  intro w q x he
  cases hmv with
  | @tried t p m v htried =>
    cases htried with
    | granted _ _ hm hs hg =>
      obtain ⟨hold, hw⟩ := (hg hd _ _ _).1 he
      obtain ⟨⟨k, hk⟩, hne, hx⟩ := h _ _ _ hold
      refine ⟨⟨k, (hs _ _ _).2 ⟨hk, hw⟩⟩, hne, ?_⟩
      rw [hm]
      split
      · rfl
      · exact hx
    | asleep _ _ hm hs hg =>
      rcases ((hg hd).2 _ _ _).1 he with ⟨rfl, rfl, hne, hx⟩ | ⟨hw, hold⟩
      · refine ⟨⟨m, (hs _ _ _).2 (.inl ⟨rfl, rfl, rfl⟩)⟩, hne, ?_⟩
        rw [hm]
        exact hx
      · obtain ⟨⟨k, hk⟩, hne, hx⟩ := h _ _ _ hold
        refine ⟨⟨k, (hs _ _ _).2 (.inr ⟨hw, hk⟩)⟩, hne, ?_⟩
        rw [hm]
        exact hx
    | refused _ _ hm hs hg =>
      obtain ⟨hold, hw⟩ := (hg hd _ _ _).1 he
      obtain ⟨⟨k, hk⟩, hne, hx⟩ := h _ _ _ hold
      refine ⟨⟨k, (hs _ _ _).2 ⟨hk, hw⟩⟩, hne, ?_⟩
      rw [hm]
      exact hx
  | @left t p _ hm hs hg =>
    obtain ⟨hold, hno⟩ := (hg hd _ _ _).1 he
    obtain ⟨⟨k, hk⟩, hne, hx⟩ := h _ _ _ hold
    refine ⟨⟨k, (hs _ _ _).2 hk⟩, hne, ?_⟩
    rw [hm, if_neg hno]
    exact hx
  | @ended t _ hm hs hg =>
    obtain ⟨hold, _, hxt⟩ := (hg hd _ _ _).1 he
    obtain ⟨⟨k, hk⟩, hne, hx⟩ := h _ _ _ hold
    refine ⟨⟨k, (hs _ _ _).2 hk⟩, hne, ?_⟩
    rw [hm, if_neg hxt]
    exact hx

theorem Orderly.act {a : LockAction} (h : l.Orderly) (ha : l.Allows a) : (l.act a).Orderly where
  sound := h.sound.act a
  once := once_act h.once ha
  edges hd := by
    rw [act_config] at hd
    exact (move_of_allows h ha).edges hd (h.edges hd)

theorem Run.orderly {c : LockConfig} {es : List LockEvent} (h : Run c es l) :
    l.Orderly ∧ l.config = c := by
  induction h with
  | start => exact ⟨orderly_start c, rfl⟩
  | act a _ ha ih => exact ⟨ih.1.act ha, (act_config a).trans ih.2⟩

/-- A lock manager after some actions, with the events on the way. -/
def play (c : LockConfig) : List LockAction → List LockEvent × LockManager :=
  List.foldl (fun r a => (r.2.event a :: r.1, r.2.act a)) ([], { config := c })

/-- Whether each of some actions is allowed when its turn comes. -/
def AllAllowed : LockManager → List LockAction → Prop
  | _, [] => True
  | l, a :: rest => l.Allows a ∧ AllAllowed (l.act a) rest

instance decidableAllAllowed : (l : LockManager) → (as : List LockAction) →
    Decidable (AllAllowed l as)
  | _, [] => .isTrue trivial
  | l, a :: rest =>
    have := decidableAllAllowed (l.act a) rest
    inferInstanceAs (Decidable (l.Allows a ∧ AllAllowed (l.act a) rest))

theorem Run.foldl {c : LockConfig} {es : List LockEvent} (h : Run c es l) (as : List LockAction)
    (ha : AllAllowed l as) :
    Run c (as.foldl (fun r a => (r.2.event a :: r.1, r.2.act a)) (es, l)).1
      (as.foldl (fun r a => (r.2.event a :: r.1, r.2.act a)) (es, l)).2 := by
  induction as generalizing es l with
  | nil => exact h
  | cons a rest ih => exact ih (.act a h ha.1) ha.2

theorem run_play {c : LockConfig} {as : List LockAction} (h : AllAllowed { config := c } as) :
    Run c (play c as).1 (play c as).2 := Run.start.foldl as h

end LockManager
end PageStore

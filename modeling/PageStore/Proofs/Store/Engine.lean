import PageStore.Proofs.Lock.Run
import PageStore.Proofs.Store.Opened
import PageStore.Proofs.Store.Steps

/-!
# PageStore.Proofs.Store.Engine

A store under any number of transactions. Each transaction has at most one call under way; calls are
cut into steps, and the steps of different transactions interleave in any order. Transactions commit
and abort, the device may fail at any transfer, and the store may be dropped and opened again. Pages
that are flushed, discarded or released out of turn are actions too, but not plain ones.

`Change` says once what a plain action can do to what is seen of the pages, event by event. That
every one is such a change is shown in `Store.Coherent`, from one invariant: a dirty page is held
exclusively by the transaction that dirtied it (`Owned`), so no eviction writes a page that somebody
is still changing.
-/

namespace PageStore

/-- A store, and for each transaction the call that is under way. -/
structure Engine where
  store : Store
  calls : TxnId → Option Call

/-- What is done to an engine. -/
inductive Action where
  /-- It is decided which of the coming transfers fail, and whether lengths can be asked for. -/
  | device (faults : List Bool) (lengthFails : Bool := false)
  /-- From now on the cached pages come in another order when they are gone through. -/
  | reorder (walk : Walk)
  | call (t : TxnId) (c : Call)
  | step (t : TxnId)
  | resume (w : Sleeper)
  | expire (w : Sleeper)
  | commit (t : TxnId)
  | abort (t : TxnId)
  | restart
  | flushPage (p : PageId)
  | flushOf (t : TxnId)
  | flushAll
  | discard (p : PageId)
  | release (t : TxnId) (p : PageId)

/-- Nothing is written back, dropped or released out of turn, and what is changed is marked. -/
def Action.Plain : Action → Prop
  | .call _ c => c.Marks
  | .flushPage _ => False
  | .flushOf _ => False
  | .flushAll => False
  | .discard _ => False
  | .release _ _ => False
  | _ => True

/-- What is seen of an action. -/
inductive Event where
  | quiet
  /-- A call of a transaction has ended, and has changed a slot. -/
  | edited (t : TxnId) (e : Edit)
  /-- A commit has failed. -/
  | halted (t : TxnId)
  | committed (t : TxnId)
  /-- An abort has failed. -/
  | stuck (t : TxnId)
  | aborted (t : TxnId)
  | restarted
  | flushed
  | discarded (p : PageId)
  | released (t : TxnId) (p : PageId)
  deriving DecidableEq

def Event.ofEdit (t : TxnId) : Option Edit → Event
  | some e => .edited t e
  | none => .quiet

namespace Engine

variable {σ σ' : Engine} {t u : TxnId} {p : PageId} {c : Call} {w : Sleeper}

/-- A call has gone on. -/
def after (σ : Engine) (t : TxnId) (r : Store × Progress) : Engine where
  store := r.1
  calls := Function.update σ.calls t r.2.call?

def act (σ : Engine) : Action → Engine
  | .device faults lengthFails =>
    { σ with store.volume := { σ.store.volume with faults, lengthFails } }
  | .reorder walk => { σ with store.walk := walk }
  | .call t c => { σ with calls := Function.update σ.calls t (some c) }
  | .step t =>
    match σ.calls t with
    | some c => σ.after t (σ.store.step t c)
    | none => σ
  | .resume w =>
    match σ.calls w.txn with
    | some c => σ.after w.txn (σ.store.resume w c)
    | none => σ
  | .expire w =>
    match σ.calls w.txn with
    | some c => σ.after w.txn (σ.store.expire w c)
    | none => σ
  | .commit t => { σ with store := (σ.store.commit t).1 }
  | .abort t => { σ with store := (σ.store.abort t).1 }
  | .restart => { store := σ.store.reopen, calls := fun _ => none }
  | .flushPage p => { σ with store := (σ.store.flushPage p).1 }
  | .flushOf t => { σ with store := (σ.store.flushOf t).1 }
  | .flushAll => { σ with store := σ.store.flushAll.1 }
  | .discard p => { σ with store := (σ.store.discard p).1 }
  | .release t p => { σ with store := (σ.store.releasePage t p).1 }

def event (σ : Engine) : Action → Event
  | .step t =>
    match σ.calls t with
    | some c => .ofEdit t ((σ.store.step t c).2.edit? c)
    | none => .quiet
  | .resume w =>
    match σ.calls w.txn with
    | some c => .ofEdit w.txn ((σ.store.resume w c).2.edit? c)
    | none => .quiet
  | .expire w =>
    match σ.calls w.txn with
    | some c => .ofEdit w.txn ((σ.store.expire w c).2.edit? c)
    | none => .quiet
  | .commit t => if (σ.store.commit t).2.isOk then .committed t else .halted t
  | .abort t => if (σ.store.abort t).2.isOk then .aborted t else .stuck t
  | .restart => .restarted
  | .flushPage _ => .flushed
  | .flushOf _ => .flushed
  | .flushAll => .flushed
  | .discard p => .discarded p
  | .release t p => .released t p
  | .device _ _ => .quiet
  | .reorder _ => .quiet
  | .call _ _ => .quiet

/-- A transaction does one thing at a time, and does nothing while it is asleep. -/
def Allows (σ : Engine) : Action → Prop
  | .call t _ => σ.calls t = none
  | .step t => (σ.calls t).isSome ∧ σ.store.locks.Awake t
  | .resume w => w ∈ σ.store.locks.sleepers ∧ w.woken = true
  | .expire w => w ∈ σ.store.locks.sleepers
  | .commit t => σ.calls t = none
  | .abort t => σ.calls t = none
  | .release t _ => σ.calls t = none
  | _ => True

/-- The table whose file gets a page by an action. -/
def appends? (σ : Engine) : Action → Option TableId
  | .step t => (σ.calls t).bind Call.appends?
  | _ => none

/-- The engines that are reached by actions of some kind, with the events on the way, the latest
first. -/
inductive Run (ok : Engine → Action → Prop) (σ₀ : Engine) : List Event → Engine → Prop where
  | start : Run ok σ₀ [] σ₀
  | act {es : List Event} {σ : Engine} (a : Action) :
      Run ok σ₀ es σ → σ.Allows a → ok σ a → Run ok σ₀ (σ.event a :: es) (σ.act a)

/-- Plain actions that append no page to a file with a page for every number of 32 bits. -/
def Ordinary (σ : Engine) (a : Action) : Prop :=
  a.Plain ∧ ∀ tb ∈ σ.appends? a, σ.store.wholeCount tb < 4294967296

/-- An engine on an opened store, with no call under way. -/
def idle (s : Store) : Engine := { store := s, calls := fun _ => none }

/-! ## Runs that are played -/

instance : (a : Action) → Decidable a.Plain
  | .call _ c => inferInstanceAs (Decidable c.Marks)
  | .flushPage _ => .isFalse id
  | .flushOf _ => .isFalse id
  | .flushAll => .isFalse id
  | .discard _ => .isFalse id
  | .release _ _ => .isFalse id
  | .device _ _ => .isTrue trivial
  | .reorder _ => .isTrue trivial
  | .step _ => .isTrue trivial
  | .resume _ => .isTrue trivial
  | .expire _ => .isTrue trivial
  | .commit _ => .isTrue trivial
  | .abort _ => .isTrue trivial
  | .restart => .isTrue trivial

instance : (a : Action) → Decidable (σ.Allows a)
  | .call t _ => inferInstanceAs (Decidable (σ.calls t = none))
  | .step t => inferInstanceAs (Decidable ((σ.calls t).isSome ∧ σ.store.locks.Awake t))
  | .resume w => inferInstanceAs (Decidable (w ∈ σ.store.locks.sleepers ∧ w.woken = true))
  | .expire w => inferInstanceAs (Decidable (w ∈ σ.store.locks.sleepers))
  | .commit t => inferInstanceAs (Decidable (σ.calls t = none))
  | .abort t => inferInstanceAs (Decidable (σ.calls t = none))
  | .release t _ => inferInstanceAs (Decidable (σ.calls t = none))
  | .device _ _ => .isTrue trivial
  | .reorder _ => .isTrue trivial
  | .restart => .isTrue trivial
  | .flushPage _ => .isTrue trivial
  | .flushOf _ => .isTrue trivial
  | .flushAll => .isTrue trivial
  | .discard _ => .isTrue trivial

instance (σ : Engine) (a : Action) : Decidable (σ.Ordinary a) :=
  inferInstanceAs
    (Decidable (a.Plain ∧ ∀ tb ∈ σ.appends? a, σ.store.wholeCount tb < 4294967296))

/-- An engine after some actions, with the events on the way. -/
def play (σ : Engine) : List Action → List Event × Engine :=
  List.foldl (fun r a => (r.2.event a :: r.1, r.2.act a)) ([], σ)

/-- Whether each of some actions is allowed, and of the right kind, when its turn comes. -/
def Follow (ok : Engine → Action → Prop) : Engine → List Action → Prop
  | _, [] => True
  | σ, a :: rest => (σ.Allows a ∧ ok σ a) ∧ Follow ok (σ.act a) rest

instance decidableFollow (ok : Engine → Action → Prop) [∀ σ a, Decidable (ok σ a)] :
    (σ : Engine) → (as : List Action) → Decidable (Follow ok σ as)
  | _, [] => .isTrue trivial
  | σ, a :: rest =>
    have := decidableFollow ok (σ.act a) rest
    inferInstanceAs (Decidable ((σ.Allows a ∧ ok σ a) ∧ Follow ok (σ.act a) rest))

theorem Run.foldl {ok : Engine → Action → Prop} {σ₀ : Engine} (as : List Action) :
    ∀ {es : List Event} {σ : Engine}, Run ok σ₀ es σ → Follow ok σ as →
      Run ok σ₀ (as.foldl (fun r a => (r.2.event a :: r.1, r.2.act a)) (es, σ)).1
        (as.foldl (fun r a => (r.2.event a :: r.1, r.2.act a)) (es, σ)).2 := by
  induction as with
  | nil =>
    intro es σ h _
    exact h
  | cons a rest ih =>
    intro es σ h hf
    exact ih (.act a h hf.1.1 hf.1.2) hf.2

/-- The first insertion into the empty sample table: it looks at no page, and appends one. -/
def firstInsertion (t : TxnId) (n : Int16) : List Action :=
  [.call t (.insertion ⟨0⟩ (Store.sampleTuple n)), .step t, .step t, .step t]

theorem run_play {ok : Engine → Action → Prop} {σ₀ : Engine} {as : List Action}
    (h : Follow ok σ₀ as) : Run ok σ₀ (play σ₀ as).1 (play σ₀ as).2 := Run.start.foldl as h

end Engine

namespace Store

variable {s s' s'' : Store} {t : TxnId} {p : PageId} {c : Call} {W : PageId → Prop}

/-- The same is seen of every page. -/
structure Same (s s' : Store) : Prop where
  config : s'.config = s.config
  shown : ∀ p, s'.shown p = s.shown p
  onDisk : ∀ p, s'.onDisk p = s.onDisk p
  dirtier : ∀ p, s'.dirtier p = s.dirtier p

/-- Nobody loses an exclusive lock. -/
def Firm (s s' : Store) : Prop :=
  ∀ p t, s.locks.modeOf p t = some .exclusive → s'.locks.modeOf p t = some .exclusive

/-- Every page shows what it showed, and some of the dirty pages that a commit writes have been
written back. -/
structure Flushes (t : TxnId) (s s' : Store) : Prop where
  config : s'.config = s.config
  shown : ∀ p, s'.shown p = s.shown p
  page : ∀ p, (s'.dirtier p = s.dirtier p ∧ s'.onDisk p = s.onDisk p) ∨
    (s.Writes t p ∧ s.dirtier p ≠ none ∧ s'.dirtier p = none ∧ s'.onDisk p = s.shown p)

/-- The locks of one transaction are given up. -/
def Frees (t : TxnId) (s s' : Store) : Prop :=
  ∀ p u, s'.locks.modeOf p u = if u = t then none else s.locks.modeOf p u

/-- What can happen to what is seen of the pages. -/
inductive Change (s s' : Store) : Event → Prop where
  | quiet : Same s s' → Firm s s' → Change s s' .quiet
  | edited {t : TxnId} {e : Edit} :
      s'.config = s.config → Firm s s' → s'.locks.modeOf e.record.page t = some .exclusive →
      (∀ p, s'.onDisk p = s.onDisk p) →
      (∀ p, s'.shown p = if p = e.record.page then
        Function.update (s.shown p) e.record.slot e.bytes else s.shown p) →
      (∀ p, s'.dirtier p = if p = e.record.page then some t else s.dirtier p) →
      Change s s' (.edited t e)
  | halted {t : TxnId} : Flushes t s s' → s'.locks = s.locks → Change s s' (.halted t)
  | committed {t : TxnId} :
      Flushes t s s' → Frees t s s' → (∀ p, s.Writes t p → s'.dirtier p = none) →
      Change s s' (.committed t)
  | stuck {t : TxnId} :
      Reverts (fun p => s.dirtier p = some t) s s' → s'.locks = s.locks → Change s s' (.stuck t)
  | aborted {t : TxnId} :
      s'.config = s.config → Frees t s s' →
      (∀ p, s'.onDisk p = s.onDisk p) →
      (∀ p, s'.shown p = if s.dirtier p = some t then s.onDisk p else s.shown p) →
      (∀ p, s'.dirtier p = if s.dirtier p = some t then none else s.dirtier p) →
      Change s s' (.aborted t)
  | restarted :
      s'.config = s.config → (∀ p u, s'.locks.modeOf p u = none) →
      (∀ p, s'.onDisk p = s.onDisk p) → (∀ p, s'.shown p = s.onDisk p) →
      (∀ p, s'.dirtier p = none) → Change s s' .restarted

/-- Who dirtied a page holds it exclusively. -/
def Owned (s : Store) : Prop := ∀ p t, s.dirtier p = some t → s.locks.modeOf p t = some .exclusive

theorem Same.trans (h : Same s s') (h' : Same s' s'') : Same s s'' where
  config := h'.config.trans h.config
  shown p := (h'.shown p).trans (h.shown p)
  onDisk p := (h'.onDisk p).trans (h.onDisk p)
  dirtier p := (h'.dirtier p).trans (h.dirtier p)

theorem same_locks (s : Store) (l : LockManager) : Same s { s with locks := l } :=
  ⟨rfl, fun _ => rfl, fun _ => rfl, fun _ => rfl⟩

theorem same_walk (s : Store) (walk : Walk) : Same s { s with walk } :=
  ⟨rfl, fun _ => rfl, fun _ => rfl, fun _ => rfl⟩

theorem same_device (s : Store) (faults : List Bool) (lengthFails : Bool) :
    Same s { s with volume := { s.volume with faults, lengthFails } } :=
  ⟨rfl, fun _ => rfl, fun _ => rfl, fun _ => rfl⟩

theorem Sound.with_locks (hs : s.Sound) (l : LockManager) : Sound { s with locks := l } :=
  ⟨hs.catalog, hs.framed, hs.known, hs.clean⟩

theorem Sound.with_walk (hs : s.Sound) (walk : Walk) : Sound { s with walk } :=
  ⟨hs.catalog, hs.framed, hs.known, hs.clean⟩

theorem Sound.with_device (hs : s.Sound) (faults : List Bool) (lengthFails : Bool) :
    Sound { s with volume := { s.volume with faults, lengthFails } } :=
  ⟨hs.catalog.congr rfl (.of_entries rfl), hs.framed, hs.known, hs.clean⟩

theorem Keeps.same (h : Keeps W s s') (hW : ∀ p, ¬ W p) : Same s s' := by
  refine ⟨h.steady.config, h.shown, fun p => ?_, fun p => ?_⟩
  · exact ((h.page p).resolve_right fun hp => hW p hp.1).2
  · exact ((h.page p).resolve_right fun hp => hW p hp.1).1

theorem firm_of_eq (h : s'.locks = s.locks) : Firm s s' := by
  intro p t hm
  rw [h]
  exact hm

end Store
end PageStore

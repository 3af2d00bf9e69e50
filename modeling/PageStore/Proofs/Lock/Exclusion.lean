import PageStore.Proofs.Lock.Run

/-!
# PageStore.Proofs.Lock.Exclusion

Mutual exclusion, for any number of threads and without a word about who may call what: requests,
last tries and retries come in any order, also several at a time for one transaction or for
sleepers that do not exist, and a transaction that gives up all its pages does so page by page, with
steps of other threads in between (`LockStep`).

`locks_exclude` has both halves. An exclusive holder of a page is alone, which is `Holders.Sound` on
every page. And a request that was granted holds until its transaction gives the page up: no step
of another transaction, and no other request of its own, lowers a mode (`exists_modeOf_take`).
-/

namespace PageStore

/-- A step of a thread. Giving up all pages takes a transaction several: it takes its entry out of
the index (`disown`), gives up page after page (`drop`), and takes its edges away (`unlink`). -/
inductive LockStep where
  | action (a : LockAction)
  | disown (t : TxnId)
  | drop (t : TxnId) (p : PageId)
  | unlink (t : TxnId)
  deriving DecidableEq, Repr

/-- Whether a step gives up what a transaction holds of a page. -/
def LockStep.GivesUp (t : TxnId) (p : PageId) : LockStep → Prop
  | .action (.release q u) => q = p ∧ u = t
  | .action (.releaseAll u) => u = t
  | .action _ => False
  | .disown _ => False
  | .drop u q => q = p ∧ u = t
  | .unlink _ => False

instance (t : TxnId) (p : PageId) : DecidablePred (LockStep.GivesUp t p)
  | .action (.release q u) => inferInstanceAs (Decidable (q = p ∧ u = t))
  | .action (.releaseAll u) => inferInstanceAs (Decidable (u = t))
  | .action (.request _ _ _) => .isFalse id
  | .action (.retry _) => .isFalse id
  | .action (.expire _) => .isFalse id
  | .disown _ => .isFalse id
  | .drop u q => inferInstanceAs (Decidable (q = p ∧ u = t))
  | .unlink _ => .isFalse id

namespace LockManager

variable {l : LockManager} {t u : TxnId} {p q : PageId} {m k : LockMode} {a : LockAction}

def take (l : LockManager) : LockStep → LockManager
  | .action a => l.act a
  | .disown t => { l with held := l.held.erase t }
  | .drop t p => drop t l p
  | .unlink t =>
    { l with
      graph := if l.config.detectDeadlocks then l.graph.removeTransaction t else l.graph }

def after (l : LockManager) (steps : List LockStep) : LockManager := steps.foldl take l

/-- A lock manager after some steps of its threads. -/
def reached (c : LockConfig) (steps : List LockStep) : LockManager :=
  ({ config := c } : LockManager).after steps

/-- The request that an action tries, and what becomes of it. -/
def answered (l : LockManager) : LockAction → Option (TxnId × PageId × LockMode × Verdict)
  | .request t p m => some (t, p, m, (l.request t p m).2)
  | .retry s => some (s.txn, s.page, s.mode, (l.retry s).2)
  | .expire s => some (s.txn, s.page, s.mode, (l.expire s).2)
  | .release _ _ => none
  | .releaseAll _ => none

/-! ## Giving up all pages, step by step -/

theorem foldl_drop_held (t : TxnId) (ps : List PageId) (l : LockManager)
    (held : Std.TreeMap TxnId (Std.TreeSet PageId)) :
    ps.foldl (drop t) { l with held } = { ps.foldl (drop t) l with held } := by
  induction ps generalizing l with
  | nil => rfl
  | cons p rest ih => exact ih (drop t l p)

/-- The call that gives up all pages is these steps, with no other thread in between. -/
theorem releaseAll_eq_after (l : LockManager) (t : TxnId) :
    l.releaseAll t =
      l.after (.disown t :: ((l.lockedPages t).map (LockStep.drop t) ++ [.unlink t])) := by
  obtain ⟨hc, _, hg, _⟩ := foldl_drop t (l.lockedPages t) l
  simp only [after, List.foldl_cons, List.foldl_append, List.foldl_map, List.foldl_nil, take]
  rw [foldl_drop_held]
  simp only [releaseAll, hc, hg]

/-! ## What one step does to the holders -/

theorem holders_act_of_tries (ha : a.tries = some (t, p, m)) :
    (l.act a).holders q = (l.attempt t p m).1.holders q := by
  unfold LockManager.holders
  rw [(locks_of_tries ha).1]

theorem tries_of_answered {v : Verdict} (h : l.answered a = some (t, p, m, v)) :
    a.tries = some (t, p, m) := by
  cases a <;> simp_all [answered, LockAction.tries]

/-- A request is granted just if its attempt is. -/
theorem granted_iff_of_answered {v : Verdict} (h : l.answered a = some (t, p, m, v)) :
    v = .granted ↔ (l.attempt t p m).2 = .granted := by
  cases a with
  | request t p m =>
    simp only [answered, Option.some.injEq, Prod.mk.injEq] at h
    obtain ⟨rfl, rfl, rfl, rfl⟩ := h
    by_cases hv : (l.attempt t p m).2 = .asleep
    · rw [request_of_asleep hv, hv]
    · rw [request_of_ne_asleep hv]
  | retry s =>
    simp only [answered, Option.some.injEq, Prod.mk.injEq] at h
    obtain ⟨rfl, rfl, rfl, rfl⟩ := h
    cases hv : (l.attempt s.txn s.page s.mode).2 with
    | granted => rw [retry_of_granted hv]
    | asleep => rw [retry_of_asleep hv]
    | refused => rw [retry_of_refused hv]
  | expire s =>
    simp only [answered, Option.some.injEq, Prod.mk.injEq] at h
    obtain ⟨rfl, rfl, rfl, rfl⟩ := h
    by_cases hv : (l.attempt s.txn s.page s.mode).2 = .granted
    · rw [expire_of_granted hv, hv]
    · rw [expire_of_ne_granted hv]
      exact iff_of_false (by simp) hv
  | release p t => cases h
  | releaseAll t => cases h

theorem attempt_of_answered (h : l.answered a = some (t, p, m, .granted)) :
    (l.attempt t p m).2 = .granted :=
  (granted_iff_of_answered h).1 rfl

theorem holders_take (h : ∀ p, (l.holders p).Sound) (s : LockStep) (q : PageId) :
    ((l.take s).holders q).Sound := by
  cases s with
  | action a =>
    rcases a.tries_cases with ⟨t, p, m, ha⟩ | ⟨p, t, rfl⟩ | ⟨t, rfl⟩
    · simp only [take]
      rw [holders_act_of_tries ha]
      exact holders_attempt h q
    · exact holders_release h q
    · exact (modeOf_foldl_drop (l.lockedPages t) h).2 q
  | disown t => exact h q
  | drop t p => exact holders_drop h q
  | unlink t => exact h q

theorem modeOf_act_of_tries (ha : a.tries = some (t, p, m)) :
    (l.act a).modeOf q u = (l.attempt t p m).1.modeOf q u :=
  congrArg (·.modeOf u) (holders_act_of_tries ha)

/-- No step lowers a mode but one that gives the page up. -/
theorem exists_modeOf_take (h : ∀ p, (l.holders p).Sound) {s : LockStep} (hs : ¬ s.GivesUp t p)
    (hk : l.modeOf p t = some k) : ∃ j, (l.take s).modeOf p t = some j ∧ j.covers k = true := by
  cases s with
  | action a =>
    rcases a.tries_cases with ⟨u, q, m, ha⟩ | ⟨q, u, rfl⟩ | ⟨u, rfl⟩
    · simp only [take]
      rw [modeOf_act_of_tries ha, modeOf_attempt]
      split
      · next hc =>
        obtain ⟨_, rfl, rfl⟩ := hc
        refine ⟨_, rfl, ?_⟩
        rw [hk]
        exact (LockMode.covers_max k m).1
      · exact ⟨k, hk, k.covers_self⟩
    · simp only [take, act]
      rw [modeOf_release h, if_neg fun hc => hs ⟨hc.1.symm, hc.2.symm⟩]
      exact ⟨k, hk, k.covers_self⟩
    · have hne : t ≠ u := fun e => hs e.symm
      simp only [take, act]
      rw [modeOf_releaseAll h, if_neg fun hc => hne hc.2]
      exact ⟨k, hk, k.covers_self⟩
  | disown u => exact ⟨k, hk, k.covers_self⟩
  | drop u q =>
    simp only [take]
    rw [modeOf_drop h, if_neg fun hc => hs ⟨hc.1.symm, hc.2.symm⟩]
    exact ⟨k, hk, k.covers_self⟩
  | unlink u => exact ⟨k, hk, k.covers_self⟩

/-! ## Runs -/

theorem holders_after (h : ∀ p, (l.holders p).Sound) (steps : List LockStep) (q : PageId) :
    ((l.after steps).holders q).Sound := by
  induction steps generalizing l with
  | nil => exact h q
  | cons s rest ih => exact ih (holders_take h s)

theorem exists_modeOf_after (h : ∀ p, (l.holders p).Sound) {steps : List LockStep}
    (hs : ∀ s ∈ steps, ¬ s.GivesUp t p) (hk : l.modeOf p t = some k) :
    ∃ j, (l.after steps).modeOf p t = some j ∧ j.covers k = true := by
  induction steps generalizing l k with
  | nil => exact ⟨k, hk, k.covers_self⟩
  | cons s rest ih =>
    obtain ⟨j, hj, hjk⟩ := exists_modeOf_take h (hs s List.mem_cons_self) hk
    obtain ⟨i, hi, hij⟩ :=
      ih (holders_take h s) (fun s hin => hs s (List.mem_cons_of_mem _ hin)) hj
    exact ⟨i, hi, LockMode.covers_trans hij hjk⟩

theorem holders_reached (c : LockConfig) (steps : List LockStep) (p : PageId) :
    ((reached c steps).holders p).Sound :=
  holders_after (sound_start c).holders steps p

/-- Whatever the threads did, each page has an exclusive holder, and then no shared one, or shared
holders alone; and whoever was granted a page in some mode holds it in a mode that covers it, until
it gives the page up itself. -/
theorem locks_exclude (c : LockConfig) (steps : List LockStep) :
    (∀ p t, (reached c steps).modeOf p t = some .exclusive →
      ((reached c steps).holders p).shared = [] ∧
        ∀ u, ((reached c steps).modeOf p u).isSome → u = t) ∧
    ∀ a t p m, (reached c steps).answered a = some (t, p, m, .granted) →
      ∀ later : List LockStep, (∀ s ∈ later, ¬ s.GivesUp t p) →
        ∃ k, (((reached c steps).act a).after later).modeOf p t = some k ∧ k.covers m = true := by
  have hsound := holders_reached c steps
  refine ⟨fun p t ht => ⟨(hsound p).alone t (Holders.modeOf_exclusive_iff.1 ht),
    fun u hu => (hsound p).eq_of_exclusive ht hu⟩, fun a t p m ha later hlater => ?_⟩
  have hmode : ((reached c steps).act a).modeOf p t =
      some (raised ((reached c steps).modeOf p t) m) := by
    have heq : ((reached c steps).act a).modeOf p t =
        ((reached c steps).attempt t p m).1.modeOf p t :=
      congrArg (·.modeOf t) (holders_act_of_tries (tries_of_answered ha))
    rw [heq, modeOf_attempt, if_pos ⟨attempt_of_answered ha, rfl, rfl⟩]
  obtain ⟨k, hk, hcov⟩ := exists_modeOf_after (holders_take hsound (.action a)) hlater hmode
  exact ⟨k, hk, LockMode.covers_trans hcov (raised_covers _ m)⟩

/-- Two transactions share a page and one of them asks to be raised. The other one gives up its
pages, and has got as far as this page. -/
def raising : List LockStep :=
  [.action (.request ⟨1⟩ ⟨⟨0⟩, 0⟩ .shared), .action (.request ⟨2⟩ ⟨⟨0⟩, 0⟩ .shared),
    .action (.request ⟨1⟩ ⟨⟨0⟩, 0⟩ .exclusive), .disown ⟨2⟩, .drop ⟨2⟩ ⟨⟨0⟩, 0⟩]

/-- The sleeper is raised when it tries again, and neither the end of the other transaction nor a
third one that comes and goes takes that from it. -/
theorem raised_stays :
    (reached {} raising).answered (.retry ⟨⟨1⟩, ⟨⟨0⟩, 0⟩, .exclusive, true⟩) =
        some (⟨1⟩, ⟨⟨0⟩, 0⟩, .exclusive, .granted) ∧
      ∃ k, (((reached {} raising).act (.retry ⟨⟨1⟩, ⟨⟨0⟩, 0⟩, .exclusive, true⟩)).after
          [.unlink ⟨2⟩, .action (.request ⟨3⟩ ⟨⟨0⟩, 0⟩ .shared), .action (.releaseAll ⟨3⟩)]).modeOf
            ⟨⟨0⟩, 0⟩ ⟨1⟩ = some k ∧ k.covers .exclusive = true := by
  have hgranted : (reached {} raising).answered (.retry ⟨⟨1⟩, ⟨⟨0⟩, 0⟩, .exclusive, true⟩) =
      some (⟨1⟩, ⟨⟨0⟩, 0⟩, .exclusive, .granted) := by decide +kernel
  exact ⟨hgranted, (locks_exclude {} raising).2 _ _ _ _ hgranted _ (by decide +kernel)⟩

end LockManager
end PageStore

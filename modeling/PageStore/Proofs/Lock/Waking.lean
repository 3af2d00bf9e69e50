import PageStore.Proofs.Lock.Exclusion

/-!
# PageStore.Proofs.Lock.Waking

No wake-up is lost. Wherever the threads may have got to, a request that sleeps and was not woken
since it last tried is blocked by a transaction that holds the page.

A request falls asleep only if its attempt was blocked. From then on its blockers keep what they
hold or are raised, and are no less in its way (`Blocked.of_raised`); or one of them gives the page
up, and wakes every sleeper of that page. `sleeping_take` says so of one step. A retry that fails
wakes nobody, so once the woken sleepers have tried again, in any order, nobody is left that was
woken (`woken_after`), and no sleeper could be granted its page.

To wake the sleepers is a step of its own: it is taken after the page was given up, and other threads
may take steps in between (`WakeStep`). Until then the sleepers of the page are due to be woken.
-/

namespace PageStore

/-- A step of a thread, where giving up a page and waking its sleepers are two. -/
inductive WakeStep where
  | step (s : LockStep)
  /-- Gives up a page. -/
  | leave (p : PageId) (t : TxnId)
  /-- Gives up a page, among all pages. -/
  | vacate (t : TxnId) (p : PageId)
  | wake (p : PageId)
  deriving DecidableEq, Repr

namespace LockManager

variable {l l' : LockManager} {t u : TxnId} {p q : PageId} {m k j : LockMode} {s : Sleeper}

/-- Another transaction holds the page in a mode that conflicts with the request. -/
def Blocked (l : LockManager) (p : PageId) (t : TxnId) (m : LockMode) : Prop :=
  ∃ u k, u ≠ t ∧ l.modeOf p u = some k ∧ k.compatible m = false

theorem not_free_iff : ¬ l.Free p t m ↔ l.Blocked p t m := by
  rw [free_iff]
  unfold Blocked
  push Not
  simp only [Bool.not_eq_true]

theorem attempt_ne_granted_iff (h : ∀ p, (l.holders p).Sound) :
    (l.attempt t p m).2 ≠ .granted ↔ l.Blocked p t m := by
  rw [ne_eq, attempt_granted_iff (h p), not_free_iff]

theorem conflicts_of_covers (hj : j.covers k = true) (hk : k.compatible m = false) :
    j.compatible m = false := by
  revert hj hk
  cases j <;> cases k <;> cases m <;> decide

/-- Holders that keep what they hold, or are raised, are no less in the way. -/
theorem Blocked.of_raised (h : l.Blocked p t m)
    (hup : ∀ u k, l.modeOf p u = some k → ∃ j, l'.modeOf p u = some j ∧ j.covers k = true) :
    l'.Blocked p t m := by
  obtain ⟨u, k, hne, hk, hc⟩ := h
  obtain ⟨j, hj, hcov⟩ := hup u k hk
  exact ⟨u, j, hne, hj, conflicts_of_covers hcov hc⟩

theorem Blocked.congr (h : l.Blocked p t m) (heq : ∀ u, l'.modeOf p u = l.modeOf p u) :
    l'.Blocked p t m := by
  obtain ⟨u, k, hne, hk, hc⟩ := h
  exact ⟨u, k, hne, (heq u).trans hk, hc⟩

/-! ## Who sleeps unwoken after a step -/

theorem mem_of_mem_wake {ss : List Sleeper} {c : Sleeper → Prop} [DecidablePred c]
    (hs : s ∈ ss.map fun x => if c x then { x with woken := true } else x)
    (hw : s.woken = false) : s ∈ ss ∧ ¬ c s := by
  obtain ⟨x, hx, rfl⟩ := List.mem_map.1 hs
  by_cases hc : c x
  · rw [if_pos hc] at hw
    cases hw
  · rw [if_neg hc]
    exact ⟨hx, hc⟩

theorem mem_replace {ss : List Sleeper} {x y : Sleeper} (hs : s ∈ ss.replace x y) :
    s ∈ ss ∨ s = y := by
  induction ss with
  | nil => cases hs
  | cons z rest ih =>
    rw [List.replace_cons] at hs
    cases hz : x == z with
    | true =>
      rw [hz] at hs
      rcases List.mem_cons.1 hs with rfl | hin
      · exact .inr rfl
      · exact .inl (List.mem_cons_of_mem z hin)
    | false =>
      rw [hz] at hs
      rcases List.mem_cons.1 hs with rfl | hin
      · exact .inl List.mem_cons_self
      · exact (ih hin).imp_left (List.mem_cons_of_mem z)

theorem forget_attempt_sleepers (x : Sleeper) :
    ((l.attempt t p m).1.forget x).sleepers = l.sleepers.erase x := by
  rw [forget, attempt_sleepers]

/-- After a try nobody sleeps that did not sleep before, but the one that tried and was blocked. -/
theorem mem_sleepers_of_tries {a : LockAction} (ha : a.tries = some (t, p, m))
    (hs : s ∈ (l.act a).sleepers) :
    s ∈ l.sleepers ∨ (l.attempt t p m).2 = .asleep ∧ s = ⟨t, p, m, false⟩ := by
  cases a with
  | request t p m =>
    cases ha
    by_cases hv : (l.attempt t p m).2 = .asleep
    · simp only [act, request_of_asleep hv, List.mem_append, List.mem_singleton] at hs
      exact hs.imp_right fun he => ⟨hv, he⟩
    · simp only [act, request_of_ne_asleep hv, attempt_sleepers] at hs
      exact .inl hs
  | retry x =>
    cases ha
    cases hv : (l.attempt x.txn x.page x.mode).2 with
    | granted =>
      simp only [act, retry_of_granted hv, stopWaiting_sleepers, forget_attempt_sleepers] at hs
      exact .inl (List.mem_of_mem_erase hs)
    | asleep =>
      simp only [act, retry_of_asleep hv] at hs
      exact (mem_replace hs).imp_right fun he => ⟨rfl, he⟩
    | refused =>
      simp only [act, retry_of_refused hv, forget_attempt_sleepers] at hs
      exact .inl (List.mem_of_mem_erase hs)
  | expire x =>
    cases ha
    by_cases hv : (l.attempt x.txn x.page x.mode).2 = .granted
    · simp only [act, expire_of_granted hv, stopWaiting_sleepers, forget_attempt_sleepers] at hs
      exact .inl (List.mem_of_mem_erase hs)
    · simp only [act, expire_of_ne_granted hv, stopWaiting_sleepers,
        forget_attempt_sleepers] at hs
      exact .inl (List.mem_of_mem_erase hs)
  | release p t => cases ha
  | releaseAll t => cases ha

theorem not_givesUp_of_tries {a : LockAction} (ha : a.tries ≠ none) :
    ¬ LockStep.GivesUp u q (.action a) := by
  intro hg
  cases a with
  | request t p m => exact hg
  | retry x => exact hg
  | expire x => exact hg
  | release p t => exact ha rfl
  | releaseAll t => exact ha rfl

/-- Who sleeps unwoken after a step has slept unwoken before and is still blocked if it was, or it
has been blocked just now. -/
theorem sleeping_take (h : ∀ p, (l.holders p).Sound) (step : LockStep)
    (hs : s ∈ (l.take step).sleepers) (hw : s.woken = false) :
    s ∈ l.sleepers ∧
        (l.Blocked s.page s.txn s.mode → (l.take step).Blocked s.page s.txn s.mode) ∨
      (l.take step).Blocked s.page s.txn s.mode := by
  cases step with
  | action a =>
    rcases a.tries_cases with ⟨t, p, m, ha⟩ | ⟨p, t, rfl⟩ | ⟨t, rfl⟩
    · rcases mem_sleepers_of_tries ha hs with hin | ⟨hv, rfl⟩
      · refine .inl ⟨hin, fun hb => hb.of_raised fun u k hk => ?_⟩
        exact exists_modeOf_take h (not_givesUp_of_tries (by simp [ha])) hk
      · have hne : (l.attempt t p m).2 ≠ .granted := by simp [hv]
        refine .inr (((attempt_ne_granted_iff h).1 hne).congr fun u => ?_)
        exact (modeOf_act_of_tries ha).trans (modeOf_of_ne_granted hne)
    · simp only [take, act] at hs ⊢
      have hmode := fun u => modeOf_release (t := t) (p := p) (q := s.page) (u := u) h
      rcases release_cases l p t with ⟨_, e⟩ | ⟨_, _, e⟩ <;> rw [e] at hs hmode ⊢
      · exact .inl ⟨hs, id⟩
      · obtain ⟨hin, hne⟩ := mem_of_mem_wake (c := fun x => x.page = p) hs hw
        refine .inl ⟨hin, fun hb => hb.congr fun u => ?_⟩
        rw [hmode, if_neg fun hc => hne hc.1]
    · simp only [take, act] at hs ⊢
      rw [releaseAll_sleepers] at hs
      obtain ⟨hin, hne⟩ := mem_of_mem_wake hs hw
      refine .inl ⟨hin, fun hb => hb.congr fun u => ?_⟩
      rw [modeOf_releaseAll h, if_neg fun hc => hne hc.1]
  | disown t => exact .inl ⟨hs, id⟩
  | drop t p =>
    obtain ⟨hin, hne⟩ := mem_of_mem_wake (c := fun x => x.page = p) hs hw
    refine .inl ⟨hin, fun hb => hb.congr fun u => ?_⟩
    simp only [take]
    rw [modeOf_drop h, if_neg fun hc => hne hc.1]
  | unlink t => exact .inl ⟨hs, id⟩

/-! ## Retries of the woken -/

/-- The sleepers that were woken and have not tried again. -/
def woken (l : LockManager) : List Sleeper := l.sleepers.filter (·.woken)

/-- The steps in which some sleepers try again. -/
def retries (order : List Sleeper) : List LockStep := order.map fun s => .action (.retry s)

theorem filter_replace (ss : List Sleeper) (x : Sleeper) {y : Sleeper} (hy : y.woken = false) :
    (ss.replace x y).filter (·.woken) = (ss.erase x).filter (·.woken) := by
  induction ss with
  | nil => rfl
  | cons z rest ih =>
    rw [List.replace_cons, List.erase_cons, BEq.comm]
    cases hz : z == x with
    | true => simp [hy]
    | false => simp [List.filter_cons, ih]

/-- A sleeper that tries again is woken no more, and nobody else is woken by it. -/
theorem woken_retry (s : Sleeper) : (l.act (.retry s)).woken = l.woken.erase s := by
  unfold woken
  rw [List.erase_filter]
  simp only [act]
  cases hv : (l.attempt s.txn s.page s.mode).2 with
  | granted => rw [retry_of_granted hv, stopWaiting_sleepers, forget_attempt_sleepers]
  | asleep =>
    rw [retry_of_asleep hv]
    exact filter_replace l.sleepers s rfl
  | refused => rw [retry_of_refused hv, forget_attempt_sleepers]

theorem woken_after {order : List Sleeper} (h : order.Perm l.woken) :
    (l.after (retries order)).woken = [] := by
  induction order generalizing l with
  | nil => exact h.nil_eq.symm
  | cons s rest ih =>
    refine ih ?_
    rw [take, woken_retry]
    exact (List.cons_perm_iff_perm_erase.1 h).2

theorem unwoken_of_woken_eq_nil (h : l.woken = []) (hs : s ∈ l.sleepers) : s.woken = false := by
  by_contra hw
  have hin : s ∈ l.woken := List.mem_filter.2 ⟨hs, by simpa using hw⟩
  rw [h] at hin
  cases hin

end LockManager

/-! ## Runs -/

/-- The locks, and the pages whose sleepers are due to be woken. -/
structure Waking where
  locks : LockManager
  due : List PageId := []

namespace Waking

open LockManager

variable {x : Waking} {s : Sleeper}

def take (x : Waking) : WakeStep → Waking
  | .step s => { x with locks := x.locks.take s }
  | .leave p t =>
    match x.locks.release p t with
    | (l, true) => ⟨{ l with sleepers := x.locks.sleepers }, p :: x.due⟩
    | (_, false) => x
  | .vacate t p => ⟨{ x.locks.drop t p with sleepers := x.locks.sleepers }, p :: x.due⟩
  | .wake p => ⟨{ x.locks with sleepers := x.locks.sleepers.map (wakeOn p) }, x.due.erase p⟩

/-- The locks and the due pages after some steps of the threads. -/
def reached (c : LockConfig) (steps : List WakeStep) : Waking :=
  steps.foldl take { locks := { config := c } }

/-- Giving up a page is to leave it and then to wake its sleepers. -/
theorem take_leave_wake {p : PageId} {t : TxnId} (h : (x.locks.release p t).2 = true) :
    (x.take (.leave p t)).take (.wake p) = x.take (.step (.action (.release p t))) := by
  rcases release_cases x.locks p t with ⟨_, e⟩ | ⟨_, _, e⟩
  · rw [e] at h
    cases h
  · simp only [take, LockManager.take, act, e, List.erase_cons_head]

theorem take_vacate_wake (t : TxnId) (p : PageId) :
    (x.take (.vacate t p)).take (.wake p) = x.take (.step (.drop t p)) := by
  simp only [take, LockManager.take, LockManager.drop, List.erase_cons_head]

/-- Exclusive holders are alone, and who sleeps unwoken is blocked, but where a wake-up is due. -/
structure Heard (x : Waking) : Prop where
  holders : ∀ p, (x.locks.holders p).Sound
  blocked : ∀ s ∈ x.locks.sleepers, s.woken = false → s.page ∉ x.due →
    x.locks.Blocked s.page s.txn s.mode

theorem Heard.take (h : x.Heard) (step : WakeStep) : (x.take step).Heard := by
  cases step with
  | step a =>
    refine ⟨holders_take h.holders a, fun s hs hw hdue => ?_⟩
    rcases sleeping_take h.holders a hs hw with ⟨hin, hstill⟩ | hb
    · exact hstill (h.blocked s hin hw hdue)
    · exact hb
  | leave p t =>
    rcases release_cases x.locks p t with ⟨_, e⟩ | ⟨_, _, e⟩
    · simp only [Waking.take, e]
      exact h
    · have hmode := fun q u => modeOf_release (t := t) (p := p) (q := q) (u := u) h.holders
      have hsound := holders_release (p := p) (t := t) h.holders
      simp only [Waking.take, e] at hmode hsound ⊢
      refine ⟨hsound, fun s hs hw hdue => ?_⟩
      obtain ⟨hne, hdue⟩ := not_or.1 (mt List.mem_cons.2 hdue)
      refine (h.blocked s hs hw hdue).congr fun u => ?_
      exact (hmode s.page u).trans (if_neg fun hc => hne hc.1)
  | vacate t p =>
    refine ⟨holders_drop h.holders, fun s hs hw hdue => ?_⟩
    obtain ⟨hne, hdue⟩ := not_or.1 (mt List.mem_cons.2 hdue)
    refine (h.blocked s hs hw hdue).congr fun u => ?_
    exact (modeOf_drop h.holders).trans (if_neg fun hc => hne hc.1)
  | wake p =>
    refine ⟨h.holders, fun s hs hw hdue => ?_⟩
    obtain ⟨hin, hne⟩ := mem_of_mem_wake (c := fun y => y.page = p) hs hw
    exact h.blocked s hin hw fun hd => hdue ((List.mem_erase_of_ne hne).2 hd)

theorem heard_reached (c : LockConfig) (steps : List WakeStep) : (reached c steps).Heard := by
  have hstart : Heard { locks := { config := c } } :=
    ⟨(sound_start c).holders, fun s hs => absurd hs List.not_mem_nil⟩
  have hrun : ∀ x : Waking, x.Heard → (steps.foldl Waking.take x).Heard := by
    induction steps with
    | nil => exact fun x h => h
    | cons step rest ih => exact fun x h => ih _ (h.take step)
  exact hrun _ hstart

theorem foldl_take_step (steps : List LockStep) (x : Waking) :
    (steps.map WakeStep.step).foldl take x = { x with locks := x.locks.after steps } := by
  induction steps generalizing x with
  | nil => rfl
  | cons step rest ih => exact ih _

theorem heard_of_reached (c : LockConfig) (steps : List LockStep) :
    Heard { locks := LockManager.reached c steps } := by
  have h := heard_reached c (steps.map WakeStep.step)
  rw [reached, foldl_take_step] at h
  exact h

end Waking

namespace LockManager

/-- Whatever the threads did, a request that sleeps and was not woken since it last tried asks for
a page that another transaction holds in a conflicting mode; and once the woken ones have tried
again, in whatever order, this is so of all, and none would be granted. With steps in between that
give a page up and that wake its sleepers, it is so of those whose page is not due. -/
theorem wake_ups_are_heard (c : LockConfig) :
    (∀ steps : List LockStep,
      (∀ s ∈ (reached c steps).sleepers, s.woken = false →
        ∃ u k, u ≠ s.txn ∧ (reached c steps).modeOf s.page u = some k ∧
          k.compatible s.mode = false) ∧
      ∀ order, order.Perm (reached c steps).woken →
        ∀ s ∈ ((reached c steps).after (retries order)).sleepers, s.woken = false ∧
          (((reached c steps).after (retries order)).attempt s.txn s.page s.mode).2 ≠ .granted) ∧
    ∀ steps : List WakeStep, ∀ s ∈ (Waking.reached c steps).locks.sleepers, s.woken = false →
      s.page ∉ (Waking.reached c steps).due →
        ∃ u k, u ≠ s.txn ∧ (Waking.reached c steps).locks.modeOf s.page u = some k ∧
          k.compatible s.mode = false := by
  refine ⟨fun steps => ⟨fun s hs hw => ?_, fun order horder s hs => ?_⟩, fun steps => ?_⟩
  · exact (Waking.heard_of_reached c steps).blocked s hs hw List.not_mem_nil
  · have hw := unwoken_of_woken_eq_nil (woken_after horder) hs
    have hlater : (reached c steps).after (retries order) = reached c (steps ++ retries order) :=
      (List.foldl_append ..).symm
    rw [hlater] at hs ⊢
    have hheard := Waking.heard_of_reached c (steps ++ retries order)
    exact ⟨hw, (attempt_ne_granted_iff hheard.holders).2
      (hheard.blocked s hs hw List.not_mem_nil)⟩
  · exact (Waking.heard_reached c steps).blocked

/-- Two transactions share a page, and the second one has another page too. A writer sleeps for the
first page, and then the first transaction asks to be raised on it. -/
def contended : List LockStep :=
  [.action (.request ⟨1⟩ ⟨⟨0⟩, 0⟩ .shared), .action (.request ⟨2⟩ ⟨⟨0⟩, 0⟩ .shared),
    .action (.request ⟨2⟩ ⟨⟨0⟩, 1⟩ .exclusive), .action (.request ⟨3⟩ ⟨⟨0⟩, 0⟩ .exclusive),
    .action (.request ⟨1⟩ ⟨⟨0⟩, 0⟩ .exclusive)]

/-- The second transaction ends, and the writer tries first: it is blocked by the one that is raised
after it. It is blocked as well while the second transaction has only left its other page. -/
theorem writer_sleeps_on :
    [⟨⟨3⟩, ⟨⟨0⟩, 0⟩, .exclusive, true⟩, ⟨⟨1⟩, ⟨⟨0⟩, 0⟩, .exclusive, true⟩].Perm
        (reached {} (contended ++ [.action (.releaseAll ⟨2⟩)])).woken ∧
      (((reached {} (contended ++ [.action (.releaseAll ⟨2⟩)])).after (retries
        [⟨⟨3⟩, ⟨⟨0⟩, 0⟩, .exclusive, true⟩, ⟨⟨1⟩, ⟨⟨0⟩, 0⟩, .exclusive, true⟩])).attempt
          ⟨3⟩ ⟨⟨0⟩, 0⟩ .exclusive).2 ≠ .granted ∧
      ∃ u k, u ≠ ⟨3⟩ ∧ (Waking.reached {} (contended.map .step ++
          [.step (.disown ⟨2⟩), .vacate ⟨2⟩ ⟨⟨0⟩, 1⟩])).locks.modeOf ⟨⟨0⟩, 0⟩ u = some k ∧
        k.compatible .exclusive = false := by
  have horder : [⟨⟨3⟩, ⟨⟨0⟩, 0⟩, .exclusive, true⟩, ⟨⟨1⟩, ⟨⟨0⟩, 0⟩, .exclusive, true⟩].Perm
      (reached {} (contended ++ [.action (.releaseAll ⟨2⟩)])).woken := by decide +kernel
  refine ⟨horder, ?_, ?_⟩
  · exact (((wake_ups_are_heard {}).1 _).2 _ horder
      ⟨⟨3⟩, ⟨⟨0⟩, 0⟩, .exclusive, false⟩ (by decide +kernel)).2
  · exact (wake_ups_are_heard {}).2 _ ⟨⟨3⟩, ⟨⟨0⟩, 0⟩, .exclusive, false⟩ (by decide +kernel) rfl
      (by decide +kernel)

end LockManager
end PageStore

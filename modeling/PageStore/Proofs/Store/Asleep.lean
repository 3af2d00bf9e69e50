import PageStore.Proofs.Store.Answers

/-!
# PageStore.Proofs.Store.Asleep

Who falls asleep. A transaction is put to sleep by a step of its own call that has to wait, and by
nothing that others do, so a call that is awake stays so until it waits itself
(`Lawful.awake_of_act`, `Lawful.awake_of_next`). Unless the store is dropped it is then still the
same call (`calls_of_others`).
-/

namespace PageStore

open LockManager

namespace Store

variable {s : Store} {p : PageId} {t : TxnId}

/-- An attempt to lock a page puts nobody else to sleep. -/
theorem asleep_of_decided {c : Call} {u : TxnId} {q : PageId} {k : LockMode} (hs : s.Sound)
    (hc : c.Marks) {r : LockManager × Verdict} (htried : Tried s.locks r.1 u p c.mode r.2)
    (hne : u ≠ t) (h : (s.decided u p c.mode c r).1.locks.Asleep t q k) :
    s.locks.Asleep t q k := by
  obtain ⟨_, hlocks, _⟩ := decided_goes hs hc htried
  rw [hlocks] at h
  rcases htried.asleep_cases h with ⟨_, hold⟩ | ⟨_, hu, _⟩
  · exact hold
  · exact absurd hu.symm hne

end Store

namespace Engine

variable {σ : Engine} {t u : TxnId} {a : Action} {c c' : Call} {r : Store × Progress} {p : PageId}
  {m : LockMode}

theorem Lawful.asleep_of_moved (h : Lawful σ) (ha : σ.Allows a) (ho : σ.Regular a)
    (hm : σ.moved? a = some (u, c, r)) (hne : u ≠ t)
    (hsleeps : (σ.act a).store.locks.Asleep t p m) : σ.store.locks.Asleep t p m := by
  rw [(act_of_moved hm).2.1] at hsleeps
  have hsleeps : r.1.locks.Asleep t p m := hsleeps
  have hslept : ∀ {w : Sleeper} {y : LockManager × Verdict}, σ.calls w.txn = some c →
      w ∈ σ.store.locks.sleepers → Tried σ.store.locks y.1 w.txn w.page w.mode y.2 → w.txn ≠ t →
      (σ.store.decided w.txn w.page w.mode c y).1.locks.Asleep t p m →
      σ.store.locks.Asleep t p m := by
    intro w y hc hw htried hne hsleeps
    obtain ⟨c', hc', hmode, _⟩ := h.call_of_sleeper hw
    rw [hc] at hc'
    cases hc'
    rw [← hmode] at htried hsleeps
    exact Store.asleep_of_decided h.sound (h.marks _ _ hc) htried hne hsleeps
  obtain ⟨hcall, ⟨rfl, rfl⟩ | ⟨w, rfl, rfl, rfl⟩ | ⟨w, rfl, rfl, rfl⟩⟩ := moved_cases hm
  · obtain ⟨hs, hk⟩ := Store.aim_spec (W := fun _ => False) h.sound c fun tb htb =>
      ho.2 tb (by simp [appends?, hcall, htb])
    rw [← hk.steady.locks]
    rcases σ.store.step_cases u c with ⟨b, _, hstep⟩ | ⟨c', _, hstep⟩ | ⟨q, k, c', haim, hstep⟩
    · rw [hstep] at hsleeps
      exact hsleeps
    · rw [hstep] at hsleeps
      exact hsleeps
    · obtain ⟨rfl, rfl, _⟩ := Store.aim_page h.sound haim
      have htried := tried_request (p := q) (m := c'.mode) h.orderly ha.2
      rw [← hk.steady.locks] at htried
      rw [hstep] at hsleeps
      exact Store.asleep_of_decided hs (h.marks _ _ hcall) htried hne hsleeps
  · exact hslept hcall ha.1 (tried_retry h.orderly ha.1) hne hsleeps
  · exact hslept hcall ha (tried_expire h.orderly ha) hne hsleeps

/-- Only a step of its own call puts a transaction to sleep. -/
theorem Lawful.asleep_of_act (h : Lawful σ) (ha : σ.Allows a) (ho : σ.Regular a)
    (hm : ∀ c r, σ.moved? a ≠ some (t, c, r)) (hsleeps : (σ.act a).store.locks.Asleep t p m) :
    σ.store.locks.Asleep t p m := by
  cases hmoved : σ.moved? a with
  | some x =>
    obtain ⟨u, c, r⟩ := x
    refine h.asleep_of_moved ha ho hmoved ?_ hsleeps
    rintro rfl
    exact hm c r hmoved
  | none =>
    have hturn := (h.act ha ho).2.2
    cases a with
    | device faults lengthFails => exact hsleeps
    | reorder walk => exact hsleeps
    | call u c => exact hsleeps
    | step u =>
      obtain ⟨c, hc⟩ := Option.isSome_iff_exists.1 ha.1
      simp [moved?, hc] at hmoved
    | resume w =>
      obtain ⟨c, hc, _⟩ := h.call_of_sleeper ha.1
      simp [moved?, hc] at hmoved
    | expire w =>
      obtain ⟨c, hc, _⟩ := h.call_of_sleeper ha
      simp [moved?, hc] at hmoved
    | commit u =>
      have hlocks := (Store.flushed_spec (t := u) h.sound).2.1.steady.locks
      simp only [Engine.act] at hsleeps
      rcases σ.store.commit_cases u with ⟨e, _, hc⟩ | ⟨_, hc⟩
      · rw [hc] at hsleeps
        rwa [hlocks] at hsleeps
      · rw [hc] at hsleeps
        exact (h.frees ha (congrArg (·.releaseAll u) hlocks)).2.2 _ _ _ hsleeps
    | abort u =>
      have hlocks := (Store.restore_spec (t := u) h.sound).2.1.steady.locks
      simp only [Engine.act] at hsleeps
      rcases σ.store.abort_cases u with ⟨e, _, hc⟩ | ⟨_, hc⟩
      · rw [hc] at hsleeps
        rwa [hlocks] at hsleeps
      · rw [hc] at hsleeps
        exact (h.frees ha (congrArg (·.releaseAll u) hlocks)).2.2 _ _ _ hsleeps
    | restart =>
      obtain ⟨w, hw, _⟩ := hsleeps
      have hlocks := h.sound.reopen.2.2.1
      have hw : w ∈ σ.store.reopen.locks.sleepers := hw
      rw [hlocks] at hw
      exact absurd hw List.not_mem_nil
    | flushPage q =>
      cases hturn with
      | flushed _ hlocks => rwa [hlocks] at hsleeps
    | flushOf u =>
      cases hturn with
      | flushed _ hlocks => rwa [hlocks] at hsleeps
    | flushAll =>
      cases hturn with
      | flushed _ hlocks => rwa [hlocks] at hsleeps
    | discard q => exact hsleeps
    | release u q =>
      exact asleep_release.1 hsleeps

theorem Lawful.awake_of_act (h : Lawful σ) (ha : σ.Allows a) (ho : σ.Regular a)
    (hm : ∀ c r, σ.moved? a ≠ some (t, c, r)) (hawake : σ.store.locks.Awake t) :
    (σ.act a).store.locks.Awake t := by
  intro w hw hwt
  have hsleeps := asleep_of_mem hw
  rw [hwt] at hsleeps
  exact hawake.not_asleep (h.asleep_of_act ha ho hm hsleeps)

/-- Unless the store is dropped, a call goes on only by steps of its own. -/
theorem calls_of_others (ha : σ.Allows a) (hr : a ≠ .restart) (hcall : σ.calls t = some c)
    (hm : ∀ d r, σ.moved? a ≠ some (t, d, r)) : (σ.act a).calls t = some c := by
  cases hmoved : σ.moved? a with
  | some y =>
    obtain ⟨u, d, r⟩ := y
    have hne : t ≠ u := by
      rintro rfl
      exact hm d r hmoved
    rw [(act_of_moved hmoved).2.1]
    exact (Function.update_of_ne hne ..).trans hcall
  | none =>
    cases a with
    | call u d =>
      have hne : t ≠ u := by
        rintro rfl
        have hfree : σ.calls t = none := ha
        rw [hcall] at hfree
        cases hfree
      exact (Function.update_of_ne hne ..).trans hcall
    | step u =>
      obtain ⟨d, hd⟩ := Option.isSome_iff_exists.1 ha.1
      simp [moved?, hd] at hmoved
    | resume w =>
      have hfree : σ.calls w.txn = none := by simpa [moved?] using hmoved
      simpa [act, hfree] using hcall
    | expire w =>
      have hfree : σ.calls w.txn = none := by simpa [moved?] using hmoved
      simpa [act, hfree] using hcall
    | restart => exact absurd rfl hr
    | _ => exact hcall

theorem Lawful.awake_of_next (h : Lawful σ) (ho : σ.Regular (.step t)) (hcall : σ.calls t = some c)
    (hawake : σ.store.locks.Awake t) (hnext : (σ.store.step t c).2 = .next c') :
    (σ.store.step t c).1.locks.Awake t := by
  obtain ⟨hs, hk⟩ := Store.aim_spec (W := fun _ => False) h.sound c fun tb htb =>
    ho.2 tb (by simp [appends?, hcall, htb])
  rw [← hk.steady.locks] at hawake
  rcases σ.store.step_cases t c with ⟨b, _, hstep⟩ | ⟨d, _, hstep⟩ | ⟨q, k, d, haim, hstep⟩
  · rw [hstep]
    exact hawake
  · rw [hstep]
    exact hawake
  · obtain ⟨rfl, rfl, _⟩ := Store.aim_page h.sound haim
    have horderly := h.orderly
    rw [← hk.steady.locks] at horderly
    have htried := tried_request (p := q) (m := d.mode) horderly hawake
    obtain ⟨_, hlocks, _⟩ := Store.decided_goes hs (h.marks _ _ hcall) htried
    rw [hstep] at hnext ⊢
    rw [hlocks]
    intro w hw hwt
    rcases htried.asleep_cases (asleep_of_mem hw) with ⟨hne, _⟩ | ⟨hv, _⟩
    · exact hne hwt
    · -- a call that is put to sleep waits
      generalize (σ.store.aim d).1.locks.request t q d.mode = x at hv hnext
      obtain ⟨l, v⟩ := x
      cases hv
      cases hnext

end Engine
end PageStore

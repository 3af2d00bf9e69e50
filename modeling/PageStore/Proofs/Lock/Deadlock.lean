import PageStore.Proofs.Lock.Run

/-!
# PageStore.Proofs.Lock.Deadlock

Which waits the wait-for graph knows, in every reachable state of a lock manager that looks for
deadlocks.

* `Run.refusals_are_real`: every edge goes from a sleeper to a transaction that holds the page in a
  conflicting mode, the edges form no cycle, and a request that is refused for a cycle closes a
  cycle of sleepers that wait for each other.
* `Run.deadlock_iff_late`: the edges are the waits for those transactions that held the page when
  the sleeper last tried. A deadlock that is left standing is one through a later holder.
-/

namespace PageStore
namespace LockManager

open Relation

variable {l l' : LockManager} {c : LockConfig} {es : List LockEvent} {e : LockEvent}
  {t u w x : TxnId} {p q : PageId} {m k : LockMode} {s : Sleeper}

/-- `w` sleeps for `p`, and `u` holds it in a mode that conflicts with the request. -/
def BlockedBy (l : LockManager) (w : TxnId) (p : PageId) (u : TxnId) : Prop :=
  ∃ m k, l.Asleep w p m ∧ u ≠ w ∧ l.modeOf p u = some k ∧ k.compatible m = false

/-- `w` sleeps for a page that `u` holds in a conflicting mode. -/
def WaitsFor (l : LockManager) (w u : TxnId) : Prop := ∃ p, l.BlockedBy w p u

/-- Among holders that are not all out of the way of a request, everyone is in its way. -/
theorem Sound.conflict_of_not_free (h : l.Sound) (hf : ¬ l.Free p t m)
    (hk : l.modeOf p u = some k) : k.compatible m = false := by
  rw [free_iff] at hf
  cases m with
  | exclusive => exact Holders.not_compatible_exclusive k
  | shared =>
    cases k with
    | exclusive => rfl
    | shared =>
      refine absurd (fun v j hv hj => ?_) hf
      cases j with
      | shared => rfl
      | exclusive =>
        have := (h.holders p).eq_of_exclusive hj (u := u) (by rw [modeOf] at hk; rw [hk]; rfl)
        rw [this] at hk
        rw [hk] at hj
        cases hj

theorem raised_conflicts (h : k.compatible m = false) (j : LockMode) :
    (raised (some k) j).compatible m = false := by
  cases k <;> cases m <;> cases j <;> first | rfl | cases h

theorem BlockedBy.of_granted (h : l.BlockedBy w q u) (hw : w ≠ t)
    (hm : ∀ q u, l'.modeOf q u =
      if q = p ∧ u = t then some (raised (l.modeOf p t) m) else l.modeOf q u)
    (hs : ∀ u q k, l'.Asleep u q k ↔ l.Asleep u q k ∧ u ≠ t) : l'.BlockedBy w q u := by
  obtain ⟨j, k, ha, hne, hk, hc⟩ := h
  by_cases hqu : q = p ∧ u = t
  · refine ⟨j, raised (some k) m, (hs _ _ _).2 ⟨ha, hw⟩, hne, ?_, raised_conflicts hc m⟩
    obtain ⟨rfl, rfl⟩ := hqu
    rw [hm, if_pos ⟨rfl, rfl⟩, hk]
  · refine ⟨j, k, (hs _ _ _).2 ⟨ha, hw⟩, hne, ?_, hc⟩
    rw [hm, if_neg hqu, hk]

theorem BlockedBy.congr (h : l.BlockedBy w q u) (hm : l'.modeOf q u = l.modeOf q u)
    (hs : ∀ k, l.Asleep w q k → l'.Asleep w q k) : l'.BlockedBy w q u := by
  obtain ⟨j, k, ha, hne, hk, hc⟩ := h
  exact ⟨j, k, hs _ ha, hne, hm.trans hk, hc⟩

theorem Move.blockedBy (hmv : Move l l' e) (ho : l.Orderly) (hd : l.config.detectDeadlocks = true)
    (h : ∀ w p u, l.graph.Edge w p u → l.BlockedBy w p u) :
    ∀ w p u, l'.graph.Edge w p u → l'.BlockedBy w p u := by
  intro w q u he
  cases hmv with
  | @tried t p m v htried =>
    cases htried with
    | granted _ _ hm hs hg =>
      obtain ⟨hold, hw⟩ := (hg hd _ _ _).1 he
      exact (h _ _ _ hold).of_granted hw hm hs
    | asleep _ hf hm hs hg =>
      rcases ((hg hd).2 _ _ _).1 he with ⟨rfl, rfl, hne, hu⟩ | ⟨hw, hold⟩
      · obtain ⟨k, hk⟩ := Option.isSome_iff_exists.1 hu
        have hasleep : l'.Asleep w q m := (hs _ _ _).2 (.inl ⟨rfl, rfl, rfl⟩)
        exact ⟨m, k, hasleep, hne, (hm _ _).trans hk, ho.sound.conflict_of_not_free hf hk⟩
      · exact (h _ _ _ hold).congr (hm _ _) fun k hk => (hs _ _ _).2 (.inr ⟨hw, hk⟩)
    | refused _ _ hm hs hg =>
      obtain ⟨hold, hw⟩ := (hg hd _ _ _).1 he
      exact (h _ _ _ hold).congr (hm _ _) fun k hk => (hs _ _ _).2 ⟨hk, hw⟩
  | @left t p _ hm hs hg =>
    obtain ⟨hold, hno⟩ := (hg hd _ _ _).1 he
    exact (h _ _ _ hold).congr ((hm _ _).trans (if_neg hno)) fun k hk => (hs _ _ _).2 hk
  | @ended t _ hm hs hg =>
    obtain ⟨hold, _, hu⟩ := (hg hd _ _ _).1 he
    exact (h _ _ _ hold).congr ((hm _ _).trans (if_neg hu)) fun k hk => (hs _ _ _).2 hk

/-! ## Cycles -/

/-- A path over edges that are old unless they leave `t` either is old or passes through `t`. -/
theorem old_or_through {α : Type} {new old : α → α → Prop} {t x y : α}
    (hold : ∀ a b, new a b → a ≠ t → old a b) (h : TransGen new x y) :
    TransGen old x y ∨ (ReflTransGen new x t ∧ TransGen new t y) := by
  induction h with
  | @single b hab =>
    by_cases hx : x = t
    · subst hx
      exact .inr ⟨.refl, .single hab⟩
    · exact .inl (.single (hold _ _ hab hx))
  | @tail b c hpath hbc ih =>
    rcases ih with ih | ⟨hto, hfrom⟩
    · by_cases hb : b = t
      · subst hb
        exact .inr ⟨hpath.to_reflTransGen, .single hbc⟩
      · exact .inl (ih.tail (hold _ _ hbc hb))
    · exact .inr ⟨hto, hfrom.tail hbc⟩

theorem old_until {α : Type} {new old : α → α → Prop} {t x : α}
    (hold : ∀ a b, new a b → a ≠ t → old a b) (h : ReflTransGen new x t) :
    ReflTransGen old x t := by
  induction h using ReflTransGen.head_induction_on with
  | refl => exact .refl
  | @head a b hab _ ih =>
    by_cases ha : a = t
    · rw [ha]
    · exact .head (hold _ _ hab ha) ih

theorem step_of_cycle {α : Type} {r : α → α → Prop} {x y : α} (h : TransGen r x y)
    (hback : ReflTransGen r y x) : TransGen (fun a b => r a b ∧ ReflTransGen r b a) x y := by
  induction h using TransGen.head_induction_on with
  | single hab => exact .single ⟨hab, hback⟩
  | @head a b hab hpath ih =>
    have hrest : ReflTransGen r b a := hpath.to_reflTransGen.trans hback
    exact .head ⟨hab, hrest⟩ (ih (hback.tail hab))

theorem waits_of_edge {g g' : WaitGraph} (h : ∀ w p x, g'.Edge w p x → g.Edge w p x)
    (hw : g'.Waits w u) : g.Waits w u := by
  obtain ⟨p, he⟩ := WaitGraph.waits_iff.1 hw
  exact WaitGraph.waits_iff.2 ⟨p, h _ _ _ he⟩

theorem acyclic_of_fewer {g g' : WaitGraph} (h : ∀ w p x, g'.Edge w p x → g.Edge w p x)
    (hno : ∀ t, ¬ TransGen g.Waits t t) (t : TxnId) : ¬ TransGen g'.Waits t t :=
  fun hc => hno t (TransGen.mono (fun _ _ hab => waits_of_edge h hab) _ _ hc)

theorem Move.acyclic (hmv : Move l l' e) (hd : l.config.detectDeadlocks = true)
    (h : ∀ t, ¬ TransGen l.graph.Waits t t) : ∀ t, ¬ TransGen l'.graph.Waits t t := by
  cases hmv with
  | @tried t p m v htried =>
    cases htried with
    | granted _ _ _ _ hg => exact acyclic_of_fewer (fun w p x he => ((hg hd w p x).1 he).1) h
    | asleep _ _ _ _ hg =>
      obtain ⟨hno, hedge⟩ := hg hd
      intro x hc
      have hold : ∀ a b, l'.graph.Waits a b → a ≠ t → l.graph.Waits a b := by
        intro a b hab ha
        obtain ⟨q, he⟩ := WaitGraph.waits_iff.1 hab
        rcases (hedge _ _ _).1 he with ⟨rfl, _⟩ | ⟨_, he⟩
        · exact absurd rfl ha
        · exact WaitGraph.waits_iff.2 ⟨q, he⟩
      rcases old_or_through hold hc with hc | ⟨hto, hfrom⟩
      · exact h x hc
      · exact hno (hfrom.trans_left hto)
    | refused _ _ _ _ hg => exact acyclic_of_fewer (fun w p x he => ((hg hd w p x).1 he).1) h
  | left _ _ _ hg => exact acyclic_of_fewer (fun w p x he => ((hg hd w p x).1 he).1) h
  | ended _ _ _ hg => exact acyclic_of_fewer (fun w p x he => ((hg hd w p x).1 he).1) h

/-! ## Refusals -/

/-- Edges that stand for real waits, and form no cycle. -/
structure Truthful (l : LockManager) : Prop where
  blocked : ∀ w p u, l.graph.Edge w p u → l.BlockedBy w p u
  acyclic : ∀ t, ¬ TransGen l.graph.Waits t t

theorem Run.truthful (h : Run c es l) (hd : c.detectDeadlocks = true) : l.Truthful := by
  induction h with
  | start =>
    refine ⟨fun w p u he => absurd he (WaitGraph.not_edge_empty _ _ _), fun t hc => ?_⟩
    obtain ⟨u, hw, _⟩ := TransGen.head'_iff.1 hc
    obtain ⟨p, he⟩ := WaitGraph.waits_iff.1 hw
    exact WaitGraph.not_edge_empty _ _ _ he
  | @act es l a hr ha ih =>
    obtain ⟨ho, hc⟩ := hr.orderly
    have hmv := move_of_allows ho ha
    have hd' : l.config.detectDeadlocks = true := by rw [hc]; exact hd
    exact ⟨hmv.blockedBy ho hd' ih.blocked, hmv.acyclic hd' ih.acyclic⟩

/-- What a request that was not granted waits for leads back to it in the graph it would leave
exactly if it does so in the graph as it is. -/
theorem cycle_noted_iff :
    TransGen (l.noted t p).Waits t t ↔
      ∃ u, u ≠ t ∧ (l.modeOf p u).isSome ∧ ReflTransGen l.graph.Waits u t := by
  have hold : ∀ a b, (l.noted t p).Waits a b → a ≠ t → l.graph.Waits a b := by
    intro a b hab ha
    obtain ⟨q, he⟩ := WaitGraph.waits_iff.1 hab
    rcases edge_noted.1 he with ⟨rfl, _⟩ | ⟨_, he⟩
    · exact absurd rfl ha
    · exact WaitGraph.waits_iff.2 ⟨q, he⟩
  have hnew : ∀ a b, a ≠ t ∧ l.graph.Waits a b → (l.noted t p).Waits a b := by
    rintro a b ⟨ha, hab⟩
    obtain ⟨q, he⟩ := WaitGraph.waits_iff.1 hab
    exact WaitGraph.waits_iff.2 ⟨q, edge_noted.2 (.inr ⟨ha, he⟩)⟩
  constructor
  · intro hc
    obtain ⟨u, htu, hpath⟩ := TransGen.head'_iff.1 hc
    obtain ⟨q, he⟩ := WaitGraph.waits_iff.1 htu
    rcases edge_noted.1 he with ⟨_, _, hne, hu⟩ | ⟨hne, _⟩
    · exact ⟨u, hne, hu, old_until hold hpath⟩
    · exact absurd rfl hne
  · rintro ⟨u, hne, hu, hpath⟩
    have hstays : ReflTransGen (fun a b => a ≠ t ∧ l.graph.Waits a b) u t :=
      old_until (fun a b hab ha => ⟨ha, hab⟩) hpath
    refine .head' (WaitGraph.waits_iff.2 ⟨p, edge_noted.2 (.inl ⟨rfl, rfl, hne, hu⟩)⟩) ?_
    exact ReflTransGen.mono hnew _ _ hstays

/-- Whether an action ends in a refusal because of a cycle, and not because time has run out. -/
def refusesCycle (l : LockManager) : LockAction → Prop
  | .request t p m => (l.request t p m).2 = .refused
  | .retry s => (l.retry s).2 = .refused
  | .expire s => (l.expire s).2 = .refused ∧ l.runsOut s = false
  | .release _ _ => False
  | .releaseAll _ => False

theorem refused_of_refusesCycle {a : LockAction} (h : l.Orderly) (ha : l.Allows a)
    (htry : a.tries = some (t, p, m)) (hr : l.refusesCycle a) :
    l.MayTry t p m ∧ (l.attempt t p m).2 = .refused := by
  cases a with
  | request t p m =>
    cases htry
    refine ⟨Awake.mayTry ha, ?_⟩
    cases hv : (l.attempt t p m).2 with
    | granted =>
      rw [refusesCycle, request_of_ne_asleep (by simp [hv]), hv] at hr
      cases hr
    | asleep =>
      rw [refusesCycle, request_of_asleep hv] at hr
      cases hr
    | refused => rfl
  | retry s =>
    cases htry
    refine ⟨mayTry_of_mem h.once ha.1, ?_⟩
    cases hv : (l.attempt s.txn s.page s.mode).2 with
    | granted =>
      rw [refusesCycle, retry_of_granted hv] at hr
      cases hr
    | asleep =>
      rw [refusesCycle, retry_of_asleep hv] at hr
      cases hr
    | refused => rfl
  | expire s =>
    cases htry
    refine ⟨mayTry_of_mem h.once ha, ?_⟩
    obtain ⟨hv, hno⟩ := hr
    cases hv' : (l.attempt s.txn s.page s.mode).2 with
    | granted =>
      rw [expire_of_granted hv'] at hv
      cases hv
    | asleep => simp [runsOut, hv'] at hno
    | refused => rfl
  | release p t => cases htry
  | releaseAll t => cases htry

/-- With detection on, every edge is a real wait, the edges form no cycle, and a request that is
refused because of a cycle closes a cycle of sleepers, each waiting for a page that the next one
holds. -/
theorem Run.refusals_are_real (h : Run c es l) (hd : c.detectDeadlocks = true) :
    (∀ w p u, l.graph.Edge w p u → l.BlockedBy w p u) ∧
      (∀ t, ¬ TransGen l.graph.Waits t t) ∧
      ∀ a t p m, l.Allows a → a.tries = some (t, p, m) → l.refusesCycle a →
        ∃ u k, u ≠ t ∧ l.modeOf p u = some k ∧ k.compatible m = false ∧
          TransGen l.WaitsFor u t := by
  have htrue := h.truthful hd
  obtain ⟨ho, _⟩ := h.orderly
  refine ⟨htrue.blocked, htrue.acyclic, fun a t p m ha htry hr => ?_⟩
  obtain ⟨_, hv⟩ := refused_of_refusesCycle ho ha htry hr
  obtain ⟨u, hne, hu, hpath⟩ := cycle_noted_iff.1 (graph_of_refused hv).2.1
  obtain ⟨k, hk⟩ := Option.isSome_iff_exists.1 hu
  have hfree : ¬ l.Free p t m := not_free_of_ne_granted ho.sound (by simp [hv])
  have hreal : ∀ a b, l.graph.Waits a b → l.WaitsFor a b := by
    intro a b hab
    obtain ⟨q, he⟩ := WaitGraph.waits_iff.1 hab
    exact ⟨q, htrue.blocked _ _ _ he⟩
  refine ⟨u, k, hne, hk, ho.sound.conflict_of_not_free hfree hk, ?_⟩
  rcases ReflTransGen.cases_head hpath with rfl | ⟨v, huv, hpath⟩
  · exact absurd rfl hne
  · exact .head' (hreal _ _ huv) (ReflTransGen.mono hreal _ _ hpath)

/-- Two transactions each hold a page that the other one asks for next. -/
def ring : List LockAction :=
  [.request ⟨1⟩ ⟨⟨0⟩, 0⟩ .exclusive, .request ⟨2⟩ ⟨⟨0⟩, 1⟩ .exclusive,
    .request ⟨1⟩ ⟨⟨0⟩, 1⟩ .exclusive]

theorem ring_closes :
    (play {} ring).2.refusesCycle (.request ⟨2⟩ ⟨⟨0⟩, 0⟩ .shared) ∧
      ∃ u k, u ≠ ⟨2⟩ ∧ (play {} ring).2.modeOf ⟨⟨0⟩, 0⟩ u = some k ∧
        k.compatible .shared = false ∧ TransGen (play {} ring).2.WaitsFor u ⟨2⟩ := by
  have hrun : Run {} (play {} ring).1 (play {} ring).2 := run_play (by decide +kernel)
  have hclose : (play {} ring).2.refusesCycle (.request ⟨2⟩ ⟨⟨0⟩, 0⟩ .shared) := by
    change ((play {} ring).2.request ⟨2⟩ ⟨⟨0⟩, 0⟩ .shared).2 = .refused
    decide +kernel
  refine ⟨hclose, ?_⟩
  exact (hrun.refusals_are_real rfl).2.2 _ _ _ _ (by decide +kernel) rfl hclose

/-! ## Waits that are not noted -/

/-- `w` sleeps for `p`, and `u` holds it in a conflicting mode that it came to after `w` last
tried. -/
def LateFor (l : LockManager) (es : List LockEvent) (w : TxnId) (p : PageId) (u : TxnId) : Prop :=
  l.BlockedBy w p u ∧ joinedSince w u p es

/-- Every wait for a transaction that held the page at the last try is noted. -/
def Noted (l : LockManager) (es : List LockEvent) : Prop :=
  ∀ w p u m, l.Asleep w p m → u ≠ w → (l.modeOf p u).isSome → ¬ joinedSince w u p es →
    l.graph.Edge w p u

/-- No wait for a transaction that came later is noted. -/
def NoneLate (l : LockManager) (es : List LockEvent) : Prop :=
  ∀ w p u, l.graph.Edge w p u → ¬ joinedSince w u p es

theorem joinedSince_cons (h : joinedSince w u p es) (he : e ≠ .blocked w p) :
    joinedSince w u p (e :: es) := .inr ⟨he, h⟩

theorem not_joinedSince_cons (h : ¬ joinedSince w u p es) (he : e ≠ .joined u p) :
    ¬ joinedSince w u p (e :: es) := by
  rintro (hj | ⟨_, hj⟩)
  · exact he hj
  · exact h hj

theorem Move.noted (hmv : Move l l' e) (hd : l.config.detectDeadlocks = true)
    (h : l.Noted es) : l'.Noted (e :: es) := by
  intro w q u j ha hne hu hj
  cases hmv with
  | @tried t p m v htried =>
    cases htried with
    | granted _ _ hm hs hg =>
      obtain ⟨hold, hw⟩ := (hs _ _ _).1 ha
      refine (hg hd _ _ _).2 ⟨h w q u j hold hne ?_ fun hjo => hj (joinedSince_cons hjo ?_), hw⟩
      · rw [hm] at hu
        by_cases hqu : q = p ∧ u = t
        · obtain ⟨rfl, rfl⟩ := hqu
          unfold LockManager.tried at hj
          by_cases hheld : (l.modeOf q u).isSome = true
          · exact hheld
          · rw [if_neg hheld] at hj
            exact absurd (.inl rfl) hj
        · rw [if_neg hqu] at hu
          exact hu
      · dsimp only [LockManager.tried]
        split <;> simp
    | asleep _ _ hm hs hg =>
      rw [hm] at hu
      rcases (hs _ _ _).1 ha with ⟨rfl, rfl, rfl⟩ | ⟨hw, hold⟩
      · exact ((hg hd).2 _ _ _).2 (.inl ⟨rfl, rfl, hne, hu⟩)
      · refine ((hg hd).2 _ _ _).2 (.inr ⟨hw, h w q u j hold hne hu fun hjo => ?_⟩)
        refine hj (joinedSince_cons hjo fun he => hw ?_)
        injection he with he _
        exact he.symm
    | refused _ _ hm hs hg =>
      obtain ⟨hold, hw⟩ := (hs _ _ _).1 ha
      rw [hm] at hu
      refine (hg hd _ _ _).2 ⟨h w q u j hold hne hu fun hjo => ?_, hw⟩
      exact hj (joinedSince_cons hjo (by simp [LockManager.tried]))
  | @left t p _ hm hs hg =>
    rw [hm] at hu
    by_cases hqu : q = p ∧ u = t
    · rw [if_pos hqu] at hu
      cases hu
    · rw [if_neg hqu] at hu
      refine (hg hd _ _ _).2 ⟨h w q u j ((hs _ _ _).1 ha) hne hu fun hjo => ?_, hqu⟩
      exact hj (joinedSince_cons hjo (by simp))
  | @ended t hawake hm hs hg =>
    rw [hm] at hu
    by_cases hut : u = t
    · rw [if_pos hut] at hu
      cases hu
    · rw [if_neg hut] at hu
      have hold := (hs _ _ _).1 ha
      have hwt : w ≠ t := by
        rintro rfl
        exact hawake.not_asleep hold
      refine (hg hd _ _ _).2 ⟨h w q u j hold hne hu fun hjo => ?_, hwt, hut⟩
      exact hj (joinedSince_cons hjo (by simp))

theorem Move.noneLate (hmv : Move l l' e) (ho : l.Orderly) (hd : l.config.detectDeadlocks = true)
    (h : l.NoneLate es) : l'.NoneLate (e :: es) := by
  intro w q u he
  cases hmv with
  | @tried t p m v htried =>
    cases htried with
    | granted _ _ hm hs hg =>
      obtain ⟨hold, _⟩ := (hg hd _ _ _).1 he
      refine not_joinedSince_cons (h _ _ _ hold) fun hev => ?_
      unfold LockManager.tried at hev
      by_cases hheld : (l.modeOf p t).isSome = true
      · rw [if_pos hheld] at hev
        cases hev
      · rw [if_neg hheld] at hev
        cases hev
        exact hheld (ho.edges hd _ _ _ hold).2.2
    | asleep _ _ hm hs hg =>
      rcases ((hg hd).2 _ _ _).1 he with ⟨rfl, rfl, _, _⟩ | ⟨_, hold⟩
      · rintro (hev | ⟨hev, _⟩)
        · cases hev
        · exact hev rfl
      · exact not_joinedSince_cons (h _ _ _ hold) (by simp [LockManager.tried])
    | refused _ _ hm hs hg =>
      exact not_joinedSince_cons (h _ _ _ ((hg hd _ _ _).1 he).1) (by simp [LockManager.tried])
  | @left t p _ hm hs hg =>
    exact not_joinedSince_cons (h _ _ _ ((hg hd _ _ _).1 he).1) (by simp)
  | @ended t _ hm hs hg =>
    exact not_joinedSince_cons (h _ _ _ ((hg hd _ _ _).1 he).1) (by simp)

theorem Run.noted (h : Run c es l) (hd : c.detectDeadlocks = true) :
    l.Noted es ∧ l.NoneLate es := by
  induction h with
  | start =>
    refine ⟨fun w p u m ha => ?_, fun w p u he => absurd he (WaitGraph.not_edge_empty _ _ _)⟩
    obtain ⟨s, hs, _⟩ := ha
    exact absurd hs List.not_mem_nil
  | @act es l a hr ha ih =>
    obtain ⟨ho, hc⟩ := hr.orderly
    have hmv := move_of_allows ho ha
    have hd' : l.config.detectDeadlocks = true := by rw [hc]; exact hd
    exact ⟨hmv.noted hd' ih.1, hmv.noneLate ho hd' ih.2⟩

/-- With detection on, the waits that the graph knows are those for a transaction that held the
page when the sleeper last tried. A cycle of sleepers, each waiting for a page that the next one
holds, stands exactly if one of them waits for a transaction that came later, and from which the
waits lead back to it. -/
theorem Run.deadlock_iff_late (h : Run c es l) (hd : c.detectDeadlocks = true) :
    (∀ w p u, l.graph.Edge w p u ↔ l.BlockedBy w p u ∧ ¬ l.LateFor es w p u) ∧
      ((∃ t, TransGen l.WaitsFor t t) ↔
        ∃ w p u, l.LateFor es w p u ∧ ReflTransGen l.WaitsFor u w) := by
  have htrue := h.truthful hd
  obtain ⟨hnoted, hlate⟩ := h.noted hd
  have hedge : ∀ w p u, l.graph.Edge w p u ↔ l.BlockedBy w p u ∧ ¬ l.LateFor es w p u := by
    intro w p u
    constructor
    · intro he
      exact ⟨htrue.blocked _ _ _ he, fun hl => hlate _ _ _ he hl.2⟩
    · rintro ⟨hb, hl⟩
      obtain ⟨m, k, ha, hne, hk, hc⟩ := id hb
      exact hnoted w p u m ha hne (by rw [hk]; rfl) fun hj => hl ⟨hb, hj⟩
  refine ⟨hedge, ?_, ?_⟩
  · rintro ⟨t, hcycle⟩
    by_contra hno
    have hknown : ∀ a b, l.WaitsFor a b ∧ ReflTransGen l.WaitsFor b a → l.graph.Waits a b := by
      rintro a b ⟨⟨p, hab⟩, hback⟩
      refine WaitGraph.waits_iff.2 ⟨p, (hedge _ _ _).2 ⟨hab, fun hl => hno ?_⟩⟩
      exact ⟨a, p, b, hl, hback⟩
    exact htrue.acyclic t (TransGen.mono hknown _ _ (step_of_cycle hcycle .refl))
  · rintro ⟨w, p, u, ⟨hb, _⟩, hback⟩
    exact ⟨w, .head' ⟨p, hb⟩ hback⟩

/-- A reader joins another one while a writer sleeps for the page, and then asks for the page that
the writer holds. -/
def stall : List LockAction :=
  [.request ⟨2⟩ ⟨⟨0⟩, 0⟩ .shared, .request ⟨1⟩ ⟨⟨0⟩, 1⟩ .exclusive,
    .request ⟨1⟩ ⟨⟨0⟩, 0⟩ .exclusive, .request ⟨3⟩ ⟨⟨0⟩, 0⟩ .shared,
    .request ⟨3⟩ ⟨⟨0⟩, 1⟩ .exclusive]

theorem run_stall : Run {} (play {} stall).1 (play {} stall).2 := run_play (by decide +kernel)

theorem waitsFor_stall (w u : TxnId) (p : PageId) (m k : LockMode)
    (h : (play {} stall).2.Asleep w p m ∧ u ≠ w ∧ (play {} stall).2.modeOf p u = some k ∧
      k.compatible m = false) : (play {} stall).2.WaitsFor w u := ⟨p, m, k, h⟩

theorem writer_waitsFor_reader : (play {} stall).2.WaitsFor ⟨1⟩ ⟨3⟩ :=
  waitsFor_stall _ _ ⟨⟨0⟩, 0⟩ .exclusive .shared (by decide +kernel)

theorem reader_waitsFor_writer : (play {} stall).2.WaitsFor ⟨3⟩ ⟨1⟩ :=
  waitsFor_stall _ _ ⟨⟨0⟩, 1⟩ .exclusive .exclusive (by decide +kernel)

/-- The writer and the second reader wait for each other, and neither of them is woken. -/
theorem stall_stands :
    Run { detectDeadlocks := true } (play {} stall).1 (play {} stall).2 ∧
      (∀ s ∈ (play {} stall).2.sleepers, s.woken = false) ∧
      TransGen (play {} stall).2.WaitsFor ⟨1⟩ ⟨1⟩ := by
  refine ⟨run_stall, by decide +kernel, ?_⟩
  exact .tail (.single writer_waitsFor_reader) reader_waitsFor_writer

theorem stall_late :
    ∃ w p u, (play {} stall).2.LateFor (play {} stall).1 w p u ∧
      ReflTransGen (play {} stall).2.WaitsFor u w := by
  have hcycle : TransGen (play {} stall).2.WaitsFor ⟨3⟩ ⟨3⟩ :=
    .tail (.single reader_waitsFor_writer) writer_waitsFor_reader
  exact (run_stall.deadlock_iff_late rfl).2.1 ⟨⟨3⟩, hcycle⟩

end LockManager
end PageStore

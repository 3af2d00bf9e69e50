import PageStore.Proofs.Store.Turn

/-!
# PageStore.Proofs.Store.Coherent

The invariant of an engine in which no lock is released out of turn.

* `Turn.owned`: whatever else happens to the pages, who dirtied a page holds it exclusively.
* `Turn.change`: so no page is loose, and what an ordinary action does is a change that writes no
  file but by a commit.
* `Coherent.act`: an ordinary action keeps the invariant, and does to the pages what its event says.
* `Run.guarded`: the invariant holds in every engine that is reached from an opened store, also by
  flushes and discards.
-/

namespace PageStore

/-- What is seen of plain actions. -/
def Event.Plain : Event → Prop
  | .flushed => False
  | .discarded _ => False
  | .released _ _ => False
  | _ => True

/-- Whether an action releases a lock out of turn. -/
def Action.releases : Action → Bool
  | .release _ _ => true
  | _ => false

namespace Store

variable {s s' : Store} {t u : TxnId} {p : PageId} {e : Event} {W : PageId → Prop}

theorem Saves.dirtier_of_some (h : Saves W s s') (hd : s'.dirtier p = some t) :
    s.dirtier p = some t := by
  rcases h.page p with ⟨he, _⟩ | ⟨_, _, he, _⟩
  · exact he.symm.trans hd
  · rw [he] at hd
    cases hd

/-- Unless a lock is released out of turn, who dirtied a page still holds it exclusively. -/
theorem Turn.owned (h : Turn s s' e) (ho : s.Owned) (he : ∀ t p, e ≠ .released t p) :
    s'.Owned := by
  intro p d hd
  cases h with
  | quiet hsaves hretains => exact hretains.exclusive (ho p d (hsaves.dirtier_of_some hd))
  | @edited t e s₁ hsaves hretains hmode hedits =>
    rw [hedits.dirtier] at hd
    by_cases hp : p = e.record.page
    · rw [if_pos hp] at hd
      cases hd
      rw [hp]
      exact hmode
    · rw [if_neg hp] at hd
      exact hretains.exclusive (ho p d (hsaves.dirtier_of_some hd))
  | halted hsaves hlocks =>
    rw [hlocks]
    exact ho p d (hsaves.dirtier_of_some hd)
  | committed hsaves hfrees hdone =>
    have hold := hsaves.dirtier_of_some hd
    rw [hfrees, if_neg]
    · exact ho p d hold
    · rintro rfl
      rw [hdone p (writes_of_dirtied hold)] at hd
      cases hd
  | stuck hrev hlocks =>
    rw [hlocks]
    rcases hrev.page p with ⟨he, _⟩ | ⟨_, he, _⟩
    · exact ho p d (he.symm.trans hd)
    · rw [he] at hd
      cases hd
  | @aborted t hfrees _ _ hdirty =>
    rw [hdirty] at hd
    by_cases hp : s.dirtier p = some t
    · rw [if_pos hp] at hd
      cases hd
    · rw [if_neg hp] at hd
      rw [hfrees, if_neg]
      · exact ho p d hd
      · rintro rfl
        exact hp hd
  | restarted _ _ _ hdirty =>
    rw [hdirty] at hd
    cases hd
  | flushed hsaves hlocks =>
    rw [hlocks]
    exact ho p d (hsaves.dirtier_of_some hd)
  | @discarded q hlocks _ _ hdirty =>
    rw [hdirty] at hd
    by_cases hp : p = q
    · rw [if_pos hp] at hd
      cases hd
    · rw [if_neg hp] at hd
      rw [hlocks]
      exact ho p d hd
  | @released t q => exact absurd rfl (he t q)

theorem Change.config (h : Change s s' e) : s'.config = s.config := by
  cases h with
  | quiet hsame _ => exact hsame.config
  | edited hc => exact hc
  | halted hf _ => exact hf.config
  | committed hf _ _ => exact hf.config
  | stuck hrev _ => exact hrev.steady.config
  | aborted hc => exact hc
  | restarted hc => exact hc

theorem Owned.not_loose (h : s.Owned) (p : PageId) : ¬ s.Loose p := by
  rintro ⟨u, hd, hfree⟩
  have hm := h p u hd
  unfold LockManager.holds at hfree
  rw [hm] at hfree
  cases hfree

theorem Saves.same (h : Saves s.Loose s s') (ho : s.Owned) (hconfig : s'.config = s.config) :
    Same s s' := by
  have hpage := fun p => (h.page p).resolve_right fun hp => ho.not_loose p hp.1
  exact ⟨hconfig, h.shown, fun p => (hpage p).2, fun p => (hpage p).1⟩

/-- If dirty pages are locked by who dirtied them, plain actions write back by commits alone. -/
theorem Turn.change (h : Turn s s' e) (ho : s.Owned) (hconfig : s'.config = s.config)
    (he : e.Plain) : Change s s' e := by
  cases h with
  | quiet hsaves hretains =>
    exact .quiet (hsaves.same ho hconfig) fun p u => hretains.exclusive
  | @edited t e s₁ hsaves hretains hmode hedits =>
    have hsame := hsaves.same ho (hedits.steady.config.symm.trans hconfig)
    refine .edited hconfig (fun p u => hretains.exclusive) hmode
      (fun p => (hedits.onDisk p).trans (hsame.onDisk p)) (fun p => ?_) fun p => ?_
    · rw [hedits.shown, hsame.shown]
    · rw [hedits.dirtier, hsame.dirtier]
  | halted hsaves hlocks => exact .halted ⟨hconfig, hsaves.shown, hsaves.page⟩ hlocks
  | committed hsaves hfrees hdone =>
    exact .committed ⟨hconfig, hsaves.shown, hsaves.page⟩ hfrees hdone
  | stuck hrev hlocks => exact .stuck hrev hlocks
  | aborted hfrees hdisk hshown hdirty => exact .aborted hconfig hfrees hdisk hshown hdirty
  | restarted hfree hdisk hshown hdirty => exact .restarted hconfig hfree hdisk hshown hdirty
  | flushed => exact he.elim
  | discarded => exact he.elim
  | released => exact he.elim

end Store

namespace Engine

variable {σ σ₀ : Engine} {es : List Event} {t d : TxnId} {p : PageId} {s : Store} {a : Action}

/-- A lawful engine whose dirty pages are held exclusively by who dirtied them. -/
structure Coherent (σ : Engine) : Prop extends Lawful σ where
  owned : σ.store.Owned

theorem Coherent.dirtier_eq (h : Coherent σ) (hd : σ.store.dirtier p = some d)
    (hm : σ.store.locks.modeOf p t ≠ none) : t = d := by
  exact h.orderly.sound.eq_of_exclusive (h.owned p d hd) hm

theorem plain_ofEdit (t : TxnId) (e? : Option Edit) : (Event.ofEdit t e?).Plain := by
  cases e? <;> trivial

theorem plain_event (σ : Engine) (h : a.Plain) : (σ.event a).Plain := by
  cases a with
  | step t =>
    simp only [event]
    split
    · exact plain_ofEdit _ _
    · trivial
  | resume w =>
    simp only [event]
    split
    · exact plain_ofEdit _ _
    · trivial
  | expire w =>
    simp only [event]
    split
    · exact plain_ofEdit _ _
    · trivial
  | commit t =>
    simp only [event]
    split <;> trivial
  | abort t =>
    simp only [event]
    split <;> trivial
  | device _ _ => trivial
  | reorder _ => trivial
  | call _ _ => trivial
  | restart => trivial
  | flushPage _ => exact h.elim
  | flushOf _ => exact h.elim
  | flushAll => exact h.elim
  | discard _ => exact h.elim
  | release _ _ => exact h.elim

theorem event_ne_released (σ : Engine) (h : a.releases = false) (t : TxnId) (p : PageId) :
    σ.event a ≠ .released t p := by
  have hedit : ∀ u e?, Event.ofEdit u e? ≠ .released t p := by
    intro u e?
    cases e? <;> simp [Event.ofEdit]
  cases a with
  | step u =>
    simp only [event]
    split
    · exact hedit u _
    · simp
  | resume w =>
    simp only [event]
    split
    · exact hedit _ _
    · simp
  | expire w =>
    simp only [event]
    split
    · exact hedit _ _
    · simp
  | commit u =>
    simp only [event]
    split <;> simp
  | abort u =>
    simp only [event]
    split <;> simp
  | release u q => cases h
  | _ => simp [event]

/-- Regular actions that release no lock out of turn. -/
def Guarded (σ : Engine) (a : Action) : Prop := σ.Regular a ∧ a.releases = false

instance (σ : Engine) (a : Action) : Decidable (σ.Guarded a) :=
  inferInstanceAs (Decidable (σ.Regular a ∧ a.releases = false))

theorem Ordinary.guarded (h : σ.Ordinary a) : σ.Guarded a := by
  refine ⟨h.regular, ?_⟩
  cases a with
  | release t p => exact h.1.elim
  | _ => rfl

/-- A guarded action keeps an engine coherent. -/
theorem Coherent.guarded (h : Coherent σ) (ha : σ.Allows a) (ho : σ.Guarded a) :
    Coherent (σ.act a) := by
  obtain ⟨hlawful, _, hturn⟩ := h.toLawful.act ha ho.1
  exact ⟨hlawful, hturn.owned h.owned (σ.event_ne_released ho.2)⟩

/-- An ordinary action does to the pages what its event says. -/
theorem Coherent.act (h : Coherent σ) (ha : σ.Allows a) (ho : σ.Ordinary a) :
    Coherent (σ.act a) ∧ Store.Change σ.store (σ.act a).store (σ.event a) := by
  obtain ⟨_, hlasts, hturn⟩ := h.toLawful.act ha ho.regular
  exact ⟨h.guarded ha ho.guarded, hturn.change h.owned hlasts.config (plain_event σ ho.1)⟩

theorem Coherent.abort (h : Coherent σ) (ht : σ.calls t = none) :
    Coherent (σ.act (.abort t)) ∧
      Store.Change σ.store (σ.act (.abort t)).store (σ.event (.abort t)) :=
  h.act (a := .abort t) ht ⟨trivial, fun _ htb => by cases htb⟩

/-! ## Runs -/

theorem coherent_idle {config : PoolConfig} {v : Volume} (h : Store.Opened config v s) :
    Coherent (idle s) := by
  obtain ⟨_, hcache, _⟩ := h.spec
  refine ⟨lawful_idle h, fun p t hd => ?_⟩
  rw [show (idle s).store.dirtier p = none from Store.dirtier_of_empty hcache p] at hd
  cases hd

theorem Run.guarded {ok : Engine → Action → Prop} (hok : ∀ σ a, ok σ a → Guarded σ a)
    (h₀ : Coherent σ₀) (h : Run ok σ₀ es σ) : Coherent σ := by
  induction h with
  | start => exact h₀
  | act a _ ha hoka ih => exact ih.guarded ha (hok _ _ hoka)

theorem Run.coherent {ok : Engine → Action → Prop} (hok : ∀ σ a, ok σ a → Ordinary σ a)
    (h₀ : Coherent σ₀) (h : Run ok σ₀ es σ) :
    Coherent σ ∧ σ.store.config = σ₀.store.config :=
  ⟨h.guarded (fun σ a ho => (hok σ a ho).guarded) h₀,
    (h.lawful (fun σ a ho => (hok σ a ho).regular) h₀.toLawful).2.config⟩

end Engine
end PageStore

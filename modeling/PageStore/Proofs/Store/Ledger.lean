import PageStore.Proofs.Store.Coherent

/-!
# PageStore.Proofs.Store.Ledger

What transactions have changed, read off the events of a run. An edit is pending until its
transaction ends; a commit settles it, an abort and a restart drop it. `replay` makes the edits of
one page in turn.

`Run.holds_pending` says that a transaction holds every page exclusively that it has edited since
it last ended.
-/

namespace PageStore

/-- The edits of committed transactions, in the order of the commits, and those of each transaction
since it last ended. -/
structure Ledger where
  settled : List Edit := []
  pending : TxnId → List Edit := fun _ => []

namespace Ledger

/-- An event is entered. -/
def enter (l : Ledger) : Event → Ledger
  | .edited t e => { l with pending := Function.update l.pending t (l.pending t ++ [e]) }
  | .committed t =>
    { settled := l.settled ++ l.pending t, pending := Function.update l.pending t [] }
  | .aborted t => { l with pending := Function.update l.pending t [] }
  | .restarted => { l with pending := fun _ => [] }
  | _ => l

/-- The ledger of some events, the latest first. -/
def ofEvents : List Event → Ledger
  | [] => {}
  | e :: earlier => (ofEvents earlier).enter e

theorem mem_update_nil {f : TxnId → List Edit} {t u : TxnId} {x : Edit} :
    x ∈ Function.update f t [] u ↔ u ≠ t ∧ x ∈ f u := by
  by_cases hu : u = t
  · subst hu
    simp
  · simp [hu]

theorem mem_update_concat {f : TxnId → List Edit} {t u : TxnId} {e x : Edit} :
    x ∈ Function.update f t (f t ++ [e]) u ↔ x ∈ f u ∨ (u = t ∧ x = e) := by
  by_cases hu : u = t
  · subst hu
    simp
  · simp [hu]

end Ledger

/-- A page's content after some edits of pages. -/
def replay (p : PageId) : List Edit → Content → Content
  | [], c => c
  | e :: rest, c =>
    replay p rest (if e.record.page = p then Function.update c e.record.slot e.bytes else c)

section Replay

variable {p : PageId} {as bs : List Edit} {c : Content}

theorem replay_append : replay p (as ++ bs) c = replay p bs (replay p as c) := by
  induction as generalizing c with
  | nil => rfl
  | cons e rest ih => exact ih

theorem replay_of_absent (h : ∀ e ∈ as, e.record.page ≠ p) : replay p as c = c := by
  induction as generalizing c with
  | nil => rfl
  | cons e rest ih =>
    have hne : e.record.page ≠ p := h e (by simp)
    have hrest : ∀ e ∈ rest, e.record.page ≠ p := fun e he => h e (by simp [he])
    simp only [replay, if_neg hne]
    exact ih hrest

theorem replay_concat (e : Edit) :
    replay p (as ++ [e]) c =
      if e.record.page = p then Function.update (replay p as c) e.record.slot e.bytes
      else replay p as c := by
  rw [replay_append]
  rfl

end Replay

namespace Store

variable {s s' : Store} {t u : TxnId} {p : PageId} {e : Event} {l : Ledger}

/-- Every page with a pending edit is held exclusively by the transaction that made it. -/
def HoldsPending (l : Ledger) (s : Store) : Prop :=
  ∀ t, ∀ e ∈ l.pending t, s.locks.modeOf e.record.page t = some .exclusive

theorem Firm.holdsPending (h : Firm s s') (hl : HoldsPending l s) : HoldsPending l s' :=
  fun t e he => h e.record.page t (hl t e he)

theorem Frees.holdsPending (h : Frees t s s') (hl : HoldsPending l s) {u : TxnId} {x : Edit}
    (hx : x ∈ Function.update l.pending t [] u) :
    s'.locks.modeOf x.record.page u = some .exclusive := by
  obtain ⟨hu, hx⟩ := Ledger.mem_update_nil.1 hx
  rw [h, if_neg hu]
  exact hl u x hx

theorem Change.holdsPending (h : Change s s' e) (hl : HoldsPending l s) :
    HoldsPending (l.enter e) s' := by
  cases h with
  | quiet _ hfirm => exact hfirm.holdsPending hl
  | @edited t e _ hfirm hmode =>
    intro u x hx
    rcases Ledger.mem_update_concat.1 hx with hx | ⟨rfl, rfl⟩
    · exact hfirm.holdsPending hl u x hx
    · exact hmode
  | halted _ hlocks => exact (firm_of_eq hlocks).holdsPending hl
  | committed _ hfrees _ => exact fun u x hx => hfrees.holdsPending hl hx
  | stuck _ hlocks => exact (firm_of_eq hlocks).holdsPending hl
  | aborted _ hfrees => exact fun u x hx => hfrees.holdsPending hl hx
  | restarted =>
    intro u x hx
    cases hx

end Store

namespace Engine

variable {σ σ₀ : Engine} {es : List Event}

theorem Run.holds_pending {ok : Engine → Action → Prop} (hok : ∀ σ a, ok σ a → Ordinary σ a)
    (h₀ : Coherent σ₀) (h : Run ok σ₀ es σ) :
    Store.HoldsPending (.ofEvents es) σ.store := by
  induction h with
  | start =>
    intro t e he
    cases he
  | act a hrun ha hoka ih =>
    have hcoh := (hrun.coherent hok h₀).1
    exact (hcoh.act ha (hok _ _ hoka)).2.holdsPending ih

end Engine
end PageStore

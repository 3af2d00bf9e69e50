import PageStore.Proofs.Store.Ledger

/-!
# PageStore.Proofs.Store.Abort

What an abort leaves behind. While a transaction holds a page (`Tenure`) nobody else changes it, and
its file is written by commits alone. An abort gives the page back what the file has, so it takes
back everything that the transaction did to the page since the last of these commits, and nothing
of what it did before (`Run.abort_takes_back`). If commits write back their own pages only and those
of the transaction did not fail, that is everything (`Run.abort_leaves_no_trace`).

If commits write back every dirty page, the commit of any other transaction is enough to make what
a transaction did so far outlast its abort (`abort_leaves_trace`).
-/

namespace PageStore

/-- The transaction whose commit an event tells of, successful or not. -/
def Event.commit? : Event → Option TxnId
  | .committed t => some t
  | .halted t => some t
  | _ => none

namespace Store

variable {s s' : Store} {t u : TxnId} {p : PageId} {e : Event} {c : Content} {f : FrameId}
  {page : Page}

/-- A page shows a content to whoever fetches it, and its file stores the same. -/
structure Reads (s : Store) (p : PageId) (c : Content) : Prop where
  shown : s.shown p = c
  onDisk : s.onDisk p = c
  fetched : ∀ f page, (s.fetch p).2 = .ok (f, page) → page.Holds c
  read : ∀ page, (s.readPage p).2 = .ok page → page.Holds c

theorem Sound.reads (hs : s.Sound) (hshown : s.shown p = c) (hdisk : s.onDisk p = c) :
    s.Reads p c where
  shown := hshown
  onDisk := hdisk
  fetched f page h := Page.holds_of_stored ((fetch_shows hs h).trans hshown)
  read page h := by
    obtain ⟨_, hread⟩ := readPage_spec s p
    exact Page.holds_of_stored ((hread page h).2.2.1.trans hdisk)

/-- Who comes to hold a page does so in an action that takes no lock away and writes no file. -/
theorem Change.joined (h : Change s s' e) (hn : s.locks.modeOf p t = none)
    (hm : s'.locks.modeOf p t ≠ none) : Firm s s' ∧ s'.onDisk p = s.onDisk p := by
  cases h with
  | quiet hsame hfirm => exact ⟨hfirm, hsame.onDisk p⟩
  | edited _ hfirm _ hdisk => exact ⟨hfirm, hdisk p⟩
  | halted _ hlocks =>
    rw [hlocks] at hm
    exact absurd hn hm
  | committed _ hfrees _ =>
    rw [hfrees, hn, ite_self] at hm
    exact absurd rfl hm
  | stuck _ hlocks =>
    rw [hlocks] at hm
    exact absurd hn hm
  | aborted _ hfrees =>
    rw [hfrees, hn, ite_self] at hm
    exact absurd rfl hm
  | restarted _ hfree => exact absurd (hfree p t) hm

theorem Change.written (h : Change s s' e) (hc : e.commit? = some u) (hd : s.dirtier p ≠ none)
    (hd' : s'.dirtier p = none) : s'.onDisk p = s.shown p ∧ s.Writes u p := by
  have hflushes : Flushes u s s' := by
    cases h with
    | halted hf _ =>
      cases hc
      exact hf
    | committed hf _ _ =>
      cases hc
      exact hf
    | _ => cases hc
  rcases hflushes.page p with ⟨he, _⟩ | ⟨hw, _, _, hdisk⟩
  · rw [he] at hd'
    exact absurd hd' hd
  · exact ⟨hdisk, hw⟩

theorem Change.not_written (h : Change s s' e)
    (hno : ¬ (e.commit?.isSome ∧ s.dirtier p ≠ none ∧ s'.dirtier p = none)) :
    s'.onDisk p = s.onDisk p := by
  have hkept : ∀ u, Flushes u s s' → e.commit?.isSome → s'.onDisk p = s.onDisk p := by
    intro u hf hc
    rcases hf.page p with ⟨_, hdisk⟩ | ⟨_, hd, hd', _⟩
    · exact hdisk
    · exact absurd ⟨hc, hd, hd'⟩ hno
  cases h with
  | quiet hsame _ => exact hsame.onDisk p
  | edited _ _ _ hdisk => exact hdisk p
  | halted hf _ => exact hkept _ hf rfl
  | committed hf _ _ => exact hkept _ hf rfl
  | stuck hrev _ => exact hrev.onDisk p
  | aborted _ _ hdisk => exact hdisk p
  | restarted _ _ hdisk => exact hdisk p

/-- A commit after which its transaction still holds a page has failed. -/
theorem Change.halted_of_held (h : Change s s' e) (hc : e.commit? = some t)
    (hm : s'.locks.modeOf p t ≠ none) : e = .halted t := by
  cases h with
  | halted =>
    cases hc
    rfl
  | committed _ hfrees _ =>
    cases hc
    rw [hfrees, if_pos rfl] at hm
    exact absurd rfl hm
  | _ => cases hc

end Store

namespace Engine

variable {σ σ₀ : Engine} {es : List Event} {t d : TxnId} {p : PageId} {a : Action}
  {before : Content} {ws : List (Event × Content)}

def WritesBack (σ : Engine) (a : Action) (p : PageId) : Prop :=
  (σ.event a).commit?.isSome ∧ σ.store.dirtier p ≠ none ∧ (σ.act a).store.dirtier p = none

/-- The part of a run since `t` has come to hold a page, with what the page showed before, and the
commits that have written it back since, each with what it wrote, the latest first. -/
inductive Tenure (σ₀ : Engine) (t : TxnId) (p : PageId) :
    Content → List (Event × Content) → List Event → Engine → Prop where
  | taken {es : List Event} {σ : Engine} {a : Action} :
      Run Ordinary σ₀ es σ → σ.Allows a → σ.Ordinary a →
      σ.store.locks.modeOf p t = none → (σ.act a).store.locks.modeOf p t ≠ none →
      Tenure σ₀ t p (σ.store.shown p) [] (σ.event a :: es) (σ.act a)
  | kept {before : Content} {ws : List (Event × Content)} {es : List Event} {σ : Engine}
      {a : Action} :
      Tenure σ₀ t p before ws es σ → σ.Allows a → σ.Ordinary a →
      (σ.act a).store.locks.modeOf p t ≠ none → ¬ σ.WritesBack a p →
      Tenure σ₀ t p before ws (σ.event a :: es) (σ.act a)
  | written {before : Content} {ws : List (Event × Content)} {es : List Event} {σ : Engine}
      {a : Action} :
      Tenure σ₀ t p before ws es σ → σ.Allows a → σ.Ordinary a →
      (σ.act a).store.locks.modeOf p t ≠ none → σ.WritesBack a p →
      Tenure σ₀ t p before ((σ.event a, σ.store.shown p) :: ws) (σ.event a :: es) (σ.act a)

def lastWritten (before : Content) : List (Event × Content) → Content
  | [] => before
  | (_, c) :: _ => c

structure Tenure.Held (t : TxnId) (p : PageId) (before : Content) (ws : List (Event × Content))
    (σ : Engine) : Prop where
  coherent : Coherent σ
  holds : σ.store.locks.modeOf p t ≠ none
  onDisk : σ.store.onDisk p = lastWritten before ws
  writers : ∀ w ∈ ws, w.1 = .halted t ∨ σ.store.config.commitFlush = .allDirty

theorem Tenure.held (h₀ : Coherent σ₀) (h : Tenure σ₀ t p before ws es σ) :
    Tenure.Held t p before ws σ := by
  induction h with
  | @taken es σ a hrun ha ho hn hm =>
    obtain ⟨hcoh, _⟩ := hrun.coherent (fun _ _ => id) h₀
    obtain ⟨hcoh', hchange⟩ := hcoh.act ha ho
    obtain ⟨hfirm, hdisk⟩ := hchange.joined hn hm
    have hclean : σ.store.dirtier p = none := by
      cases hd : σ.store.dirtier p with
      | none => rfl
      | some d =>
        -- who dirtied the page still holds it exclusively, so it is the one that came to hold it
        have hx := hcoh.owned p d hd
        have heq := (hcoh'.orderly.sound.holders p).eq_of_exclusive (hfirm p d hx)
          (Option.isSome_iff_ne_none.2 hm)
        rw [← heq, hn] at hx
        cases hx
    refine ⟨hcoh', hm, ?_, fun w hw => by cases hw⟩
    rw [hdisk, ← hcoh.sound.clean p hclean]
    rfl
  | @kept before ws es σ a _ ha ho hm hno ih =>
    obtain ⟨hcoh', hchange⟩ := ih.coherent.act ha ho
    refine ⟨hcoh', hm, (hchange.not_written hno).trans ih.onDisk, fun w hw => ?_⟩
    rw [hchange.config]
    exact ih.writers w hw
  | @written before ws es σ a _ ha ho hm hw ih =>
    obtain ⟨hcoh', hchange⟩ := ih.coherent.act ha ho
    obtain ⟨hc, hd, hd'⟩ := hw
    obtain ⟨u, hc⟩ := Option.isSome_iff_exists.1 hc
    obtain ⟨hdisk, hwrites⟩ := hchange.written hc hd hd'
    refine ⟨hcoh', hm, hdisk, fun w hw => ?_⟩
    rw [hchange.config]
    rcases List.mem_cons.1 hw with rfl | hw
    · unfold Store.Writes at hwrites
      cases hflush : σ.store.config.commitFlush with
      | allDirty => exact .inr rfl
      | transaction =>
        rw [hflush] at hwrites
        -- the commit is one of the holder itself, which has kept the page
        rw [← ih.coherent.dirtier_eq hwrites ih.holds] at hc
        exact .inl (hchange.halted_of_held hc hm)
    · exact ih.writers w hw

theorem Run.tenure (h₀ : ∀ p t, σ₀.store.locks.modeOf p t = none) (h : Run Ordinary σ₀ es σ)
    (hm : σ.store.locks.modeOf p t ≠ none) : ∃ before ws, Tenure σ₀ t p before ws es σ := by
  induction h with
  | start => exact absurd (h₀ p t) hm
  | @act es σ a hrun ha ho ih =>
    by_cases hn : σ.store.locks.modeOf p t = none
    · exact ⟨_, _, .taken hrun ha ho hn hm⟩
    · obtain ⟨before, ws, htenure⟩ := ih hn
      by_cases hw : σ.WritesBack a p
      · exact ⟨_, _, .written htenure ha ho hm hw⟩
      · exact ⟨_, _, .kept htenure ha ho hm hw⟩

theorem Tenure.mem_events (h : Tenure σ₀ t p before ws es σ) {w : Event × Content} (hw : w ∈ ws) :
    w.1 ∈ es := by
  induction h with
  | taken => cases hw
  | kept _ _ _ _ _ ih => exact List.mem_cons_of_mem _ (ih hw)
  | written _ _ _ _ _ ih =>
    rcases List.mem_cons.1 hw with rfl | hw
    · exact List.mem_cons_self
    · exact List.mem_cons_of_mem _ (ih hw)

theorem Tenure.Held.abort (h : Tenure.Held t p before ws σ) (ht : σ.calls t = none)
    (hok : (σ.store.abort t).2 = .ok ()) :
    (σ.store.abort t).1.Reads p (lastWritten before ws) := by
  obtain ⟨hcoh, hchange⟩ := h.coherent.abort ht
  have hevent : σ.event (.abort t) = .aborted t := by
    simp only [event, hok]
    rfl
  rw [hevent] at hchange
  have hsound : (σ.store.abort t).1.Sound := hcoh.sound
  cases hchange with
  | aborted _ _ hdisk hshown _ =>
    have hdisk' : (σ.store.abort t).1.onDisk p = lastWritten before ws :=
      (hdisk p).trans h.onDisk
    refine hsound.reads ?_ hdisk'
    refine (hshown p).trans ?_
    by_cases hd : σ.store.dirtier p = some t
    · rw [if_pos hd]
      exact h.onDisk
    · rw [if_neg hd, h.coherent.sound.clean p, h.onDisk]
      -- a page that another one dirtied is not held by `t`
      cases hd' : σ.store.dirtier p with
      | none => rfl
      | some d =>
        rw [h.coherent.dirtier_eq hd' h.holds] at hd
        exact absurd hd' hd

/-- A transaction has a tenure on every page that it has edited. -/
theorem Run.tenure_of_pending {config : PoolConfig} {v : Volume} {s₀ : Store}
    (hopen : Store.Opened config v s₀) (h : Run Ordinary (idle s₀) es σ) {e : Edit}
    (he : e ∈ (Ledger.ofEvents es).pending t) :
    ∃ before ws, Tenure (idle s₀) t e.record.page before ws es σ := by
  obtain ⟨_, _, hlocks, _⟩ := hopen.spec
  have hm := h.holds_pending (fun _ _ => id) (coherent_idle hopen) t e he
  refine h.tenure (fun p u => ?_) (by rw [hm]; exact Option.some_ne_none _)
  change s₀.locks.modeOf p u = none
  rw [hlocks]
  exact LockManager.modeOf_start _ _ _

/-- If commits write back their own pages only, and no commit of a transaction has failed, its abort
leaves no trace of it. -/
theorem Run.abort_leaves_no_trace {config : PoolConfig} {v : Volume} {s₀ : Store}
    (hopen : Store.Opened config v s₀) (hmode : config.commitFlush = .transaction)
    (h : Run Ordinary (idle s₀) es σ) (hcommits : .halted t ∉ es) (ht : σ.calls t = none)
    (hok : (σ.store.abort t).2 = .ok ()) {e : Edit} (he : e ∈ (Ledger.ofEvents es).pending t) :
    ∃ before, Tenure (idle s₀) t e.record.page before [] es σ ∧
      (σ.store.abort t).1.Reads e.record.page before := by
  have h₀ := coherent_idle hopen
  obtain ⟨_, _, _, hconfig⟩ := hopen.spec
  obtain ⟨before, ws, htenure⟩ := h.tenure_of_pending hopen he
  have hheld := htenure.held h₀
  have hsame : σ.store.config = config := (h.coherent (fun _ _ => id) h₀).2.trans hconfig
  have hnever : σ.store.config.commitFlush ≠ .allDirty := by
    rw [hsame, hmode]
    exact nofun
  cases ws with
  | nil => exact ⟨before, htenure, hheld.abort ht hok⟩
  | cons w rest =>
    rcases hheld.writers w List.mem_cons_self with hw | hw
    · rw [← hw] at hcommits
      exact absurd (htenure.mem_events List.mem_cons_self) hcommits
    · exact absurd hw hnever

/-- An abort that succeeds gives every page that its transaction has edited, or just holds, back what
the last commit wrote of it while the transaction held it, or else what the page showed before. So
the edits are taken back exactly if these two agree. A commit that wrote such a page was the
transaction's own and failed, or was another one's in a store that writes back every dirty page. -/
theorem Run.abort_takes_back {config : PoolConfig} {v : Volume} {s₀ : Store}
    (hopen : Store.Opened config v s₀) (h : Run Ordinary (idle s₀) es σ) (ht : σ.calls t = none)
    (hok : (σ.store.abort t).2 = .ok ()) :
    (∀ e ∈ (Ledger.ofEvents es).pending t,
      ∃ before ws, Tenure (idle s₀) t e.record.page before ws es σ) ∧
    ∀ p before ws, Tenure (idle s₀) t p before ws es σ →
      (σ.store.abort t).1.Reads p (lastWritten before ws) ∧
      ((σ.store.abort t).1.Reads p before ↔ lastWritten before ws = before) ∧
      ∀ w ∈ ws, w.1 = .halted t ∨ config.commitFlush = .allDirty := by
  have h₀ := coherent_idle hopen
  obtain ⟨_, _, _, hconfig⟩ := hopen.spec
  refine ⟨fun e he => h.tenure_of_pending hopen he, fun p before ws htenure => ?_⟩
  have hheld := htenure.held h₀
  have hreads := hheld.abort ht hok
  refine ⟨hreads, ⟨fun hb => hreads.shown.symm.trans hb.shown, fun heq => ?_⟩, fun w hw => ?_⟩
  · rw [← heq]
    exact hreads
  · have hsame : σ.store.config = config := (h.coherent (fun _ _ => id) h₀).2.trans hconfig
    rw [← hsame]
    exact hheld.writers w hw

/-- A transaction inserts a tuple into a new page and aborts. -/
theorem abort_of_first_insertion :
    ∃ before ws,
      Tenure (idle (Store.sample {})) ⟨1⟩ ⟨⟨0⟩, 0⟩ before ws
        (play (idle (Store.sample {})) (firstInsertion ⟨1⟩ 7)).1
        (play (idle (Store.sample {})) (firstInsertion ⟨1⟩ 7)).2 ∧
      ((play (idle (Store.sample {})) (firstInsertion ⟨1⟩ 7)).2.store.abort ⟨1⟩).1.Reads ⟨⟨0⟩, 0⟩
        (lastWritten before ws) := by
  have hrun : Run Ordinary (idle (Store.sample {}))
      (play (idle (Store.sample {})) (firstInsertion ⟨1⟩ 7)).1
      (play (idle (Store.sample {})) (firstInsertion ⟨1⟩ 7)).2 := run_play (by decide +kernel)
  have hok : ((play (idle (Store.sample {})) (firstInsertion ⟨1⟩ 7)).2.store.abort ⟨1⟩).2 =
      .ok () := by decide +kernel
  obtain ⟨htenures, hreads⟩ :=
    hrun.abort_takes_back (Store.opened_sample {}) (by decide +kernel) hok
  obtain ⟨before, ws, htenure⟩ := htenures ⟨⟨⟨⟨0⟩, 0⟩, 0⟩, some [0, 7, 0]⟩ (by decide +kernel)
  exact ⟨before, ws, htenure, (hreads _ before ws htenure).1⟩

/-- A transaction inserts a tuple, another one that has done nothing commits, and the first one
aborts. -/
def leak : List Action := firstInsertion ⟨1⟩ 7 ++ [.commit ⟨2⟩]

/-- The inserted tuple outlasts the abort, in memory and in the file. -/
theorem abort_leaves_trace :
    Run Ordinary (idle (Store.sample {})) (play (idle (Store.sample {})) leak).1
        (play (idle (Store.sample {})) leak).2 ∧
      ⟨⟨⟨⟨0⟩, 0⟩, 0⟩, some [0, 7, 0]⟩ ∈
        (Ledger.ofEvents (play (idle (Store.sample {})) leak).1).pending ⟨1⟩ ∧
      ((play (idle (Store.sample {})) leak).2.store.abort ⟨1⟩).2 = .ok () ∧
      (Store.sample {}).shown ⟨⟨0⟩, 0⟩ 0 = none ∧
      ((play (idle (Store.sample {})) leak).2.store.abort ⟨1⟩).1.shown ⟨⟨0⟩, 0⟩ 0 =
        some [0, 7, 0] ∧
      ((play (idle (Store.sample {})) leak).2.store.abort ⟨1⟩).1.onDisk ⟨⟨0⟩, 0⟩ 0 =
        some [0, 7, 0] := by
  refine ⟨run_play (by decide +kernel), ?_, ?_, ?_, ?_, ?_⟩ <;> decide +kernel

end Engine
end PageStore

import PageStore.Proofs.Store.Isolation

/-!
# PageStore.Proofs.Store.Records

The record of a tuple whose insertion fails. An insertion that fails for want of its table, its
page's lock, room in the cache, a transfer or a fitting value gives the tuple back as it got it: with
the record that it had before, if any. Only an insertion that has filled a slot and then cannot keep
the frame in the cache takes the record away (`Returned`), and between the actions of an engine that
never happens.

* `step_returned`: one step, whatever the store is.
* `Run.origin`: a call under way is an insertion of this very tuple until it is answered.
* `Fails.last`: a whole insertion, with what others do in the meantime, comes down to its last step.
-/

namespace PageStore

namespace Store

variable {s s' : Store} {t : TxnId} {p : PageId} {m : LockMode} {c c' : Call} {f : FrameId}
  {page : Page} {tb : TableId} {tuple tuple' : Tuple} {marks : Bool} {placing : Placing} {e : Error}
  {r : LockManager × Verdict}

/-- A tuple that an insertion could not insert is as it was, or its frame could not be marked and it
has no record any more. -/
def Returned (s' : Store) (tuple tuple' : Tuple) (e : Error) : Prop :=
  tuple' = tuple ∨
    tuple' = { tuple with record := none } ∧ ∃ s t f, markDirty s t f = (s', .error e)

/-- If a frame cannot be marked the tuple in it loses its record. -/
theorem finishInsert_error
    (h : s.finishInsert t tuple marks f = (s', .done (.inserted tuple' (.error e)))) :
    tuple' = { tuple with record := none } ∧ s.markDirty t f = (s', .error e) := by
  unfold finishInsert at h
  cases marks with
  | false => cases h
  | true =>
    rw [if_pos rfl] at h
    generalize s.markDirty t f = x at h ⊢
    obtain ⟨s₁, y⟩ := x
    cases y with
    | ok u => cases h
    | error e' =>
      cases h
      exact ⟨rfl, rfl⟩

/-- An insertion that has its page fails if the tuple does not fit, or if the frame cannot be marked
when the slot has been filled. -/
theorem use_insert_error
    (h : s.use t f page (.insert tb tuple marks placing) = (s', .done (.inserted tuple' (.error e)))) :
    tuple' = tuple ∨
      tuple' = { tuple with record := none } ∧ ∃ image slot bytes,
        image.stored page.schema = Function.update page.stored slot (some bytes) ∧
        (s.setFrame f { page with image }).markDirty t f = (s', .error e) := by
  simp only [use] at h
  by_cases hfull : page.isFull = true
  · rw [if_pos hfull] at h
    cases h
  · rw [if_neg hfull] at h
    rcases page.insert_cases tuple with ⟨image, e', hi, _⟩ | ⟨image, slot, bytes, hi, hrest⟩
    · rw [hi] at h
      cases h
      exact .inl rfl
    · obtain ⟨_, _, _, hstored⟩ := hrest
      rw [hi] at h
      obtain ⟨hnone, hmark⟩ := finishInsert_error h
      exact .inr ⟨hnone, image, slot, bytes, hstored, hmark⟩

theorem use_returned
    (h : s.use t f page (.insert tb tuple marks placing) = (s', .done (.inserted tuple' (.error e)))) :
    Returned s' tuple tuple' e := by
  rcases use_insert_error h with rfl | ⟨hnone, image, _, _, _, hmark⟩
  · exact .inl rfl
  · exact .inr ⟨hnone, _, t, f, hmark⟩

theorem decided_returned
    (h : s.decided t p m (.insert tb tuple marks placing) r =
      (s', .done (.inserted tuple' (.error e)))) : Returned s' tuple tuple' e := by
  obtain ⟨locks, verdict⟩ := r
  cases verdict with
  | granted =>
    simp only [decided, proceed] at h
    generalize fetch { s with locks } p = x at h
    obtain ⟨s₁, y⟩ := x
    cases y with
    | error e' =>
      cases h
      exact .inl rfl
    | ok found => exact use_returned h
  | asleep => cases h
  | refused =>
    cases h
    exact .inl rfl

theorem call_of_aim (h : (s.aim c).2 = .page p m c') : c' = c := by
  have hsuits := (s.aims c).suits
  rw [h] at hsuits
  cases hsuits
  rfl

/-- However a step of an insertion fails, and whatever the store is. -/
theorem step_returned
    (h : s.step t (.insert tb tuple marks placing) = (s', .done (.inserted tuple' (.error e)))) :
    Returned s' tuple tuple' e := by
  rcases s.step_cases t (.insert tb tuple marks placing) with
    ⟨a, haim, hstep⟩ | ⟨c', haim, hstep⟩ | ⟨p, m, c', haim, hstep⟩
  · obtain ⟨e', rfl⟩ := finish_of_insert haim
    rw [hstep] at h
    cases h
    exact .inl rfl
  · rw [hstep] at h
    cases h
  · rw [hstep, call_of_aim haim] at h
    exact decided_returned h

theorem decided_suits (s : Store) (t : TxnId) (p : PageId) (m : LockMode) (c : Call)
    (r : LockManager × Verdict) : (s.decided t p m c r).2.Suits c := by
  obtain ⟨locks, verdict⟩ := r
  cases verdict with
  | granted =>
    simp only [decided]
    unfold proceed
    split
    · exact .done trivial
    · generalize fetch { s with locks } p = x
      obtain ⟨s₁, y⟩ := x
      cases y with
      | error e => exact .done (c.answers_fail e)
      | ok found => exact use_suits s₁ t found.1 found.2 c
  | asleep => exact .waiting rfl
  | refused => exact .done (c.answers_fail _)

theorem step_suits (s : Store) (t : TxnId) (c : Call) : (s.step t c).2.Suits c := by
  rcases s.step_cases t c with ⟨a, haim, hstep⟩ | ⟨c', haim, hstep⟩ | ⟨p, m, c', haim, hstep⟩
  · rw [hstep]
    exact .done (answers_of_finish haim)
  · rw [hstep]
    exact .next (onward_of_aim haim)
  · rw [hstep, call_of_aim haim]
    exact decided_suits _ t p m c _

end Store

theorem Progress.Suits.origin {c c' : Call} {x : Progress} (h : x.Suits c)
    (hx : x.call? = some c') : c'.origin = c.origin := by
  cases h with
  | next ho =>
    cases hx
    exact ho
  | waiting ho =>
    cases hx
    exact ho
  | done _ => cases hx

namespace Engine

variable {σ σ₀ σ' : Engine} {es : List Event} {t : TxnId} {a : Action} {c c' : Call}
  {r : Store × Progress} {tb : TableId} {tuple tuple' : Tuple} {marks : Bool} {placing : Placing}
  {e : Error} {s₀ : Store} {ok : Engine → Action → Prop}

/-- Actions of some kind while a call of a transaction is under way. -/
def Meanwhile (ok : Engine → Action → Prop) (t : TxnId) (σ : Engine) (a : Action) : Prop :=
  ok σ a ∧ σ.calls t ≠ none

instance [∀ σ a, Decidable (ok σ a)] (σ : Engine) (a : Action) : Decidable (Meanwhile ok t σ a) :=
  inferInstanceAs (Decidable (ok σ a ∧ σ.calls t ≠ none))

/-- An insertion fails, with what others do between its call and its answer. -/
inductive Fails (ok : Engine → Action → Prop) (σ : Engine) (t : TxnId) (tb : TableId)
    (tuple tuple' : Tuple) (e : Error) : Engine → Prop where
  | intro {es : List Event} {σ' : Engine} {a : Action} {c : Call} :
      σ.Allows (.call t (.insertion tb tuple)) →
      Run (Meanwhile ok t) (σ.act (.call t (.insertion tb tuple))) es σ' → σ'.Allows a → ok σ' a →
      σ'.answered? a = some (t, c, .inserted tuple' (.error e)) →
      Fails ok σ t tb tuple tuple' e (σ'.act a)

theorem moved_suits (h : σ.moved? a = some (t, c, r)) : r.2.Suits c := by
  obtain ⟨_, ⟨rfl, rfl⟩ | ⟨w, rfl, rfl, rfl⟩ | ⟨w, rfl, rfl, rfl⟩⟩ := moved_cases h
  · exact σ.store.step_suits _ _
  · exact σ.store.decided_suits _ _ _ _ _
  · exact σ.store.decided_suits _ _ _ _ _

theorem moved_returned (h : σ.moved? a = some (t, .insert tb tuple marks placing, r))
    (hr : r.2 = .done (.inserted tuple' (.error e))) : Store.Returned r.1 tuple tuple' e := by
  obtain ⟨_, ⟨rfl, rfl⟩ | ⟨w, rfl, rfl, rfl⟩ | ⟨w, rfl, rfl, rfl⟩⟩ := moved_cases h
  · exact Store.step_returned (Prod.ext rfl hr)
  · exact Store.decided_returned (Prod.ext rfl hr)
  · exact Store.decided_returned (Prod.ext rfl hr)

/-- A call that is under way is the call that was made, further on. -/
theorem Run.origin (h : Run (Meanwhile ok t) σ₀ es σ) (h₀ : σ₀.calls t = some c) :
    ∀ c', σ.calls t = some c' → c'.origin = c.origin := by
  induction h with
  | start =>
    intro c' hc'
    rw [h₀] at hc'
    cases hc'
    rfl
  | @act es σ a hrun ha ho ih =>
    intro c' hc'
    obtain ⟨c₁, hc₁⟩ := Option.ne_none_iff_exists'.1 ho.2
    have horigin := ih c₁ hc₁
    by_cases hm : ∃ r, σ.moved? a = some (t, c₁, r)
    · obtain ⟨r, hm⟩ := hm
      rw [(act_of_moved hm).2.1] at hc'
      have hc' : Function.update σ.calls t r.2.call? t = some c' := hc'
      rw [Function.update_self] at hc'
      exact ((moved_suits hm).origin hc').trans horigin
    · rcases calls_beside ha hc₁ fun r hr => hm ⟨r, hr⟩ with hnone | ⟨hsame, _⟩
      · rw [hnone] at hc'
        cases hc'
      · rw [hsame] at hc'
        cases hc'
        exact horigin

/-- The last action of a failing insertion goes on with an insertion of this very tuple. -/
theorem Fails.last (h : Fails ok σ t tb tuple tuple' e σ') :
    σ.Allows (.call t (.insertion tb tuple)) ∧
    ∃ es σ₁ a placing r, Run (Meanwhile ok t) (σ.act (.call t (.insertion tb tuple))) es σ₁ ∧
      σ₁.Allows a ∧ ok σ₁ a ∧ σ₁.moved? a = some (t, .insert tb tuple true placing, r) ∧
      r = (σ'.store, .done (.inserted tuple' (.error e))) := by
  cases h with
  | @intro es σ₁ a c₁ hbegin hrun ha ho hans =>
    obtain ⟨s', hm⟩ := moved_of_answered hans
    obtain ⟨hc₁, hact, _⟩ := act_of_moved hm
    have hcall : (σ.act (.call t (.insertion tb tuple))).calls t = some (.insertion tb tuple) :=
      Function.update_self ..
    have horigin := hrun.origin hcall c₁ hc₁
    cases c₁ with
    | insert tb₁ tuple₁ marks placing =>
      cases horigin
      refine ⟨hbegin, es, σ₁, a, placing, _, hrun, ha, ho, hm, ?_⟩
      rw [hact]
      rfl
    | _ => cases horigin

/-- In a lawful engine a frame that an insertion has filled can always be marked. -/
theorem Lawful.returned (h : Lawful σ) (ha : σ.Allows a) (ho : σ.Regular a)
    (hm : σ.moved? a = some (t, .insert tb tuple true placing, r))
    (hr : r.2 = .done (.inserted tuple' (.error e))) : tuple' = tuple := by
  have hout := h.outcome ha ho hm
  cases hout with
  | finish haim =>
    obtain ⟨e', rfl⟩ := Store.finish_of_insert haim
    cases hr
    rfl
  | onward haim => cases hr
  | asks hasks =>
    cases hasks with
    | waits => cases hr
    | failed =>
      cases hr
      rfl
    | locked hlock => cases hlock
    | @used s₁ p f page _ _ _ hserves =>
      rcases Store.use_insert_error (Prod.ext rfl hr) with
        rfl | ⟨_, image, slot, bytes, hstored, hmark⟩
      · rfl
      · obtain ⟨hok, _⟩ := hserves.sound.edit (t := t) { page with image } hserves.copy
          hserves.frame hserves.id_eq rfl hstored
        rw [hmark] at hok
        cases hok

/-- An insertion that fails gives the tuple back with the record that it had, or without a record if
the slot had been filled and the frame could not be kept in the cache, as it may be if somebody else
comes between the two. From an opened store a tuple always comes back as it was, so it has no record
afterwards just if it had none before. -/
theorem failed_insertion_keeps_record (h : Fails ok σ t tb tuple tuple' e σ') :
    (tuple' = tuple ∨ tuple' = { tuple with record := none } ∧
      ∃ s u f, Store.markDirty s u f = (σ'.store, .error e)) ∧
    (∀ {s s' u f v d}, Store.finishInsert s u tuple true f = (s', .done (.inserted v (.error d))) →
      v = { tuple with record := none }) ∧
    ∀ {config v s₀ es}, Store.Opened config v s₀ → Run Regular (idle s₀) es σ →
      (∀ σ a, ok σ a → Regular σ a) →
      tuple' = tuple ∧ (tuple'.record = none ↔ tuple.record = none) := by
  obtain ⟨hbegin, es', σ₁, a, placing, r, hrun', ha, ho, hm, rfl⟩ := h.last
  refine ⟨moved_returned hm rfl, fun hfinish => (Store.finishInsert_error hfinish).1, ?_⟩
  intro config v s₀ es hopen hrun hok
  have hlawful := (hrun.lawful (fun _ _ => id) (lawful_idle hopen)).1
  have hcalled : Lawful (σ.act (.call t (.insertion tb tuple))) :=
    (hlawful.act hbegin ⟨rfl, fun _ htb => by cases htb⟩).1
  have hlast := (hrun'.lawful (fun _ _ ho => hok _ _ ho.1) hcalled).1
  obtain rfl := hlast.returned ha (hok _ _ ho) hm rfl
  exact ⟨rfl, Iff.rfl⟩

/-- The first tuple of the sample table, as its insertion gives it back. -/
def entered : Tuple := { Store.sampleTuple 7 with record := some ⟨⟨⟨0⟩, 0⟩, 0⟩ }

def nearlyPlaced : Engine :=
  (play (idle (Store.sample {})) [.call ⟨1⟩ (.insertion ⟨0⟩ (Store.sampleTuple 7)), .step ⟨1⟩,
    .step ⟨1⟩]).2

def oncePlaced : Engine := nearlyPlaced.act (.step ⟨1⟩)

/-- A second transaction inserts the same tuple, and waits for the page until its time is up. -/
def placedTwice : Engine :=
  (play (oncePlaced.act (.call ⟨2⟩ (.insertion ⟨0⟩ entered))) [.step ⟨2⟩, .step ⟨2⟩]).2

theorem late_insertion_returns_tuple :
    ∃ es tuple' σ', Run Regular (idle (Store.sample {})) es oncePlaced ∧
      Fails Regular oncePlaced ⟨2⟩ ⟨0⟩ entered tuple' (.aborted ⟨2⟩) σ' ∧ tuple' = entered := by
  have hrun : Run Regular (idle (Store.sample {})) _ nearlyPlaced := run_play (by decide +kernel)
  have honce : Run Regular (idle (Store.sample {})) _ oncePlaced :=
    hrun.act (.step ⟨1⟩) (by decide +kernel) (by decide +kernel)
  have hwaits : Run (Meanwhile Regular ⟨2⟩) (oncePlaced.act (.call ⟨2⟩ (.insertion ⟨0⟩ entered))) _
      placedTwice := run_play (by decide +kernel)
  have hfails : Fails Regular oncePlaced ⟨2⟩ ⟨0⟩ entered entered (.aborted ⟨2⟩)
      (placedTwice.act (.expire { txn := ⟨2⟩, page := ⟨⟨0⟩, 0⟩, mode := .exclusive })) :=
    .intro (c := .insert ⟨0⟩ entered true (.searching 0 1)) (by decide +kernel) hwaits
      (by decide +kernel) (by decide +kernel) (by decide +kernel)
  obtain ⟨_, _, hreturned⟩ := failed_insertion_keeps_record hfails
  obtain ⟨hsame, _⟩ := hreturned (Store.opened_sample {}) honce fun _ _ => id
  exact ⟨_, _, _, honce, hfails, hsame⟩

/-- A tuple that has been inserted keeps its record when it is inserted into a table that there is
not, although that fails. -/
theorem record_survives_failure :
    nearlyPlaced.answered? (.step ⟨1⟩) = some (⟨1⟩, .insert ⟨0⟩ (Store.sampleTuple 7) true .appending,
      .inserted entered (.ok 0)) ∧
    Fails Regular oncePlaced ⟨1⟩ ⟨9⟩ entered entered (.tableNotFound ⟨9⟩)
      ((oncePlaced.act (.call ⟨1⟩ (.insertion ⟨9⟩ entered))).act (.step ⟨1⟩)) ∧
    entered.record = some ⟨⟨⟨0⟩, 0⟩, 0⟩ := by
  refine ⟨by decide +kernel, ?_, rfl⟩
  exact .intro (c := .insertion ⟨9⟩ entered) (by decide +kernel) .start (by decide +kernel)
    (by decide +kernel) (by decide +kernel)

end Engine
end PageStore

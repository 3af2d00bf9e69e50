import PageStore.Proofs.Store.Answers

/-!
# PageStore.Proofs.Store.Durable

Commits last, in whichever way they write back. Between the call of a transaction that changes a
record and its commit the record's slot is carried along (`Carries`): the page may be written by
anybody's commit or by a flush, and may leave the cache and come back, but whoever has dirtied it is
the transaction itself, which still holds it exclusively. The commit makes the slot rest
(`Rests`): the file stores what the page shows. From then on nothing but an edit of this very record
changes it, since whatever takes changes back reads the file.

`Run.commit_is_durable` puts the two together, for tuples as they are read from the file.
-/

namespace PageStore

/-- Whether an event takes back or changes again what a transaction has done to a record, or ends
its hold on the page. -/
def Event.Upsets (t : TxnId) (r : RecordId) : Event → Prop
  | .edited u e => u = t ∧ e.record = r
  | .committed u => u = t
  | .stuck u => u = t
  | .aborted u => u = t
  | .restarted => True
  | .discarded p => p = r.page
  | .released u p => u = t ∧ p = r.page
  | _ => False

/-- Whether an event is a change of a record. -/
def Event.Changes (r : RecordId) : Event → Prop
  | .edited _ e => e.record = r
  | _ => False

instance (t : TxnId) (r : RecordId) : (e : Event) → Decidable (e.Upsets t r)
  | .edited u e => inferInstanceAs (Decidable (u = t ∧ e.record = r))
  | .committed u => inferInstanceAs (Decidable (u = t))
  | .stuck u => inferInstanceAs (Decidable (u = t))
  | .aborted u => inferInstanceAs (Decidable (u = t))
  | .restarted => .isTrue trivial
  | .discarded p => inferInstanceAs (Decidable (p = r.page))
  | .released u p => inferInstanceAs (Decidable (u = t ∧ p = r.page))
  | .quiet => .isFalse id
  | .halted _ => .isFalse id
  | .flushed => .isFalse id

instance (r : RecordId) : (e : Event) → Decidable (e.Changes r)
  | .edited _ e => inferInstanceAs (Decidable (e.record = r))
  | .committed _ => .isFalse id
  | .stuck _ => .isFalse id
  | .aborted _ => .isFalse id
  | .restarted => .isFalse id
  | .discarded _ => .isFalse id
  | .released _ _ => .isFalse id
  | .quiet => .isFalse id
  | .halted _ => .isFalse id
  | .flushed => .isFalse id

/-- What is seen of a tuple in a slot of a page, in its normal form; without a tuple, a free slot. -/
def Page.Shows (page : Page) (slot : Nat) : Option Tuple → Prop
  | some tuple => page.tuple slot = .ok (tuple.readBack ⟨page.id, slot⟩)
  | none => page.isUsed slot = false

namespace Store

variable {s s' s₁ : Store} {t u : TxnId} {p : PageId} {r : RecordId} {x : Option (List UInt8)}
  {e : Event} {W : PageId → Prop}

/-- A slot shows bytes, or none, on a page that `t` holds exclusively and nobody else has dirtied. -/
structure Carries (s : Store) (t : TxnId) (r : RecordId) (x : Option (List UInt8)) : Prop where
  held : s.locks.modeOf r.page t = some .exclusive
  mine : s.dirtier r.page = none ∨ s.dirtier r.page = some t
  shown : s.shown r.page r.slot = x

/-- A slot shows bytes, or none, and the file stores the same. -/
structure Rests (s : Store) (r : RecordId) (x : Option (List UInt8)) : Prop where
  shown : s.shown r.page r.slot = x
  onDisk : s.onDisk r.page r.slot = x

theorem Saves.carries (h : Saves W s s') (hc : s.Carries t r x)
    (hheld : s'.locks.modeOf r.page t = some .exclusive) : s'.Carries t r x := by
  refine ⟨hheld, ?_, ?_⟩
  · rcases h.page r.page with ⟨hd, _⟩ | ⟨_, _, hd, _⟩
    · rw [hd]
      exact hc.mine
    · exact .inl hd
  · rw [h.shown]
    exact hc.shown

theorem Saves.rests (h : Saves W s s') (hr : s.Rests r x) : s'.Rests r x := by
  refine ⟨?_, ?_⟩
  · rw [h.shown]
    exact hr.shown
  · rcases h.page r.page with ⟨_, hdisk⟩ | ⟨_, _, _, hdisk⟩
    · rw [hdisk]
      exact hr.onDisk
    · rw [hdisk]
      exact hr.shown

theorem Carries.not_dirtied (h : s.Carries t r x) (hu : u ≠ t) : s.dirtier r.page ≠ some u := by
  intro hd
  rcases h.mine with hn | hm
  · rw [hn] at hd
    cases hd
  · rw [hm] at hd
    exact hu (Option.some.inj hd).symm

theorem Edits.shown_of_ne {e : Edit} (h : Edits u e.record e.bytes s s') (hne : e.record ≠ r) :
    s'.shown r.page r.slot = s.shown r.page r.slot := by
  rw [h.shown]
  by_cases hp : r.page = e.record.page
  · rw [if_pos hp, Function.update_of_ne]
    intro hslot
    apply hne
    obtain ⟨record, bytes⟩ := e
    cases r
    cases record
    simp_all
  · rw [if_neg hp]

theorem Turn.carried {e : Edit} (h : Turn s s' (.edited t e)) : s'.Carries t e.record e.bytes := by
  cases h with
  | edited _ _ hmode hedits =>
    refine ⟨hmode, .inr ?_, ?_⟩
    · rw [hedits.dirtier, if_pos rfl]
    · rw [hedits.shown, if_pos rfl, Function.update_self]

theorem Turn.dirties {e : Edit} (h : Turn s s' (.edited t e)) : s'.dirtier e.record.page ≠ none := by
  cases h with
  | edited _ _ _ hedits =>
    rw [hedits.dirtier, if_pos rfl]
    exact Option.some_ne_none t

/-- Nothing that others do upsets what a transaction carries. -/
theorem Turn.carries (h : Turn s s' e) (hlocks : s'.locks.Sound) (hc : s.Carries t r x)
    (hcalm : ¬ e.Upsets t r) : s'.Carries t r x := by
  cases h with
  | quiet hsaves hretains => exact hsaves.carries hc (hretains.exclusive hc.held)
  | @edited u e s₁ hsaves hretains hmode hedits =>
    have hheld := hretains.exclusive hc.held
    have hc₁ : s₁.dirtier r.page = none ∨ s₁.dirtier r.page = some t := by
      rcases hsaves.page r.page with ⟨hd, _⟩ | ⟨_, _, hd, _⟩
      · rw [hd]
        exact hc.mine
      · exact .inl hd
    by_cases hp : e.record.page = r.page
    · -- only the exclusive holder edits the page
      rw [hp] at hmode
      have hu : u = t := hlocks.eq_of_exclusive hheld (by rw [hmode]; exact Option.some_ne_none _)
      have hne : e.record ≠ r := fun he => hcalm ⟨hu, he⟩
      refine ⟨hheld, .inr ?_, ?_⟩
      · rw [hedits.dirtier, if_pos hp.symm, hu]
      · rw [hedits.shown_of_ne hne, hsaves.shown]
        exact hc.shown
    · have hne : e.record ≠ r := fun he => hp (by rw [he])
      refine ⟨hheld, ?_, ?_⟩
      · rw [hedits.dirtier, if_neg (Ne.symm hp)]
        exact hc₁
      · rw [hedits.shown_of_ne hne, hsaves.shown]
        exact hc.shown
  | halted hsaves hsame => exact hsaves.carries hc (by rw [hsame]; exact hc.held)
  | committed hsaves hfrees _ =>
    refine hsaves.carries hc ?_
    rw [hfrees, if_neg fun h => hcalm h.symm]
    exact hc.held
  | @stuck u hrev hsame =>
    obtain ⟨hd, hshown⟩ := (hrev.page r.page).resolve_right fun hp => hc.not_dirtied hcalm hp.1
    refine ⟨by rw [hsame]; exact hc.held, ?_, ?_⟩
    · rw [hd]
      exact hc.mine
    · rw [hshown]
      exact hc.shown
  | @aborted u hfrees _ hshown hdirty =>
    have hnot := hc.not_dirtied hcalm
    refine ⟨?_, ?_, ?_⟩
    · rw [hfrees, if_neg fun h => hcalm h.symm]
      exact hc.held
    · rw [hdirty, if_neg hnot]
      exact hc.mine
    · rw [hshown, if_neg hnot]
      exact hc.shown
  | restarted => exact absurd trivial hcalm
  | flushed hsaves hsame => exact hsaves.carries hc (by rw [hsame]; exact hc.held)
  | discarded hsame _ hshown hdirty =>
    have hne : r.page ≠ _ := fun h => hcalm h.symm
    refine ⟨by rw [hsame]; exact hc.held, ?_, ?_⟩
    · rw [hdirty, if_neg hne]
      exact hc.mine
    · rw [hshown, if_neg hne]
      exact hc.shown
  | released hsame hmode =>
    refine (hsame.saves (W := fun _ => False)).carries hc ?_
    rw [hmode, if_neg fun h => hcalm ⟨h.2.symm, h.1.symm⟩]
    exact hc.held

theorem Turn.rests_of_committed (h : Turn s s' (.committed t)) (hs' : s'.Sound)
    (hc : s.Carries t r x) : s'.Rests r x := by
  cases h with
  | committed hsaves _ hdone =>
    have hclean : s'.dirtier r.page = none := by
      rcases hc.mine with hn | hm
      · rcases hsaves.page r.page with ⟨hd, _⟩ | ⟨_, _, hd, _⟩
        · rw [hd, hn]
        · exact hd
      · exact hdone _ (writes_of_dirtied hm)
    have hshown : s'.shown r.page r.slot = x := by
      rw [hsaves.shown]
      exact hc.shown
    refine ⟨hshown, ?_⟩
    rw [← hs'.clean _ hclean]
    exact hshown

/-- What rests is changed by an edit of its record alone. -/
theorem Turn.rests (h : Turn s s' e) (hr : s.Rests r x) (hleft : ¬ e.Changes r) : s'.Rests r x := by
  cases h with
  | quiet hsaves _ => exact hsaves.rests hr
  | @edited u e s₁ hsaves _ _ hedits =>
    have hr₁ := hsaves.rests hr
    refine ⟨?_, ?_⟩
    · rw [hedits.shown_of_ne hleft]
      exact hr₁.shown
    · rw [hedits.onDisk]
      exact hr₁.onDisk
  | halted hsaves _ => exact hsaves.rests hr
  | committed hsaves _ _ => exact hsaves.rests hr
  | stuck hrev _ =>
    refine ⟨?_, by rw [hrev.onDisk]; exact hr.onDisk⟩
    rcases hrev.page r.page with ⟨_, hshown⟩ | ⟨_, _, hshown⟩
    · rw [hshown]
      exact hr.shown
    · rw [hshown]
      exact hr.onDisk
  | aborted _ hdisk hshown _ =>
    refine ⟨?_, by rw [hdisk]; exact hr.onDisk⟩
    rw [hshown]
    split
    · exact hr.onDisk
    · exact hr.shown
  | restarted _ hdisk hshown _ =>
    exact ⟨by rw [hshown]; exact hr.onDisk, by rw [hdisk]; exact hr.onDisk⟩
  | flushed hsaves _ => exact hsaves.rests hr
  | discarded _ hdisk hshown _ =>
    refine ⟨?_, by rw [hdisk]; exact hr.onDisk⟩
    rw [hshown]
    split
    · exact hr.onDisk
    · exact hr.shown
  | released hsame _ => exact (hsame.saves (W := fun _ => False)).rests hr

/-- A page that has been dirty once can be read from then on, if the device does not fail. -/
theorem Sound.readable (hs : s.Sound) (hd : s.dirtier p ≠ none) (hs' : s'.Sound)
    (hlasts : Lasts s s') (hfaults : s'.volume.faults = []) :
    ∃ page, (s'.readPage p).2 = .ok page := by
  cases hp : s.cache.page? p with
  | none => exact absurd (dirtier_of_not_cached hp) hd
  | some page =>
    obtain ⟨table, htable, _, hno⟩ := hs.known p page hp
    obtain ⟨table', htable', _⟩ := Catalog.table?_of_fresh hlasts.tables htable
    exact readPage_ok hs' htable' (Nat.lt_of_lt_of_le hno (hlasts.grows _)) hfaults

end Store

namespace Engine

variable {σ σ₀ σ₁ σ₂ σ₃ : Engine} {es es₁ es₂ es₃ : List Event} {t : TxnId} {r : RecordId}
  {x : Option (List UInt8)} {a : Action} {left : Option Tuple}

/-- Bytes stand for what a page shows of a tuple, if the page has the schema of the table. -/
def Stands (s : Store) (r : RecordId) (x : Option (List UInt8)) (left : Option Tuple) : Prop :=
  ∀ page : Page, page.id = r.page → page.stored r.slot = x →
    (∃ table, s.catalog.table? r.page.table = some table ∧ page.schema = table.schema) →
    page.Shows r.slot left

theorem Stands.lasts {s s' : Store} (h : Stands s r x left) (hl : Store.Lasts s s') :
    Stands s' r x left := by
  rintro page hid hstored ⟨table, htable, hschema⟩
  obtain ⟨table', htable', hfresh⟩ := Catalog.table?_of_fresh hl.tables.symm htable
  exact h page hid hstored ⟨table', htable', hschema.trans (Table.schema_of_fresh hfresh).symm⟩

theorem Stands.shows {s : Store} {page : Page} (h : Stands s r x left) (hr : s.Rests r x)
    (hread : (s.readPage r.page).2 = .ok page) : page.Shows r.slot left := by
  obtain ⟨hid, _, hstored, table, htable, hschema, _⟩ := (s.readPage_spec r.page).2 page hread
  refine h page hid ?_ ⟨table, htable, hschema⟩
  rw [hstored]
  exact hr.onDisk

theorem Turns.carries (hc : σ₀.store.Carries t r x) (h : Turns σ₀ es σ)
    (hcalm : ∀ e ∈ es, ¬ e.Upsets t r) : σ.store.Carries t r x := by
  induction h with
  | start => exact hc
  | turn _ hlawful _ hturn ih =>
    exact hturn.carries hlawful.orderly.sound (ih fun e he => hcalm e (List.mem_cons_of_mem _ he))
      (hcalm _ List.mem_cons_self)

theorem Turns.rests (hr : σ₀.store.Rests r x) (h : Turns σ₀ es σ)
    (hlater : ∀ e ∈ es, ¬ e.Changes r) : σ.store.Rests r x := by
  induction h with
  | start => exact hr
  | turn _ _ _ hturn ih =>
    exact hturn.rests (ih fun e he => hlater e (List.mem_cons_of_mem _ he))
      (hlater _ List.mem_cons_self)

theorem Turns.rests_of_carries (h₀ : Lawful σ₀) (hc : σ₀.store.Carries t r x)
    (h : Turns σ₀ es σ) (hcalm : ∀ e ∈ es, ¬ e.Upsets t r) (ht : σ.calls t = none)
    (hok : (σ.store.commit t).2 = .ok ()) :
    Lawful (σ.act (.commit t)) ∧ Store.Lasts σ₀.store (σ.act (.commit t)).store ∧
      (σ.act (.commit t)).store.Rests r x := by
  obtain ⟨hlawful, hlasts⟩ := h.lawful h₀
  obtain ⟨hlawful', hlasts', hturn⟩ := hlawful.commit ht
  have hevent : σ.event (.commit t) = .committed t := by
    simp only [event, hok]
    rfl
  rw [hevent] at hturn
  exact ⟨hlawful', hlasts.trans hlasts',
    hturn.rests_of_committed hlawful'.sound (h.carries hc hcalm)⟩

/-- A transaction is about to put a tuple into a new page. -/
def placing : Engine := (play (idle (Store.sample {})) ((firstInsertion ⟨1⟩ 7).take 3)).2

/-- It has done so, and another one that has done nothing has committed. -/
def placed : Engine := (play (placing.act (.step ⟨1⟩)) [.commit ⟨2⟩]).2

end Engine
end PageStore

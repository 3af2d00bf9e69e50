import PageStore.Proofs.Store.Isolation
import PageStore.Proofs.Store.Reference

/-!
# PageStore.Proofs.Store.Alone

One transaction at work on a store, and nobody else: its calls come one after the other, and each goes
from its start to its answer (`Completes`), whatever the device does.

* `Completes.settles`: then every answer does to the tuples of the store what it does to a map.
* `Completes.scanned` and `Walk.lists`: a scan that comes to the end of the table without a failure
  has found the tuples of the map, and so has a cursor that was moved on until it had no more.
* `Solo.matches_reference`: so it is in every run from an opened store.
-/

namespace PageStore

namespace Store

variable {s s' : Store} {t : TxnId} {p : PageId} {r : RecordId} {e : Edit} {tb : TableId}
  {tuple : Tuple} {bytes : List UInt8} {us : List Tuple} {page : Page}

/-- The tuples of a store by their records. -/
def contents (s : Store) : Reference := fun r => s.content r.page r.slot

/-- The tuples that the files have by their records. -/
def saved (s : Store) : Reference := fun r => (s.savedAt? r.page).bind (·.content r.slot)

theorem contents_of_empty (h : s.cache = {}) : s.contents = s.saved := by
  have hpage : ∀ p, s.cache.page? p = none := by
    intro p
    rw [h]
    rfl
  funext r
  unfold contents content pageAt? saved
  rw [hpage]

theorem Turn.contents_of_quiet (h : Turn s s' .quiet) (hs : s.Sound) (hs' : s'.Sound)
    (hlasts : Lasts s s') : s'.contents = s.contents := by
  funext r
  exact congrFun (h.content_of_still (.inl rfl) hs hs' hlasts r.page) r.slot

theorem Turn.shown_of_edited (h : Turn s s' (.edited t e)) (p : PageId) :
    s'.shown p = if p = e.record.page then
      Function.update (s.shown p) e.record.slot e.bytes else s.shown p := by
  cases h with
  | edited hsaves _ _ hedits => rw [hedits.shown, hsaves.shown]

theorem Turn.contents_of_edited (h : Turn s s' (.edited t e)) (hs : s.Sound) (hs' : s'.Sound)
    (hlasts : Lasts s s') :
    s'.contents = Function.update s.contents e.record (s'.contents e.record) := by
  funext r
  by_cases hr : r = e.record
  · rw [hr, Function.update_self]
  · rw [Function.update_of_ne hr]
    refine hs.content_congr hs' hlasts ?_
    rw [h.shown_of_edited]
    by_cases hpage : r.page = e.record.page
    · rw [if_pos hpage, Function.update_of_ne]
      intro hslot
      obtain ⟨page, slot⟩ := r
      cases hpage
      cases hslot
      exact hr rfl
    · rw [if_neg hpage]

/-- An insertion adds the tuple in normal form. -/
theorem Turn.contents_of_inserted (h : Turn s s' (.edited t ⟨r, some bytes⟩)) (hs : s.Sound)
    (hs' : s'.Sound) (hlasts : Lasts s s') (htakes : s.Takes tb tuple r)
    (hbytes : tuple.encode = .ok bytes) :
    s'.contents = Function.update s.contents r (some (tuple.readBack r)) := by
  obtain ⟨table, htable, hschema⟩ := htakes.schema
  obtain ⟨table', htable', hfresh⟩ := Catalog.table?_of_fresh hlasts.tables htable
  have hnarrow : RecordId.narrow r.slot = r.slot := by
    have hlt := slot_lt htakes.slot_lt
    exact Nat.mod_eq_of_lt (by omega)
  have hrecord : s'.contents r = some (tuple.readBack r) := by
    unfold contents
    rw [hs'.content_eq htable', h.shown_of_edited, if_pos rfl, Function.update_self,
      Option.bind_some, Table.schema_of_fresh hfresh, hschema]
    unfold decodedAt
    rw [Tuple.decode_encode hbytes, hnarrow]
    rfl
  rw [h.contents_of_edited hs hs' hlasts, hrecord]

/-- A deletion empties the record. -/
theorem Turn.contents_of_deleted (h : Turn s s' (.edited t ⟨r, none⟩)) (hs : s.Sound)
    (hs' : s'.Sound) (hlasts : Lasts s s') : s'.contents = Function.update s.contents r none := by
  have hrecord : s'.contents r = none := by
    unfold contents
    rw [← Option.isNone_iff_eq_none, ← Option.isSome_eq_false_iff, hs'.isSome_content,
      h.shown_of_edited, if_pos rfl, Function.update_self]
    rfl
  rw [h.contents_of_edited hs hs' hlasts, hrecord]

theorem Takes.contents (h : s.Takes tb tuple r) (hs : s.Sound) : s.contents r = none := by
  unfold Store.contents
  rw [← Option.isNone_iff_eq_none, ← Option.isSome_eq_false_iff, hs.isSome_content, h.free]
  rfl

theorem Views.content_eq (h : s.Views t p page) (hs : s.Sound) : page.content = s.content p := by
  obtain ⟨table, htable, hschema, _⟩ := h.known
  funext slot
  rw [page.content_eq, hs.content_eq htable, h.stored, h.id_eq, hschema]

/-- The tuples of a page as a transaction gets them are those of the store. -/
theorem Lists.of_contents (h : s.Lists t p us) (hs : s.Sound) :
    s.contents.Lists (·.page = p) us := by
  obtain ⟨page, hview, htuples⟩ := h
  obtain rfl := hview.id_eq
  apply page.lists htuples
  intro slot
  rw [hview.content_eq hs]
  rfl

end Store

/-- Whether an action goes on with a call of a transaction, or is the device's. -/
def Action.isOf (t : TxnId) : Action → Bool
  | .device _ _ => true
  | .step u => u = t
  | .resume w => w.txn = t
  | .expire w => w.txn = t
  | _ => false

namespace Engine

variable {σ σ₀ σ₁ σ' : Engine} {es : List Event} {t : TxnId} {a : Action} {c c' : Call}
  {answer : Answer} {m : Reference} {r : Store × Progress} {tb : TableId} {xs us : List Tuple}
  {tuple tuple' : Tuple} {f : FrameId} {k k' : Cursor} {I : Call → Prop} {s₀ : Store}

/-- Actions of one transaction that go on with its call. -/
def Alone (t : TxnId) (σ : Engine) (a : Action) : Prop := σ.Regular a ∧ a.isOf t = true

instance (t : TxnId) (σ : Engine) (a : Action) : Decidable (Alone t σ a) :=
  inferInstanceAs (Decidable (σ.Regular a ∧ a.isOf t = true))

/-- A call of a transaction, from its start to its answer, with nobody else at work. -/
inductive Completes (σ : Engine) (t : TxnId) (c : Call) (answer : Answer) : Engine → Prop where
  | intro {es : List Event} {σ' : Engine} {a : Action} {c' : Call} :
      σ.Allows (.call t c) → Run (Alone t) (σ.act (.call t c)) es σ' → σ'.Allows a →
      Alone t σ' a → σ'.answered? a = some (t, c', answer) → Completes σ t c answer (σ'.act a)

/-- Calls of one transaction one after the other, and what the answers make of the tuples that the
files have at first. -/
inductive Solo (t : TxnId) (σ₀ : Engine) : Reference → Engine → Prop where
  | start : Solo t σ₀ σ₀.store.saved σ₀
  | call {m : Reference} {σ σ' : Engine} {c : Call} {answer : Answer} :
      Solo t σ₀ m σ → c.Marks → σ.Completes t c answer σ' → Solo t σ₀ (m.after c answer) σ'

/-- A cursor is moved on until it has nothing more, and gives tuples on the way. -/
inductive Walk (t : TxnId) : Engine → Cursor → List Tuple → Engine → Prop where
  | done {σ σ' : Engine} {k k' : Cursor} :
      σ.Completes t (.next k) (.item k' none) σ' → Walk t σ k [] σ'
  | more {σ σ₁ σ' : Engine} {k k' : Cursor} {u : Tuple} {us : List Tuple} :
      σ.Completes t (.next k) (.item k' (some (.ok u))) σ₁ → Walk t σ₁ k' us σ' →
      Walk t σ k (u :: us) σ'

/-- The store has the tuples of the map and no others. -/
structure Settled (σ : Engine) (m : Reference) : Prop extends Lawful σ where
  contents : σ.store.contents = m

/-! ## A call from its start to its answer -/

theorem Alone.moved (h : Lawful σ) (ha : σ.Allows a) (ho : Alone t σ a) :
    (∃ faults lengthFails, a = .device faults lengthFails) ∨
      ∃ c r, σ.moved? a = some (t, c, r) := by
  obtain ⟨_, hof⟩ := ho
  cases a with
  | device faults lengthFails => exact .inl ⟨faults, lengthFails, rfl⟩
  | step u =>
    obtain rfl : u = t := of_decide_eq_true hof
    obtain ⟨c, hc⟩ := Option.isSome_iff_exists.1 ha.1
    refine .inr ⟨c, σ.store.step u c, ?_⟩
    simp only [moved?, hc, Option.map_some]
  | resume w =>
    obtain rfl : w.txn = t := of_decide_eq_true hof
    obtain ⟨c, hc, _⟩ := h.call_of_sleeper ha.1
    refine .inr ⟨c, σ.store.resume w c, ?_⟩
    simp only [moved?, hc, Option.map_some]
  | expire w =>
    obtain rfl : w.txn = t := of_decide_eq_true hof
    obtain ⟨c, hc, _⟩ := h.call_of_sleeper ha
    refine .inr ⟨c, σ.store.expire w c, ?_⟩
    simp only [moved?, hc, Option.map_some]
  | _ => cases hof

theorem Settled.quiet (h : Settled σ m) (ha : σ.Allows a) (ho : σ.Regular a)
    (hquiet : σ.event a = .quiet) : Settled (σ.act a) m := by
  obtain ⟨hlawful, hlasts, hturn⟩ := h.act ha ho
  rw [hquiet] at hturn
  exact ⟨hlawful, (hturn.contents_of_quiet h.sound hlawful.sound hlasts).trans h.contents⟩

theorem edit?_of_call? {x : Progress} (h : x.call? = some c') : x.edit? c = none := by
  cases x with
  | next => rfl
  | waiting => rfl
  | done => cases h

/-- What is true of a call stays true as it goes on, as long as the tuples stay those of the map. -/
def Stays (t : TxnId) (m : Reference) (I : Call → Prop) : Prop :=
  ∀ ⦃σ : Engine⦄ ⦃c c' : Call⦄ ⦃r : Store × Progress⦄, σ.store.Outcome t c r → r.1.Sound →
    r.1.contents = m → r.2.call? = some c' → I c → I c'

theorem stays_origin (t : TxnId) (m : Reference) (c : Call) :
    Stays t m fun c' => c'.origin = c.origin := by
  intro σ c₁ c₂ r hout _ _ hcall hc₁
  have hsuits := hout.suits
  cases hx : r.2 with
  | next d =>
    rw [hx] at hsuits hcall
    cases hcall
    cases hsuits with
    | next h => exact h.trans hc₁
  | waiting p k d =>
    rw [hx] at hsuits hcall
    cases hcall
    cases hsuits with
    | waiting h => exact h.trans hc₁
  | done answer =>
    rw [hx] at hcall
    cases hcall

/-- While a call goes on the tuples stay. -/
theorem Run.alone (hI : Stays t m I) (h₀ : Settled σ₀ m)
    (hstart : ∀ c, σ₀.calls t = some c → I c) (h : Run (Alone t) σ₀ es σ) :
    Lawful σ ∧ ∀ c, σ.calls t = some c → Settled σ m ∧ I c := by
  induction h with
  | start => exact ⟨h₀.toLawful, fun c hc => ⟨h₀, hstart c hc⟩⟩
  | @act es σ a hrun ha ho ih =>
    obtain ⟨hlawful, hcalls⟩ := ih
    have hlawful' := (hlawful.act ha ho.1).1
    refine ⟨hlawful', ?_⟩
    intro c' hc'
    rcases ho.moved hlawful ha with ⟨faults, lengthFails, rfl⟩ | ⟨c, r, hm⟩
    · obtain ⟨hsettled, hc⟩ := hcalls c' hc'
      exact ⟨hsettled.quiet ha ho.1 rfl, hc⟩
    · obtain ⟨hcall, hact, hevent⟩ := act_of_moved hm
      obtain ⟨hsettled, hc⟩ := hcalls c hcall
      have hgoes : r.2.call? = some c' := by
        rw [hact] at hc'
        have hc' : Function.update σ.calls t r.2.call? t = some c' := hc'
        rwa [Function.update_self] at hc'
      have hsettled' : Settled (σ.act a) m := by
        refine hsettled.quiet ha ho.1 ?_
        rw [hevent, edit?_of_call? hgoes]
        rfl
      refine ⟨hsettled', hI (hlawful.outcome ha ho.1 hm) ?_ ?_ hgoes hc⟩
      · have hsound := hsettled'.sound
        rw [hact] at hsound
        exact hsound
      · have hcontents := hsettled'.contents
        rw [hact] at hcontents
        exact hcontents

theorem Settled.call (h : Settled σ m) (hc : c.Marks) (ha : σ.Allows (.call t c)) :
    Settled (σ.act (.call t c)) m :=
  h.quiet ha ⟨hc, fun _ htb => by cases htb⟩ rfl

/-- A call comes to its answer with the tuples that it had at its start. -/
theorem Completes.last (h : σ.Completes t c answer σ') (hs : Settled σ m) (hc : c.Marks)
    (hI : Stays t m I) (hstart : I c) :
    ∃ σ₁ a c₁, Settled σ₁ m ∧ I c₁ ∧ σ₁.Allows a ∧ σ₁.Regular a ∧
      σ₁.answered? a = some (t, c₁, answer) ∧ σ' = σ₁.act a := by
  cases h with
  | @intro es σ₁ a c₁ hbegin hrun ha ho hans =>
    have hcalls : ∀ d, (σ.act (.call t c)).calls t = some d → I d := by
      intro d hd
      have hd : Function.update σ.calls t (some c) t = some d := hd
      rw [Function.update_self] at hd
      cases hd
      exact hstart
    obtain ⟨_, hm⟩ := moved_of_answered hans
    obtain ⟨hsettled, hc₁⟩ :=
      (hrun.alone hI (hs.call hc hbegin) hcalls).2 c₁ (act_of_moved hm).1
    exact ⟨σ₁, a, c₁, hsettled, hc₁, ha, ho.1, hans, rfl⟩

/-- An answer does to the tuples of the store what it does to the map. -/
theorem Settled.answered (h : Settled σ m) (ha : σ.Allows a) (ho : σ.Regular a)
    (hans : σ.answered? a = some (t, c, answer)) : Settled (σ.act a) (m.after c answer) := by
  obtain ⟨hout, hevent⟩ := h.outcome_of_answered ha ho hans
  obtain ⟨hlawful, hlasts, hturn⟩ := h.act ha ho
  have hstill : c.edit? answer = none → Settled (σ.act a) m := by
    intro hnone
    refine h.quiet ha ho ?_
    rw [hevent, hnone]
    rfl
  cases hout.suits with
  | done hanswers =>
    cases c with
    | insert table tuple marks placing =>
      cases answer with
      | inserted tuple' result =>
        cases result with
        | error e => exact hstill rfl
        | ok f =>
          obtain ⟨r, bytes, rfl, hbytes, hedit, htakes⟩ := h.inserted ha ho hans
          rw [hedit] at hturn
          refine ⟨hlawful, ?_⟩
          rw [hturn.contents_of_inserted h.sound hlawful.sound hlasts htakes hbytes, h.contents]
          rfl
      | _ => exact hanswers.elim
    | delete tuple from? =>
      cases answer with
      | deleted result =>
        cases result with
        | error e => exact hstill rfl
        | ok f =>
          obtain ⟨r, hrec, hedit, _⟩ := h.deleted ha ho hans
          rw [hedit] at hturn
          refine ⟨hlawful, ?_⟩
          rw [hturn.contents_of_deleted h.sound hlawful.sound hlasts, h.contents]
          simp only [Reference.after, hrec]
      | _ => exact hanswers.elim
    | lock page mode =>
      cases answer with
      | locked result => exact hstill rfl
      | _ => exact hanswers.elim
    | fetch page access =>
      cases answer with
      | fetched result => exact hstill rfl
      | _ => exact hanswers.elim
    | next cursor =>
      cases answer with
      | item cursor' result => exact hstill rfl
      | _ => exact hanswers.elim
    | scan table page seen =>
      cases answer with
      | scanned tuples failure => exact hstill rfl
      | _ => exact hanswers.elim

theorem after_of_origin (m : Reference) (h : c'.origin = c.origin) (answer : Answer) :
    m.after c' answer = m.after c answer := by
  have horigin : ∀ d : Call, m.after d.origin answer = m.after d answer := by
    intro d
    cases d with
    | insert table tuple marks placing =>
      cases answer with
      | inserted tuple' result => cases result <;> rfl
      | _ => rfl
    | _ => cases answer <;> rfl
  rw [← horigin c', h, horigin c]

theorem Completes.settles (h : σ.Completes t c answer σ') (hs : Settled σ m) (hc : c.Marks) :
    Settled σ' (m.after c answer) := by
  obtain ⟨σ₁, a, c₁, hs₁, horigin, ha, ho, hans, rfl⟩ := h.last hs hc (stays_origin t m c) rfl
  rw [← after_of_origin m horigin]
  exact hs₁.answered ha ho hans

/-- A record that an insertion gets was not in the map. -/
theorem Completes.inserted (h : σ.Completes t (.insertion tb tuple) (.inserted tuple' (.ok f)) σ')
    (hs : Settled σ m) :
    ∃ r, tuple' = { tuple with record := some r } ∧ r.page.table = tb ∧ m r = none := by
  obtain ⟨σ₁, a, c₁, hs₁, horigin, ha, ho, hans, rfl⟩ := h.last hs rfl (stays_origin t m _) rfl
  cases c₁ with
  | insert table tuple₁ marks placing =>
    cases horigin
    obtain ⟨r, bytes, hrec, _, _, htakes⟩ := hs₁.inserted ha ho hans
    refine ⟨r, hrec, htakes.table_eq, ?_⟩
    rw [← hs₁.contents]
    exact htakes.contents hs₁.sound
  | _ => cases horigin

/-- A record whose tuple is deleted was in the map. -/
theorem Completes.deleted (h : σ.Completes t (.delete tuple none) (.deleted (.ok f)) σ')
    (hs : Settled σ m) : ∃ r, tuple.record = some r ∧ (m r).isSome = true := by
  obtain ⟨σ₁, a, c₁, hs₁, horigin, ha, ho, hans, rfl⟩ := h.last hs rfl (stays_origin t m _) rfl
  cases c₁ with
  | delete tuple₁ from? =>
    cases horigin
    obtain ⟨r, hrec, _, hused⟩ := hs₁.deleted ha ho hans
    refine ⟨r, hrec, ?_⟩
    rw [← hs₁.contents]
    exact (hs₁.sound.isSome_content r.page r.slot).trans hused
  | _ => cases horigin

/-! ## Scans and cursors -/

/-- Past the pages that a table's file is said to have there are no tuples. -/
theorem Settled.whole (h : Settled σ m) (ha : σ.Allows a) (ho : σ.Regular a) {n : Nat}
    (hlists : m.Lists (Reference.Below tb n) xs) (hcount : σ.store.pageCount tb ≤ n)
    (hfits : (σ.act a).store.wholeCount tb < 4294967296) : m.Lists (·.page.table = tb) xs := by
  have hgrows := (h.act ha ho).2.1.grows tb
  rw [Store.pageCount_eq, Nat.mod_eq_of_lt (Nat.lt_of_le_of_lt hgrows hfits)] at hcount
  apply hlists.whole
  intro r htb hno
  rw [← h.contents]
  refine h.sound.content_past_end ?_ r.slot
  rw [htb]
  exact Nat.le_trans hcount hno

/-- A scan under way has the tuples of the pages before. -/
def Scanned (m : Reference) (tb : TableId) (c : Call) : Prop :=
  ∃ n seen, c = .scan tb n seen ∧ m.Lists (Reference.Below tb n) seen

theorem stays_scanned (t : TxnId) (m : Reference) (tb : TableId) : Stays t m (Scanned m tb) := by
  rintro σ c c' r hout hsound hcontents hcall ⟨n, seen, rfl, hlists⟩
  rcases hout.of_scan with ⟨failure, hr, _⟩ | ⟨p, k, hr⟩ | ⟨us, hr, hpage⟩
  · rw [hr] at hcall
    cases hcall
  · rw [hr] at hcall
    cases hcall
    exact ⟨n, seen, rfl, hlists⟩
  · rw [hr] at hcall
    cases hcall
    refine ⟨n + 1, seen ++ us, rfl, hlists.page ?_⟩
    rw [← hcontents]
    exact hpage.of_contents hsound

theorem Completes.scanned (h : σ.Completes t (.wholeScan tb) (.scanned xs none) σ')
    (hs : Settled σ m) (hfits : σ'.store.wholeCount tb < 4294967296) :
    m.Lists (·.page.table = tb) xs := by
  obtain ⟨σ₁, a, c₁, hs₁, hscanned, ha, ho, hans, rfl⟩ :=
    h.last hs trivial (stays_scanned t m tb) ⟨0, [], rfl, m.lists_start tb⟩
  obtain ⟨n, seen, rfl, hlists⟩ := hscanned
  rcases (hs₁.outcome_of_answered ha ho hans).1.of_scan with
    ⟨failure, hr, hend⟩ | ⟨_, _, hr⟩ | ⟨_, hr, _⟩
  · cases hr
    exact hs₁.whole ha ho hlists (hend rfl) hfits
  · cases hr
  · cases hr

/-- A cursor that has not failed and has given the tuples before its position. -/
structure Given (m : Reference) (tb : TableId) (taken : List Tuple) (k : Cursor) : Prop where
  table : k.table = tb
  going : k.failed = false
  lists : m.Lists (Reference.Below tb k.nextPage) (taken ++ k.loaded)

/-- A cursor that is moved on. -/
def Moves (m : Reference) (tb : TableId) (taken : List Tuple) (c : Call) : Prop :=
  ∃ k, c = .next k ∧ Given m tb taken k

theorem stays_moves (t : TxnId) (m : Reference) (tb : TableId) (taken : List Tuple) :
    Stays t m (Moves m tb taken) := by
  rintro σ c c' r hout hsound hcontents hcall ⟨k, rfl, hk⟩
  rcases hout.of_cursor with
    ⟨_, _, _, hr⟩ | ⟨_, hr⟩ | ⟨_, hr⟩ | ⟨_, _, hr⟩ | ⟨us, hempty, hr, hpage⟩
  · rw [hr] at hcall
    cases hcall
  · rw [hr] at hcall
    cases hcall
  · rw [hr] at hcall
    cases hcall
  · rw [hr] at hcall
    cases hcall
    exact ⟨k, rfl, hk⟩
  · rw [hr] at hcall
    cases hcall
    have hlists := hk.lists
    rw [hempty, List.append_nil] at hlists
    refine ⟨_, rfl, hk.table, hk.going, hlists.page ?_⟩
    rw [← hcontents, ← hk.table]
    exact hpage.of_contents hsound

variable {taken : List Tuple} {u : Tuple}

theorem Completes.given (h : σ.Completes t (.next k) (.item k' (some (.ok u))) σ')
    (hs : Settled σ m) (hk : Given m tb taken k) : Given m tb (taken ++ [u]) k' := by
  obtain ⟨σ₁, a, c₁, hs₁, ⟨k₁, rfl, hk₁⟩, ha, ho, hans, rfl⟩ :=
    h.last hs trivial (stays_moves t m tb taken) ⟨k, rfl, hk⟩
  rcases (hs₁.outcome_of_answered ha ho hans).1.of_cursor with
    ⟨tuple, rest, hloaded, hr⟩ | ⟨_, hr⟩ | ⟨_, hr⟩ | ⟨_, _, hr⟩ | ⟨_, _, hr, _⟩
  · cases hr
    refine ⟨hk₁.table, hk₁.going, ?_⟩
    have hlists := hk₁.lists
    rwa [hloaded, List.append_cons] at hlists
  · cases hr
  · cases hr
  · cases hr
  · cases hr

theorem Completes.exhausted (h : σ.Completes t (.next k) (.item k' none) σ')
    (hs : Settled σ m) (hk : Given m tb taken k) (hfits : σ'.store.wholeCount tb < 4294967296) :
    m.Lists (·.page.table = tb) taken := by
  obtain ⟨σ₁, a, c₁, hs₁, ⟨k₁, rfl, hk₁⟩, ha, ho, hans, rfl⟩ :=
    h.last hs trivial (stays_moves t m tb taken) ⟨k, rfl, hk⟩
  rcases (hs₁.outcome_of_answered ha ho hans).1.of_cursor with
    ⟨_, _, _, hr⟩ | ⟨hend, hr⟩ | ⟨_, hr⟩ | ⟨_, _, hr⟩ | ⟨_, _, hr, _⟩
  · cases hr
  · cases hr
    obtain ⟨hempty, hcount⟩ := hend hk₁.going
    have hlists := hk₁.lists
    rw [hempty, List.append_nil] at hlists
    rw [hk₁.table] at hcount
    exact hs₁.whole ha ho hlists hcount hfits
  · cases hr
  · cases hr
  · cases hr

theorem Walk.lists (h : Walk t σ k us σ') (hs : Settled σ m) (hk : Given m tb taken k)
    (hfits : σ'.store.wholeCount tb < 4294967296) :
    m.Lists (·.page.table = tb) (taken ++ us) := by
  induction h generalizing taken with
  | done hlast =>
    rw [List.append_nil]
    exact hlast.exhausted hs hk hfits
  | more hmore _ ih =>
    have hlists := ih (hmore.settles hs trivial) (hmore.given hs hk) hfits
    rwa [List.append_assoc] at hlists

/-! ## Runs -/

theorem Solo.settled {config : PoolConfig} {v : Volume} (hopen : Store.Opened config v s₀)
    (h : Solo t (idle s₀) m σ) : Settled σ m := by
  induction h with
  | start =>
    obtain ⟨_, hcache, _⟩ := hopen.spec
    exact ⟨lawful_idle hopen, Store.contents_of_empty hcache⟩
  | call _ hc hcall ih => exact hcall.settles ih hc

/-- After any calls of one transaction, whether they succeed or fail, the store has the tuples of the
map, which a scan or a cursor finds in order and with their records if it comes to the end without a
failure. An insertion that succeeds gets a record that was not in the map, a deletion that succeeds
had one that was. -/
theorem Solo.matches_reference {config : PoolConfig} {v : Volume}
    (hopen : Store.Opened config v s₀) (h : Solo t (idle s₀) m σ) :
    (∀ r, σ.store.contents r = m r) ∧
    (∀ {tb xs σ'}, σ.Completes t (.wholeScan tb) (.scanned xs none) σ' →
      σ'.store.wholeCount tb < 4294967296 → m.Lists (·.page.table = tb) xs) ∧
    (∀ {tb xs σ'}, Walk t σ { table := tb } xs σ' →
      σ'.store.wholeCount tb < 4294967296 → m.Lists (·.page.table = tb) xs) ∧
    (∀ {tb tuple tuple' f σ'},
      σ.Completes t (.insertion tb tuple) (.inserted tuple' (.ok f)) σ' →
      ∃ r, tuple' = { tuple with record := some r } ∧ r.page.table = tb ∧ m r = none) ∧
    ∀ {tuple f σ'}, σ.Completes t (.delete tuple none) (.deleted (.ok f)) σ' →
      ∃ r, tuple.record = some r ∧ (m r).isSome = true := by
  have hs := h.settled hopen
  refine ⟨?_, ?_, ?_, ?_, ?_⟩
  · intro r
    exact congrFun hs.contents r
  · intro tb xs σ' hscan hfits
    exact hscan.scanned hs hfits
  · intro tb xs σ' hwalk hfits
    have hfresh : Given m tb [] { table := tb } := ⟨rfl, rfl, m.lists_start tb⟩
    exact hwalk.lists hs hfresh hfits
  · intro tb tuple tuple' f σ' hinserted
    exact hinserted.inserted hs
  · intro tuple f σ' hdeleted
    exact hdeleted.deleted hs

/-- An engine when a call of a transaction has taken some steps. -/
def stepped (σ : Engine) (t : TxnId) (c : Call) (n : Nat) : Engine :=
  (play (σ.act (.call t c)) (List.replicate n (.step t))).2

theorem completes_stepped {n : Nat} (c' : Call) (hbegin : σ.Allows (.call t c))
    (h : Follow (Alone t) (σ.act (.call t c)) (List.replicate n (.step t)))
    (hlast : Follow (Alone t) (σ.stepped t c n) [.step t])
    (hans : (σ.stepped t c n).answered? (.step t) = some (t, c', answer)) :
    σ.Completes t c answer ((σ.stepped t c n).act (.step t)) :=
  .intro hbegin (run_play h) hlast.1.1 hlast.1.2 hans

/-- A store with a table of short texts, and room for one page. -/
def notes : Store :=
  ((Store.start { capacity := 1 } (.ofDirectory "/db")).createTable "t" "/db/t"
    ⟨[{ name := "text", type := .char 30 }]⟩).1

theorem opened_notes : Store.Opened { capacity := 1 } (.ofDirectory "/db") notes := by
  refine .table (t := ⟨⟨0⟩, "t", ⟨[{ name := "text", type := .char 30 }]⟩,
    { key := "/db/t", path := "/db/t" }⟩) .start rfl ?_
  intro u hu
  cases hu

def note (text : String) (slot? : Option Nat) : Tuple where
  schema := ⟨[{ name := "text", type := .char 30 }]⟩
  values := [.string text]
  record := slot?.map fun slot => ⟨⟨⟨0⟩, 0⟩, slot⟩
  complete := rfl

/-- One note, two notes, and the second one alone. -/
def oneIn : Engine :=
  ((idle notes).stepped ⟨1⟩ (.insertion ⟨0⟩ (note "a" none)) 2).act (.step ⟨1⟩)

def twoIn : Engine := (oneIn.stepped ⟨1⟩ (.insertion ⟨0⟩ (note "b " none)) 1).act (.step ⟨1⟩)

def oneOut : Engine := (twoIn.stepped ⟨1⟩ (.delete (note "a" (some 0)) none) 0).act (.step ⟨1⟩)

theorem solo_oneOut : ∃ m, Solo ⟨1⟩ (idle notes) m oneOut := by
  have hone : (idle notes).Completes ⟨1⟩ (.insertion ⟨0⟩ (note "a" none))
      (.inserted (note "a" (some 0)) (.ok 0)) oneIn :=
    completes_stepped (.insert ⟨0⟩ (note "a" none) true .appending) (by decide +kernel)
      (by decide +kernel) (by decide +kernel) (by decide +kernel)
  have htwo : oneIn.Completes ⟨1⟩ (.insertion ⟨0⟩ (note "b " none))
      (.inserted (note "b " (some 1)) (.ok 0)) twoIn :=
    completes_stepped (.insert ⟨0⟩ (note "b " none) true (.searching 0 1)) (by decide +kernel)
      (by decide +kernel) (by decide +kernel) (by decide +kernel)
  have hout : twoIn.Completes ⟨1⟩ (.delete (note "a" (some 0)) none) (.deleted (.ok 0)) oneOut :=
    completes_stepped (.delete (note "a" (some 0)) none) (by decide +kernel)
      (by decide +kernel) (by decide +kernel) (by decide +kernel)
  refine ⟨_, .call (.call (.call .start ?_ hone) ?_ htwo) ?_ hout⟩ <;> rfl

theorem oneOut_matches_reference :
    ∃ m σ', Solo ⟨1⟩ (idle notes) m oneOut ∧
      oneOut.Completes ⟨1⟩ (.wholeScan ⟨0⟩) (.scanned [note "b" (some 1)] none) σ' ∧
      m.Lists (·.page.table = ⟨0⟩) [note "b" (some 1)] := by
  obtain ⟨m, hsolo⟩ := solo_oneOut
  have hscan : oneOut.Completes ⟨1⟩ (.wholeScan ⟨0⟩) (.scanned [note "b" (some 1)] none)
      ((oneOut.stepped ⟨1⟩ (.wholeScan ⟨0⟩) 1).act (.step ⟨1⟩)) :=
    completes_stepped (.scan ⟨0⟩ 1 [note "b" (some 1)]) (by decide +kernel)
      (by decide +kernel) (by decide +kernel) (by decide +kernel)
  obtain ⟨_, hlists, _⟩ := hsolo.matches_reference opened_notes
  exact ⟨m, _, hsolo, hscan, hlists hscan (by decide +kernel)⟩

end Engine
end PageStore

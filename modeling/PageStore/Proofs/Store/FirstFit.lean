import PageStore.Proofs.Page.SlotMap
import PageStore.Proofs.Store.Asleep
import PageStore.Proofs.Store.Failure

/-!
# PageStore.Proofs.Store.FirstFit

Where an insertion puts its tuple. It counts the pages of its table when it begins, walks through
them in order and locks each exclusively, so a page that it has found full stays full until it ends,
whatever others do while it waits for the next one.

* `Passed` is what every action keeps while the call is under way: the pages before the next one are
  full, and held. An insertion that appends has passed all pages that it has counted.
* `Coherent.places`: so no page that was counted has a free slot before the place that the tuple
  gets, and that place is the lowest free slot of its page.
* `Completes.first_fit`: with nobody else at work the page is the first one with a free slot, or one
  that was appended because there was none.
* `Inserting.ends`: from where nobody else is at work any more, it is answered or waits within the
  steps that a call is given, since every step but the last brings it nearer to its end.
-/

namespace PageStore

open LockManager

theorem Page.isFull_iff (p : Page) :
    p.isFull = true ↔ ∀ i < slotsPerPage p.schema.width, (p.stored i).isSome = true := by
  unfold isFull
  rw [Option.isNone_iff_eq_none, firstFree?_eq_none_iff]
  simp only [isUsed_eq]
  rfl

namespace Placing

/-- The page that was looked at is full. -/
def advance : Placing → Placing
  | .starting => .starting
  | .searching next count => .searching (next + 1) count
  | .appending => .appending

/-- How many steps are left, if the table has so many pages and nobody else is at work. -/
def stepsLeft (pages : Nat) : Placing → Nat
  | .starting => pages + 3
  | .searching next count => count - next + 2
  | .appending => 1

end Placing

namespace Store

variable {s s' : Store} {t u : TxnId} {p : PageId} {f : FrameId} {page : Page} {table : Table}
  {tb : TableId} {tuple tuple' : Tuple} {placing : Placing} {c c' : Call} {r : Store × Progress}
  {e : Event} {next count : Nat}

def Full (s : Store) (p : PageId) : Prop := ∃ page, s.pageAt? p = some page ∧ page.isFull = true

/-- A full page that a transaction holds exclusively. -/
structure Taken (s : Store) (t : TxnId) (p : PageId) : Prop where
  held : s.locks.modeOf p t = some .exclusive
  full : s.Full p

theorem Sound.full_iff (hs : s.Sound) (ht : s.catalog.table? p.table = some table) :
    s.Full p ↔ ∀ i < slotsPerPage table.schema.width, (s.shown p i).isSome = true := by
  constructor
  · rintro ⟨page, hpage, hfull⟩
    obtain ⟨_, hstored, table', ht', hschema, _⟩ := hs.pageAt?_eq_some hpage
    rw [ht] at ht'
    cases ht'
    rwa [page.isFull_iff, hstored, hschema] at hfull
  · intro hused
    cases hp : s.pageAt? p with
    | none =>
      have hslot := hused 0 (hs.catalog.roomy _ _ ht)
      rw [hs.pageAt?_eq_none hp] at hslot
      cases hslot
    | some page =>
      obtain ⟨_, hstored, table', ht', hschema, _⟩ := hs.pageAt?_eq_some hp
      rw [ht] at ht'
      cases ht'
      refine ⟨page, hp, ?_⟩
      rwa [page.isFull_iff, hstored, hschema]

theorem Full.exists_table (h : s.Full p) (hs : s.Sound) :
    ∃ table, s.catalog.table? p.table = some table := by
  obtain ⟨page, hpage, _⟩ := h
  obtain ⟨_, _, table, ht, _⟩ := hs.pageAt?_eq_some hpage
  exact ⟨table, ht⟩

theorem Sound.full_congr (hs : s.Sound) (hs' : s'.Sound) (hlasts : Lasts s s')
    (h : s'.shown p = s.shown p) : s'.Full p ↔ s.Full p := by
  constructor
  · intro hfull
    obtain ⟨table', ht'⟩ := hfull.exists_table hs'
    obtain ⟨table, ht, hfresh⟩ := Catalog.table?_of_fresh hlasts.tables.symm ht'
    rw [hs'.full_iff ht', h] at hfull
    rwa [hs.full_iff ht, Table.schema_of_fresh hfresh]
  · intro hfull
    obtain ⟨table, ht⟩ := hfull.exists_table hs
    obtain ⟨table', ht', hfresh⟩ := Catalog.table?_of_fresh hlasts.tables ht
    rw [hs.full_iff ht, ← h] at hfull
    rwa [hs'.full_iff ht', Table.schema_of_fresh hfresh]

/-- Nobody but the transaction itself gives up its exclusive lock. -/
theorem Turn.exclusive (h : Turn s s' e) (he : e.Plain) (hopen : ¬ e.Ends t)
    (hm : s.locks.modeOf p t = some .exclusive) : s'.locks.modeOf p t = some .exclusive := by
  cases h with
  | quiet _ hretains => exact hretains.exclusive hm
  | edited _ hretains _ _ => exact hretains.exclusive hm
  | halted _ hlocks => rwa [hlocks]
  | committed _ hfrees _ => rwa [hfrees, if_neg (Ne.symm hopen)]
  | stuck _ hlocks => rwa [hlocks]
  | aborted hfrees _ _ _ => rwa [hfrees, if_neg (Ne.symm hopen)]
  | restarted => exact absurd trivial hopen
  | flushed => exact he.elim
  | discarded => exact he.elim
  | released => exact he.elim

theorem Serves.taken (h : s.Serves t .exclusive p f page) (hfull : page.isFull = true) :
    s.Taken t p := by
  obtain ⟨k, hk, hcovers⟩ := h.locked
  rw [LockMode.eq_exclusive_of_covers hcovers] at hk
  exact ⟨hk, page, pageAt?_of_cached (page?_of_frame h.copy h.frame), hfull⟩

theorem pageCount_le_reach (s : Store) (tb : TableId) : s.pageCount tb ≤ s.reach tb := by
  unfold reach
  generalize s.pageCount tb = n
  induction s.cache.pages generalizing n with
  | nil => exact Nat.le_refl n
  | cons p _ ih => exact (Nat.le_max_left n _).trans (ih _)

/-! ## A step of an insertion -/

/-- An insertion is answered, waits, turns to what it does next, or has found a page full. -/
theorem Outcome.of_insertion (h : Outcome s t (.insert tb tuple true placing) r) :
    (∃ a, r.2 = .done a) ∨ (∃ p m, r.2 = .waiting p m (.insert tb tuple true placing)) ∨
    (∃ c', (s.aim (.insert tb tuple true placing)).2 = .onward c' ∧ r.2 = .next c') ∨
    ∃ p, (Call.insert tb tuple true placing).Wants p ∧ r.1.Taken t p ∧
      r.2 = .next (.insert tb tuple true placing.advance) := by
  cases h with
  | @finish s' a _ => exact .inl ⟨a, rfl⟩
  | @onward s' c' haim => exact .inr (.inr (.inl ⟨c', haim, rfl⟩))
  | asks hasks =>
    cases hasks with
    | waits => exact .inr (.inl ⟨_, _, rfl⟩)
    | failed => exact .inl ⟨_, rfl⟩
    | locked hlock => cases hlock
    | @used s₁ p f page hwants _ _ hserves =>
      cases hfull : page.isFull with
      | true =>
        have huse : s₁.use t f page (.insert tb tuple true placing) =
            (s₁, .next (.insert tb tuple true placing.advance)) := by
          simp only [use, hfull, if_true]
          cases placing <;> rfl
        rw [huse]
        exact .inr (.inr (.inr ⟨p, hwants, hserves.taken hfull, rfl⟩))
      | false =>
        have hends : (s₁.use t f page (.insert tb tuple true placing)).2.call? = none :=
          use_of_room hfull
        generalize s₁.use t f page (.insert tb tuple true placing) = r at hends
        obtain ⟨s', x⟩ := r
        cases x with
        | next => cases hends
        | waiting => cases hends
        | done a => exact .inl ⟨a, rfl⟩

end Store

namespace Engine

variable {σ σ₁ σ' : Engine} {es : List Event} {t u : TxnId} {a : Action} {c c' : Call}
  {r : Store × Progress} {tb : TableId} {tuple tuple' : Tuple} {p : PageId} {f : FrameId}
  {count? : Option Nat} {placing : Placing} {next count : Nat} {s₀ : Store}

/-- How many pages an insertion has counted, after an action: as many as there are at the first
step of its call. -/
def counted (σ : Engine) (t : TxnId) (tb : TableId) (a : Action) (count? : Option Nat) :
    Option Nat :=
  match σ.moved? a with
  | some (u, _) => if u = t then some (count?.getD (σ.store.pageCount tb)) else count?
  | none => count?

/-- An insertion of a transaction under way, with what others do in the meantime, and how many pages
it has counted. -/
inductive Inserting (σ : Engine) (t : TxnId) (tb : TableId) (tuple : Tuple) :
    Engine → Option Nat → Prop where
  | called : σ.Allows (.call t (.insertion tb tuple)) →
      Inserting σ t tb tuple (σ.act (.call t (.insertion tb tuple))) none
  | acted {σ₁ : Engine} {count? : Option Nat} (a : Action) :
      Inserting σ t tb tuple σ₁ count? → σ₁.Allows a → σ₁.Ordinary a → σ₁.calls t ≠ none →
      Inserting σ t tb tuple (σ₁.act a) (σ₁.counted t tb a count?)

/-- How far an insertion has got: it is to begin, or the pages before the next one are full and
held, or all pages that it has counted are. -/
inductive Passed (σ : Engine) (t : TxnId) (tb : TableId) (tuple : Tuple) :
    Option Nat → Call → Prop where
  | starting : σ.store.locks.Awake t → Passed σ t tb tuple none (.insertion tb tuple)
  | searching {next count : Nat} : (∀ i < next, σ.store.Taken t ⟨tb, i⟩) →
      Passed σ t tb tuple (some count) (.insert tb tuple true (.searching next count))
  | appending {count : Nat} : (∀ i < count, σ.store.Taken t ⟨tb, i⟩) →
      Passed σ t tb tuple (some count) (.insert tb tuple true .appending)

/-! ## What every action keeps -/

/-- A page that an insertion has found full stays so, and stays held. -/
theorem Coherent.taken (h : Coherent σ) (ha : σ.Allows a) (ho : σ.Ordinary a)
    (hsp : (σ.event a).Spares t) (hp : σ.store.Taken t p) : (σ.act a).store.Taken t p := by
  obtain ⟨hlawful, hlasts, hturn⟩ := h.toLawful.act ha ho.regular
  have hrun : Run Ordinary σ [σ.event a] (σ.act a) := .act a .start ha ho
  have hspares : ∀ e ∈ [σ.event a], e.Spares t := by simpa using hsp
  have hheld : σ.store.locks.modeOf p t ≠ none := by
    rw [hp.held]
    exact Option.some_ne_none _
  obtain ⟨_, hshown⟩ := hrun.shown_of_held (fun _ _ => id) h hheld
    fun e he => (hspares e he).not_ends
  rw [Ledger.pending_of_spares hspares] at hshown
  exact ⟨hturn.exclusive (plain_event σ ho.1) hsp.not_ends hp.held,
    (h.sound.full_congr hlawful.sound hlasts hshown).2 hp.full⟩

theorem moved_of_starting (hawake : σ.store.locks.Awake t) (ha : σ.Allows a)
    (hm : σ.moved? a = some (t, .insertion tb tuple, r)) :
    (∃ e, r.2 = .done (.inserted tuple (.error e))) ∨
      r.2 = .next (.insert tb tuple true (.searching 0 (σ.store.pageCount tb))) := by
  obtain ⟨_, ⟨rfl, rfl⟩ | ⟨w, rfl, rfl, rfl⟩ | ⟨w, rfl, rfl, rfl⟩⟩ := moved_cases hm
  · rcases σ.store.step_cases t (.insertion tb tuple) with
      ⟨b, haim, hstep⟩ | ⟨c', haim, hstep⟩ | ⟨q, m, c', haim, _⟩
    · obtain ⟨_, haims⟩ := Store.aims_of_aim haim
      cases haims
      rw [hstep]
      exact .inl ⟨_, rfl⟩
    · obtain ⟨_, haims⟩ := Store.aims_of_aim haim
      cases haims
      rw [hstep]
      exact .inr rfl
    · obtain ⟨_, haims⟩ := Store.aims_of_aim haim
      cases haims
  · exact absurd rfl (hawake w ha.1)
  · exact absurd rfl (hawake w ha)

theorem Coherent.passed_moved (h : Coherent σ) (ha : σ.Allows a) (ho : σ.Ordinary a)
    (hs : Passed σ t tb tuple count? c) (hm : σ.moved? a = some (t, c, r))
    (hc' : r.2.call? = some c') :
    Passed (σ.act a) t tb tuple (σ.counted t tb a count?) c' := by
  obtain ⟨_, hact, hevent⟩ := act_of_moved hm
  have hsp : (σ.event a).Spares t := by
    rw [hevent, edit?_of_call? hc']
    exact id
  have hkeep : ∀ q, σ.store.Taken t q → (σ.act a).store.Taken t q :=
    fun q hq => h.taken ha ho hsp hq
  have hcounted : σ.counted t tb a count? = some (count?.getD (σ.store.pageCount tb)) := by
    simp only [counted, hm, if_true]
  rw [hcounted]
  cases hs with
  | starting hawake =>
    rcases moved_of_starting hawake ha hm with ⟨e, hr⟩ | hr
    · rw [hr] at hc'
      cases hc'
    · rw [hr] at hc'
      cases hc'
      exact .searching fun i hi => absurd hi (Nat.not_lt_zero i)
  | @searching next count hpassed =>
    rcases (h.outcome ha ho.regular hm).of_insertion with
      ⟨b, hr⟩ | ⟨q, m, hr⟩ | ⟨d, haim, hr⟩ | ⟨q, hwants, htaken, hr⟩
    · rw [hr] at hc'
      cases hc'
    · rw [hr] at hc'
      cases hc'
      exact .searching fun i hi => hkeep _ (hpassed i hi)
    · rw [hr] at hc'
      cases hc'
      obtain ⟨_, haims⟩ := Store.aims_of_aim haim
      cases haims with
      | passed hend => exact .appending fun i hi => hkeep _ (hpassed i (Nat.lt_of_lt_of_le hi hend))
    · rw [hr] at hc'
      cases hc'
      refine .searching fun i hi => ?_
      rcases Nat.lt_succ_iff_lt_or_eq.1 hi with hlt | rfl
      · exact hkeep _ (hpassed i hlt)
      · obtain rfl : q = ⟨tb, i⟩ := hwants
        rw [hact]
        exact htaken
  | @appending count hpassed =>
    have hsame : c' = .insert tb tuple true .appending := by
      rcases (h.outcome ha ho.regular hm).of_insertion with
        ⟨b, hr⟩ | ⟨q, m, hr⟩ | ⟨d, haim, _⟩ | ⟨q, _, _, hr⟩
      · rw [hr] at hc'
        cases hc'
      · rw [hr] at hc'
        cases hc'
        rfl
      · obtain ⟨_, haims⟩ := Store.aims_of_aim haim
        cases haims
      · rw [hr] at hc'
        cases hc'
        rfl
    rw [hsame]
    exact .appending fun i hi => hkeep _ (hpassed i hi)

theorem Coherent.passed_beside (h : Coherent σ) (ha : σ.Allows a) (ho : σ.Ordinary a)
    (hs : Passed σ t tb tuple count? c) (hcall : σ.calls t = some c)
    (hm : ∀ d r, σ.moved? a ≠ some (t, d, r)) (hc' : (σ.act a).calls t = some c') :
    Passed (σ.act a) t tb tuple count? c' := by
  rcases calls_beside ha hcall (hm c) with hnone | ⟨hsame, hsp⟩
  · rw [hnone] at hc'
    cases hc'
  · rw [hsame] at hc'
    cases hc'
    cases hs with
    | starting hawake => exact .starting (h.awake_of_act ha ho.regular hm hawake)
    | searching hpassed => exact .searching fun i hi => h.taken ha ho hsp (hpassed i hi)
    | appending hpassed => exact .appending fun i hi => h.taken ha ho hsp (hpassed i hi)

theorem Inserting.passed (h : Coherent σ) (hi : Inserting σ t tb tuple σ₁ count?) :
    Coherent σ₁ ∧ ∀ c, σ₁.calls t = some c → Passed σ₁ t tb tuple count? c := by
  induction hi with
  | called hbegin =>
    refine ⟨(h.act hbegin ⟨rfl, fun _ htb => by cases htb⟩).1, fun c hc => ?_⟩
    have hc : Function.update σ.calls t (some (.insertion tb tuple)) t = some c := hc
    rw [Function.update_self] at hc
    cases hc
    exact .starting (h.awake hbegin)
  | @acted σ₁ count? a _ ha ho hbusy ih =>
    obtain ⟨hcoh, hfar⟩ := ih
    refine ⟨(hcoh.act ha ho).1, fun c' hc' => ?_⟩
    obtain ⟨c, hc⟩ := Option.ne_none_iff_exists'.1 hbusy
    by_cases hown : ∃ d r, σ₁.moved? a = some (t, d, r)
    · obtain ⟨d, r, hm⟩ := hown
      obtain ⟨hd, hact, _⟩ := act_of_moved hm
      have hgoes : r.2.call? = some c' := by
        rw [hact] at hc'
        have hc' : Function.update σ₁.calls t r.2.call? t = some c' := hc'
        rwa [Function.update_self] at hc'
      exact hcoh.passed_moved ha ho (hfar d hd) hm hgoes
    · have hm : ∀ d r, σ₁.moved? a ≠ some (t, d, r) := fun d r hm => hown ⟨d, r, hm⟩
      have hcounted : σ₁.counted t tb a count? = count? := by
        unfold counted
        cases hmoved : σ₁.moved? a with
        | none => rfl
        | some y =>
          obtain ⟨u, d, r⟩ := y
          refine if_neg ?_
          rintro rfl
          exact hm d r hmoved
      rw [hcounted]
      exact hcoh.passed_beside ha ho (hfar c hc) hc hm hc'

/-! ## The place of the tuple -/

/-- Where a tuple has been put: into the lowest free slot of a page, while all pages before it that
were counted are full and held. -/
structure Placed (σ σ' : Engine) (t : TxnId) (tb : TableId) (tuple : Tuple) (count : Nat)
    (r : RecordId) : Prop where
  table_eq : r.page.table = tb
  locked : σ'.store.locks.modeOf r.page t = some .exclusive
  content : σ'.store.content r.page r.slot = some (tuple.readBack r)
  room : ¬ σ.store.Full r.page
  free : σ.store.content r.page r.slot = none
  lowest : ∀ i < r.slot, (σ.store.content r.page i).isSome = true
  before : ∀ n < r.page.no, n < count → σ.store.Taken t ⟨tb, n⟩ ∧ σ'.store.Taken t ⟨tb, n⟩

/-- An insertion that succeeds has wanted the page of its record, and has taken the lowest free slot
there. -/
theorem Lawful.inserted_lowest (h : Lawful σ) (ha : σ.Allows a) (ho : σ.Regular a)
    (hans : σ.answered? a = some (t, .insert tb tuple true placing, .inserted tuple' (.ok f))) :
    ∃ r, tuple' = { tuple with record := some r } ∧
      (Call.insert tb tuple true placing).Wants r.page ∧
      ∀ i < r.slot, (σ.store.content r.page i).isSome = true := by
  have hout := (h.outcome_of_answered ha ho hans).1
  generalize hr : ((σ.act a).store, Progress.done (.inserted tuple' (.ok f))) = r at hout
  cases hout with
  | finish haim =>
    cases hr
    obtain ⟨e, he⟩ := Store.finish_of_insert haim
    cases he
  | onward haim => cases hr
  | asks hasks =>
    cases hasks with
    | waits => cases hr
    | failed => cases hr
    | locked hlock => cases hlock
    | @used s₁ p g page hwants _ hshown hserves =>
      obtain ⟨slot, _, hfree, _, _, hrec⟩ := Store.used_insert (congrArg Prod.snd hr.symm)
      rw [hserves.id_eq] at hrec
      refine ⟨⟨p, slot⟩, hrec, hwants, fun i hi => ?_⟩
      rw [h.sound.isSome_content, ← hshown, ← hserves.stored, ← Page.isUsed_eq]
      exact (Page.firstFree?_eq_some_iff.1 hfree).2.2 i hi

theorem Coherent.places (h : Coherent σ) (ha : σ.Allows a) (ho : σ.Ordinary a)
    (hs : Passed σ t tb tuple count? c)
    (hans : σ.answered? a = some (t, c, .inserted tuple' (.ok f))) :
    ∃ count r, count? = some count ∧ tuple' = { tuple with record := some r } ∧
      Placed σ (σ.act a) t tb tuple count r := by
  obtain ⟨s, hm⟩ := moved_of_answered hans
  -- the call is past its first step, and has passed the pages before the one that it wants
  obtain ⟨count, placing, rfl, rfl, hpassed⟩ : ∃ count placing, count? = some count ∧
      c = .insert tb tuple true placing ∧ ∀ p, c.Wants p →
        ∀ n < p.no, n < count → σ.store.Taken t ⟨tb, n⟩ := by
    cases hs with
    | starting hawake => rcases moved_of_starting hawake ha hm with ⟨e, hr⟩ | hr <;> cases hr
    | @searching next count hpassed =>
      refine ⟨count, _, rfl, rfl, fun p hp n hn _ => hpassed n ?_⟩
      obtain rfl : p = ⟨tb, next⟩ := hp
      exact hn
    | @appending count hpassed => exact ⟨count, _, rfl, rfl, fun _ _ n _ hn => hpassed n hn⟩
  obtain ⟨hlawful, hlasts, hturn⟩ := h.toLawful.act ha ho.regular
  obtain ⟨r, hrec, hwants, hlowest⟩ := h.inserted_lowest ha ho.regular hans
  obtain ⟨r', bytes, hrec', hbytes, hedit, htakes⟩ := h.inserted ha ho.regular hans
  obtain rfl : r = r' := by
    rw [hrec] at hrec'
    exact Option.some.inj (congrArg Tuple.record hrec')
  rw [hedit] at hturn
  refine ⟨count, r, rfl, hrec, htakes.table_eq, ?_, ?_, ?_, ?_, hlowest, fun n hn hcount => ?_⟩
  · cases hturn with
    | edited _ _ hmode _ => exact hmode
  · have hcontents := hturn.contents_of_inserted h.sound hlawful.sound hlasts htakes hbytes
    have hat := congrFun hcontents r
    rwa [Function.update_self] at hat
  · intro hfull
    obtain ⟨table, ht, hschema⟩ := htakes.schema
    rw [h.sound.full_iff ht, hschema] at hfull
    have hslot := hfull r.slot htakes.slot_lt
    rw [htakes.free] at hslot
    cases hslot
  · exact htakes.contents h.sound
  · have htaken := hpassed r.page hwants n hn hcount
    have hne : (⟨tb, n⟩ : PageId) ≠ r.page := by
      intro he
      rw [← he] at hn
      exact Nat.lt_irrefl n hn
    have hshown : (σ.act a).store.shown ⟨tb, n⟩ = σ.store.shown ⟨tb, n⟩ := by
      rw [hturn.shown_of_edited]
      exact if_neg hne
    refine ⟨htaken, hturn.exclusive trivial id htaken.held, ?_⟩
    exact (h.sound.full_congr hlawful.sound hlasts hshown).2 htaken.full

/-! ## With nobody else at work -/

/-- A call that does not append leaves every file as long as it was. -/
theorem Lawful.sized_of_search (h : Lawful σ) (ha : σ.Allows a)
    (hm : σ.moved? a = some (t, c, r)) (hnone : c.appends? = none) :
    Store.Sized σ.store r.1 := by
  obtain ⟨hcall, ⟨rfl, rfl⟩ | ⟨w, rfl, rfl, rfl⟩ | ⟨w, rfl, rfl, rfl⟩⟩ := moved_cases hm
  · exact (h.stage_search hcall ha.2 hnone (.refl _)).1
  · exact Store.decided_sized h.sound (h.marks _ c hcall) _ _ _ _
  · exact Store.decided_sized h.sound (h.marks _ c hcall) _ _ _ _

/-- An insertion has the page that it has appended, or waits for it: it does not go round again. -/
theorem Lawful.append_ends (h : Lawful σ) (happends : c.appends? = some tb)
    (hfits : σ.store.wholeCount tb < 4294967296) (c' : Call) :
    (σ.store.step t c).2 ≠ .next c' := by
  rcases Store.aim_sizes h.sound happends hfits with ⟨b, haim, _⟩ | ⟨haim, _⟩
  · rw [Store.step_of_finish haim]
    exact Progress.noConfusion
  · obtain ⟨hs, hk⟩ := Store.aim_spec (W := fun _ => False) h.sound c fun u hu => by
      rw [happends] at hu
      cases hu
      exact hfits
    have hempty : (σ.store.aim c).1.shown ⟨tb, σ.store.wholeCount tb⟩ = fun _ => none := by
      rw [hk.shown]
      exact h.sound.shown_past_end (Nat.le_refl _)
    rw [Store.step_of_page haim]
    intro hnext
    obtain ⟨hasleep, _⟩ := Store.decided_of_empty hs hempty happends
      (congrArg Progress.call? hnext)
    generalize (σ.store.aim c).1.locks.request t _ _ = x at hasleep hnext
    obtain ⟨locks, verdict⟩ := x
    cases hasleep
    cases hnext

theorem regular_step (hcall : σ.calls t = some (.insert tb tuple true placing))
    (hfits : σ.store.wholeCount tb < 4294967296) : σ.Regular (.step t) := by
  refine ⟨trivial, fun u hu => ?_⟩
  simp only [appends?, hcall, Option.bind_some] at hu
  cases placing with
  | starting => cases hu
  | searching => cases hu
  | appending =>
    cases hu
    exact hfits

/-- A step after which an insertion goes on brings it nearer to its end. -/
theorem Lawful.steps_on (h : Lawful σ) (hcall : σ.calls t = some (.insert tb tuple true placing))
    (hawake : σ.store.locks.Awake t) (hfits : σ.store.wholeCount tb < 4294967296)
    (hnext : (σ.store.step t (.insert tb tuple true placing)).2 = .next c') :
    ∃ placing', c' = .insert tb tuple true placing' ∧
      placing'.stepsLeft (σ.store.pageCount tb) < placing.stepsLeft (σ.store.pageCount tb) ∧
      Store.Sized σ.store (σ.store.step t (.insert tb tuple true placing)).1 := by
  have hm : σ.moved? (.step t) = some (t, .insert tb tuple true placing,
      σ.store.step t (.insert tb tuple true placing)) := by
    simp only [moved?, hcall, Option.map_some]
  have ha : σ.Allows (.step t) := ⟨by rw [hcall]; rfl, hawake⟩
  cases placing with
  | starting =>
    rcases moved_of_starting hawake ha hm with ⟨e, hr⟩ | hr
    · rw [hnext] at hr
      cases hr
    · rw [hnext] at hr
      cases hr
      exact ⟨_, rfl, by simp [Placing.stepsLeft], h.sized_of_search ha hm rfl⟩
  | searching next count =>
    have hsized := h.sized_of_search ha hm rfl
    rcases σ.store.step_cases t (.insert tb tuple true (.searching next count)) with
      ⟨b, _, hstep⟩ | ⟨d, haim, hstep⟩ | ⟨q, m, d, haim, _⟩
    · rw [hstep] at hnext
      cases hnext
    · rw [hstep] at hnext
      cases hnext
      obtain ⟨_, haims⟩ := Store.aims_of_aim haim
      cases haims
      exact ⟨_, rfl, by simp [Placing.stepsLeft], hsized⟩
    · have hlt : next < count := by
        obtain ⟨_, haims⟩ := Store.aims_of_aim haim
        cases haims with
        | looks hlt => exact hlt
      rcases (h.outcome ha (regular_step hcall hfits) hm).of_insertion with
        ⟨b, hr⟩ | ⟨_, _, hr⟩ | ⟨d', haim', _⟩ | ⟨_, _, _, hr⟩
      · rw [hnext] at hr
        cases hr
      · rw [hnext] at hr
        cases hr
      · rw [haim] at haim'
        cases haim'
      · rw [hnext] at hr
        cases hr
        refine ⟨_, rfl, ?_, hsized⟩
        simp only [Placing.stepsLeft, Placing.advance]
        omega
  | appending => exact absurd hnext (h.append_ends rfl hfits c')

theorem Lawful.run_ends (n : Nat) :
    ∀ {σ : Engine} {placing : Placing}, Lawful σ →
      σ.calls t = some (.insert tb tuple true placing) → σ.store.locks.Awake t →
      σ.store.wholeCount tb < 4294967296 → placing.stepsLeft (σ.store.pageCount tb) ≤ n →
      ∀ c', (Store.run t n σ.store (.insert tb tuple true placing)).2 ≠ .next c' := by
  induction n with
  | zero =>
    intro σ placing _ _ _ _ hleft
    cases placing <;> simp [Placing.stepsLeft] at hleft
  | succ n ih =>
    intro σ placing h hcall hawake hfits hleft c'
    have hordinary := regular_step hcall hfits
    have hlawful := (h.step hordinary hcall hawake).1
    unfold Store.run
    rcases hr : σ.store.step t (.insert tb tuple true placing) with ⟨s, x⟩
    cases x with
    | done => exact Progress.noConfusion
    | waiting => exact Progress.noConfusion
    | next d =>
      have hnext := congrArg Prod.snd hr
      have hwakes := h.awake_of_next hordinary hcall hawake hnext
      obtain ⟨placing', rfl, hless, hsized⟩ := h.steps_on hcall hawake hfits hnext
      rw [hr] at hlawful hwakes hsized
      have hcount : s.pageCount tb = σ.store.pageCount tb := by
        rw [Store.pageCount_eq, Store.pageCount_eq, hsized tb]
      refine ih hlawful (Function.update_self ..) hwakes ?_ ?_ c'
      · exact (hsized tb).trans_lt hfits
      · change placing'.stepsLeft (s.pageCount tb) ≤ n
        rw [hcount]
        omega

theorem Inserting.counted_le (hi : Inserting σ t tb tuple σ₁ count?) (h : Coherent σ) :
    ∀ n ∈ count?, n ≤ σ₁.store.wholeCount tb := by
  induction hi with
  | called => exact fun n hn => by cases hn
  | @acted σ₁ count? a hins ha ho _ ih =>
    have hgrows := ((hins.passed h).1.toLawful.act ha ho.regular).2.1.grows tb
    intro n hn
    unfold counted at hn
    split at hn
    · split at hn
      · cases count? with
        | none =>
          cases hn
          rw [Store.pageCount_eq]
          exact (Nat.mod_le _ _).trans hgrows
        | some count =>
          cases hn
          exact (ih _ rfl).trans hgrows
      · exact (ih n hn).trans hgrows
    · exact (ih n hn).trans hgrows

/-- If nobody else is at work from now on, an insertion is answered or waits within the steps that
it is given. -/
theorem Inserting.ends (hi : Inserting σ t tb tuple σ₁ count?) (h : Coherent σ)
    (hcall : σ₁.calls t = some c) (hawake : σ₁.store.locks.Awake t)
    (hfits : σ₁.store.wholeCount tb < 4294967296) (c' : Call) :
    (Store.goOn t (σ₁.store, .next c)).2 ≠ .next c' := by
  obtain ⟨hcoh, hfar⟩ := hi.passed h
  have hcounted := hi.counted_le h
  have hpages : σ₁.store.pageCount tb = σ₁.store.wholeCount tb := by
    rw [Store.pageCount_eq, Nat.mod_eq_of_lt hfits]
  have hreach := σ₁.store.pageCount_le_reach tb
  have hbudget : ∀ placing : Placing,
      placing.stepsLeft (σ₁.store.pageCount tb) ≤ σ₁.store.pageCount tb + 4 →
      placing.stepsLeft (σ₁.store.pageCount tb) ≤
        σ₁.store.budget (.insert tb tuple true placing) := by
    intro placing hleft
    simp only [Store.budget]
    omega
  cases hfar c hcall with
  | starting =>
    exact hcoh.toLawful.run_ends _ hcall hawake hfits (hbudget _ (by simp [Placing.stepsLeft])) c'
  | @searching next count =>
    have hle := hcounted count rfl
    refine hcoh.toLawful.run_ends _ hcall hawake hfits (hbudget _ ?_) c'
    simp only [Placing.stepsLeft]
    omega
  | appending =>
    exact hcoh.toLawful.run_ends _ hcall hawake hfits (hbudget _ (by simp [Placing.stepsLeft])) c'

end Engine
end PageStore

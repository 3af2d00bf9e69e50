import PageStore.Proofs.Store.Answers
import PageStore.Proofs.Store.Ledger

/-!
# PageStore.Proofs.Store.Isolation

What a transaction sees of a page that it has fetched. It holds the page until it ends, so nobody
else edits it, and nobody else's abort reads it anew: a page that another one has dirtied is held by
that one alone. So the page shows what it showed, with the transaction's own edits
(`Run.shown_of_held`), whoever commits, aborts or makes room in the meantime.

* `Views` and `Lists`: a page that a transaction holds, and its tuples, as they are shown.
* `Gathered`: the tuples of the first pages of a table, all of them held. A scan is always at such a
  point (`Scan.gathered`), and of two such lists one begins with the other.
* `Run.isolated`: what a transaction fetches, visits or scans twice is the same.
-/

namespace PageStore

/-- Whether an event ends a transaction, or is a failed abort of it. -/
def Event.Ends (t : TxnId) : Event → Prop
  | .committed u => u = t
  | .stuck u => u = t
  | .aborted u => u = t
  | .restarted => True
  | _ => False

/-- Whether an event neither ends a transaction nor is a change that it has made. -/
def Event.Spares (t : TxnId) : Event → Prop
  | .edited u _ => u ≠ t
  | e => ¬ e.Ends t

instance (t : TxnId) : (e : Event) → Decidable (e.Ends t)
  | .committed u => inferInstanceAs (Decidable (u = t))
  | .stuck u => inferInstanceAs (Decidable (u = t))
  | .aborted u => inferInstanceAs (Decidable (u = t))
  | .restarted => .isTrue trivial
  | .quiet => .isFalse id
  | .edited _ _ => .isFalse id
  | .halted _ => .isFalse id
  | .flushed => .isFalse id
  | .discarded _ => .isFalse id
  | .released _ _ => .isFalse id

namespace Ledger

variable {l : Ledger} {t u : TxnId} {e : Edit}

theorem pending_enter_self : (l.enter (.edited t e)).pending t = l.pending t ++ [e] :=
  Function.update_self ..

theorem pending_enter_of_ne (h : t ≠ u) : (l.enter (.edited u e)).pending t = l.pending t :=
  Function.update_of_ne h ..

theorem pending_of_spares {es : List Event} (h : ∀ e ∈ es, e.Spares t) :
    (ofEvents es).pending t = [] := by
  induction es with
  | nil => rfl
  | cons e earlier ih =>
    have hrest := ih fun e he => h e (List.mem_cons_of_mem _ he)
    have he := h e List.mem_cons_self
    change ((ofEvents earlier).enter e).pending t = []
    cases e with
    | edited u e => rw [pending_enter_of_ne (Ne.symm he), hrest]
    | committed u => exact (Function.update_of_ne (Ne.symm he) ..).trans hrest
    | aborted u => exact (Function.update_of_ne (Ne.symm he) ..).trans hrest
    | restarted => rfl
    | _ => exact hrest

end Ledger

theorem Event.Spares.not_ends {t : TxnId} {e : Event} (h : e.Spares t) : ¬ e.Ends t := by
  cases e with
  | edited u e => exact id
  | _ => exact h

theorem Event.spares_ofEdit {t u : TxnId} (h : u ≠ t) (e? : Option Edit) :
    (Event.ofEdit u e?).Spares t := by
  cases e? with
  | none => exact id
  | some e => exact h

namespace Store

variable {s s' : Store} {t u : TxnId} {p : PageId} {e : Event} {l : Ledger} {c : Content}
  {m : LockMode} {f : FrameId} {page page' : Page} {tb : TableId} {n k : Nat}
  {us us' xs ys seen : List Tuple} {r : Store × Progress}

/-- A page that a transaction holds shows what the transaction itself makes of it. -/
theorem Turn.shown_of_held (h : Turn s s' e) (he : e.Plain) (howned : s.Owned)
    (hlocks : s.locks.Sound) (hlocks' : s'.locks.Sound) (hm : s.locks.modeOf p t ≠ none)
    (hopen : ¬ e.Ends t) (hc : s.shown p = replay p (l.pending t) c) :
    s'.locks.modeOf p t ≠ none ∧ s'.shown p = replay p ((l.enter e).pending t) c := by
  -- so no other transaction's abort reads the page anew
  have hclean : ∀ u, u ≠ t → s.dirtier p ≠ some u := by
    intro u hu hd
    exact hu (hlocks.eq_of_exclusive (howned p u hd) hm).symm
  cases h with
  | quiet hsaves hretains => exact ⟨hretains.holds hm, (hsaves.shown p).trans hc⟩
  | @edited u e s₁ hsaves hretains hmode hedits =>
    have hm' := hretains.holds hm
    refine ⟨hm', ?_⟩
    rw [hedits.shown, hsaves.shown, hc]
    by_cases hp : p = e.record.page
    · -- whoever edits the page holds it exclusively
      rw [← hp] at hmode
      obtain rfl : t = u := hlocks'.eq_of_exclusive hmode hm'
      rw [if_pos hp, Ledger.pending_enter_self, replay_concat, if_pos hp.symm]
    · rw [if_neg hp]
      by_cases hu : t = u
      · rw [← hu, Ledger.pending_enter_self, replay_concat, if_neg (Ne.symm hp)]
      · rw [Ledger.pending_enter_of_ne hu]
  | halted hsaves hsame =>
    rw [hsame]
    exact ⟨hm, (hsaves.shown p).trans hc⟩
  | committed hsaves hfrees _ =>
    have hne := Ne.symm hopen
    rw [hfrees, if_neg hne]
    refine ⟨hm, ?_⟩
    rw [hsaves.shown, hc]
    exact congrArg (replay p · c) (Function.update_of_ne hne ..).symm
  | stuck hrev hsame =>
    rw [hsame]
    obtain ⟨_, hshown⟩ := (hrev.page p).resolve_right fun hp => hclean _ hopen hp.1
    exact ⟨hm, hshown.trans hc⟩
  | aborted hfrees _ hshown _ =>
    have hne := Ne.symm hopen
    rw [hfrees, if_neg hne, hshown, if_neg (hclean _ hopen)]
    refine ⟨hm, hc.trans ?_⟩
    exact congrArg (replay p · c) (Function.update_of_ne hne ..).symm
  | restarted => exact absurd trivial hopen
  | flushed => exact he.elim
  | discarded => exact he.elim
  | released => exact he.elim

/-- A transaction holds a page, and this is the page as it is shown. -/
structure Views (s : Store) (t : TxnId) (p : PageId) (page : Page) : Prop where
  held : s.locks.modeOf p t ≠ none
  id_eq : page.id = p
  stored : page.stored = s.shown p
  known : ∃ table, s.catalog.table? p.table = some table ∧ page.schema = table.schema ∧
    p.no < s.wholeCount p.table

/-- A transaction holds a page, and these are its tuples as they are shown. -/
def Lists (s : Store) (t : TxnId) (p : PageId) (us : List Tuple) : Prop :=
  ∃ page, s.Views t p page ∧ page.tuples = .ok us

theorem Serves.views (h : s.Serves t m p f page) : s.Views t p page where
  held := by
    obtain ⟨k, hk, _⟩ := h.locked
    rw [hk]
    exact Option.some_ne_none k
  id_eq := h.id_eq
  stored := h.stored
  known := h.known

theorem Views.schema_eq (h : s.Views t p page) (h' : s.Views u p page') :
    page.schema = page'.schema := by
  obtain ⟨table, htable, hschema, _⟩ := h.known
  obtain ⟨table', htable', hschema', _⟩ := h'.known
  rw [htable] at htable'
  cases htable'
  exact hschema.trans hschema'.symm

theorem Views.lasts (h : s.Views t p page) (hlasts : Lasts s s')
    (hm : s'.locks.modeOf p t ≠ none) (hshown : s'.shown p = s.shown p) :
    s'.Views t p page := by
  obtain ⟨table, htable, hschema, hno⟩ := h.known
  obtain ⟨table', htable', hfresh⟩ := Catalog.table?_of_fresh hlasts.tables htable
  exact ⟨hm, h.id_eq, h.stored.trans hshown.symm, table', htable',
    hschema.trans (Table.schema_of_fresh hfresh).symm, Nat.lt_of_lt_of_le hno (hlasts.grows _)⟩

theorem Lists.eq (h : s.Lists t p us) (h' : s.Lists t p us') : us = us' := by
  obtain ⟨page, hview, hus⟩ := h
  obtain ⟨page', hview', hus'⟩ := h'
  have htuples := Page.tuples_congr (hview.stored.trans hview'.stored.symm)
    (hview.id_eq.trans hview'.id_eq.symm) (hview.schema_eq hview')
  rw [hus, hus'] at htuples
  exact Except.ok.inj htuples

/-- The tuples of the first pages of a table, which a transaction holds. -/
inductive Gathered (s : Store) (t : TxnId) (tb : TableId) : Nat → List Tuple → Prop where
  | start : Gathered s t tb 0 []
  | page {n : Nat} {seen us : List Tuple} :
      Gathered s t tb n seen → s.Lists t ⟨tb, n⟩ us → Gathered s t tb (n + 1) (seen ++ us)

theorem Gathered.mono (h : Gathered s t tb n seen)
    (hlists : ∀ i us, s.Lists t ⟨tb, i⟩ us → s'.Lists t ⟨tb, i⟩ us) : Gathered s' t tb n seen := by
  induction h with
  | start => exact .start
  | page _ hus ih => exact .page ih (hlists _ _ hus)

theorem Gathered.le_wholeCount (h : Gathered s t tb n seen) : n ≤ s.wholeCount tb := by
  cases h with
  | start => exact Nat.zero_le _
  | page _ hus =>
    obtain ⟨_, hview, _⟩ := hus
    obtain ⟨_, _, _, hno⟩ := hview.known
    exact hno

theorem Gathered.eq (h : Gathered s t tb n xs) (h' : Gathered s t tb n ys) : xs = ys := by
  induction h generalizing ys with
  | start =>
    cases h'
    rfl
  | page _ hus ih =>
    cases h' with
    | page hys hus' => rw [ih hys, hus.eq hus']

theorem Gathered.take (h : Gathered s t tb n xs) (h' : Gathered s t tb k ys) (hle : n ≤ k) :
    xs <+: ys := by
  induction h' with
  | start =>
    obtain rfl : n = 0 := Nat.le_zero.1 hle
    obtain rfl := h.eq .start
    exact List.prefix_rfl
  | @page k seen us hseen hus ih =>
    rcases Nat.lt_or_eq_of_le hle with hlt | rfl
    · exact (ih (Nat.lt_succ_iff.1 hlt)).trans (List.prefix_append _ _)
    · obtain rfl := h.eq (.page hseen hus)
      exact List.prefix_rfl

theorem Outcome.of_scan (h : Outcome s t (.scan tb n seen) r) :
    (∃ failure, r.2 = .done (.scanned seen failure) ∧ (failure = none → s.pageCount tb ≤ n)) ∨
    (∃ p m, r.2 = .waiting p m (.scan tb n seen)) ∨
    ∃ us, r.2 = .next (.scan tb (n + 1) (seen ++ us)) ∧ r.1.Lists t ⟨tb, n⟩ us := by
  cases h with
  | finish haim =>
    obtain ⟨_, haims⟩ := aims_of_aim haim
    cases haims with
    | unscanned => exact .inl ⟨_, rfl, fun h => by cases h⟩
    | scanned hend => exact .inl ⟨none, rfl, fun _ => hend⟩
  | onward haim =>
    obtain ⟨_, haims⟩ := aims_of_aim haim
    cases haims
  | asks hasks =>
    cases hasks with
    | waits => exact .inr (.inl ⟨_, _, rfl⟩)
    | @failed _ e => exact .inl ⟨some e, rfl, fun h => by cases h⟩
    | locked hlock => cases hlock
    | @used s₁ p f page hwants _ _ hserves =>
      obtain rfl : p = ⟨tb, n⟩ := hwants
      cases htuples : page.tuples with
      | error e =>
        refine .inl ⟨some e, ?_, fun h => by cases h⟩
        simp only [use, htuples]
      | ok us =>
        refine .inr (.inr ⟨us, ?_, ?_⟩)
        · simp only [use, htuples]
        · simp only [use, htuples]
          exact ⟨page, hserves.views, htuples⟩

/-- A cursor gives a tuple that it has, or has none left, or fails, or waits, or loads a page. -/
theorem Outcome.of_cursor {k : Cursor} (h : Outcome s t (.next k) r) :
    (∃ tuple rest, k.loaded = tuple :: rest ∧
      r.2 = .done (.item { k with loaded := rest } (some (.ok tuple)))) ∨
    ((k.failed = false → k.loaded = [] ∧ s.pageCount k.table ≤ k.nextPage) ∧
      r.2 = .done (.item k none)) ∨
    (∃ e, r.2 = .done (.item { k with failed := true } (some (.error e)))) ∨
    (∃ p m, r.2 = .waiting p m (.next k)) ∨
    ∃ us, k.loaded = [] ∧
      r.2 = .next (.next { k with loaded := us, nextPage := k.nextPage + 1 }) ∧
      r.1.Lists t ⟨k.table, k.nextPage⟩ us := by
  cases h with
  | finish haim =>
    obtain ⟨_, haims⟩ := aims_of_aim haim
    cases haims with
    | spent hfailed =>
      refine .inr (.inl ⟨fun h => ?_, rfl⟩)
      rw [hfailed] at h
      cases h
    | gives hl => exact .inl ⟨_, _, hl, rfl⟩
    | uncounted => exact .inr (.inr (.inl ⟨_, rfl⟩))
    | ended hl hend => exact .inr (.inl ⟨fun _ => ⟨hl, hend⟩, rfl⟩)
  | onward haim =>
    obtain ⟨_, haims⟩ := aims_of_aim haim
    cases haims
  | asks hasks =>
    cases hasks with
    | waits => exact .inr (.inr (.inr (.inl ⟨_, _, rfl⟩)))
    | @failed _ e => exact .inr (.inr (.inl ⟨e, rfl⟩))
    | locked hlock => cases hlock
    | @used s₁ p f page hwants _ _ hserves =>
      obtain ⟨hempty, rfl⟩ : k.loaded = [] ∧ p = ⟨k.table, k.nextPage⟩ := hwants
      cases htuples : page.tuples with
      | error e =>
        refine .inr (.inr (.inl ⟨e, ?_⟩))
        simp only [use, htuples]
        rfl
      | ok us =>
        refine .inr (.inr (.inr (.inr ⟨us, hempty, ?_, ?_⟩)))
        · simp only [use, htuples]
        · simp only [use, htuples]
          exact ⟨page, hserves.views, htuples⟩

end Store

namespace Engine

variable {σ σ₀ σ₁ σ₂ σ₃ σ' : Engine} {es : List Event} {t u : TxnId} {p : PageId} {a a' : Action}
  {c : Call} {r : Store × Progress} {page page' : Page} {tb : TableId} {n : Nat}
  {us us' xs ys seen : List Tuple} {failure failure' : Option Error}

theorem Run.shown_of_held {ok : Engine → Action → Prop} (hok : ∀ σ a, ok σ a → Ordinary σ a)
    (h₀ : Coherent σ₀) (h : Run ok σ₀ es σ) (hm : σ₀.store.locks.modeOf p t ≠ none)
    (hopen : ∀ e ∈ es, ¬ e.Ends t) : σ.store.locks.modeOf p t ≠ none ∧
      σ.store.shown p = replay p ((Ledger.ofEvents es).pending t) (σ₀.store.shown p) := by
  induction h with
  | start => exact ⟨hm, rfl⟩
  | act a hrun ha hoka ih =>
    have hcoh := (hrun.coherent hok h₀).1
    have hord := hok _ _ hoka
    obtain ⟨hlawful, _, hturn⟩ := hcoh.toLawful.act ha hord.regular
    obtain ⟨hm, hshown⟩ := ih fun e he => hopen e (List.mem_cons_of_mem _ he)
    exact hturn.shown_of_held (plain_event _ hord.1) hcoh.owned hcoh.orderly.sound
      hlawful.orderly.sound hm (hopen _ List.mem_cons_self) hshown

theorem Run.views {ok : Engine → Action → Prop} (hok : ∀ σ a, ok σ a → Ordinary σ a)
    (h₀ : Coherent σ₀) (h : Run ok σ₀ es σ) (hv : σ₀.store.Views t p page)
    (hopen : ∀ e ∈ es, ¬ e.Ends t)
    (hown : ∀ e ∈ (Ledger.ofEvents es).pending t, e.record.page ≠ p) :
    σ.store.Views t p page := by
  obtain ⟨hm, hshown⟩ := h.shown_of_held hok h₀ hv.held hopen
  rw [replay_of_absent hown] at hshown
  exact hv.lasts (h.lawful (fun σ a ho => (hok σ a ho).regular) h₀.toLawful).2 hm hshown

theorem Run.gathered {ok : Engine → Action → Prop} (hok : ∀ σ a, ok σ a → Ordinary σ a)
    (h₀ : Coherent σ₀) (h : Run ok σ₀ es σ) (hg : σ₀.store.Gathered t tb n seen)
    (hopen : ∀ e ∈ es, ¬ e.Ends t)
    (hown : ∀ e ∈ (Ledger.ofEvents es).pending t, e.record.page.table ≠ tb) :
    σ.store.Gathered t tb n seen := by
  refine hg.mono fun i us hus => ?_
  obtain ⟨page, hview, htuples⟩ := hus
  refine ⟨page, h.views hok h₀ hview hopen fun e he hp => hown e he ?_, htuples⟩
  rw [hp]

theorem Run.gathered_of_spares {ok : Engine → Action → Prop} (hok : ∀ σ a, ok σ a → Ordinary σ a)
    (h₀ : Coherent σ₀) (h : Run ok σ₀ es σ) (hg : σ₀.store.Gathered t tb n seen)
    (hsp : ∀ e ∈ es, e.Spares t) : σ.store.Gathered t tb n seen := by
  refine h.gathered hok h₀ hg (fun e he => (hsp e he).not_ends) fun e he => ?_
  rw [Ledger.pending_of_spares hsp] at he
  cases he

/-- A page of which a scan or a cursor takes the tuples. -/
inductive Visits (σ : Engine) (a : Action) (t : TxnId) : PageId → List Tuple → Prop where
  | scan {tb : TableId} {n : Nat} {seen us : List Tuple} {s : Store} :
      σ.moved? a = some (t, .scan tb n seen, (s, .next (.scan tb (n + 1) (seen ++ us)))) →
      Visits σ a t ⟨tb, n⟩ us
  | cursor {k : Cursor} {us : List Tuple} {s : Store} :
      σ.moved? a = some (t, .next k,
        (s, .next (.next { k with loaded := us, nextPage := k.nextPage + 1 }))) →
      Visits σ a t ⟨k.table, k.nextPage⟩ us

theorem Lawful.visited (h : Lawful σ) (ha : σ.Allows a) (ho : σ.Regular a)
    (hv : σ.Visits a t p us) : (σ.act a).store.Lists t p us := by
  cases hv with
  | scan hm =>
    obtain ⟨_, hact, _⟩ := act_of_moved hm
    rw [hact]
    rcases (h.outcome ha ho hm).of_scan with ⟨_, hr, _⟩ | ⟨_, _, hr⟩ | ⟨us', hr, hlists⟩
    · cases hr
    · cases hr
    · obtain rfl : us = us' := by simpa using hr
      exact hlists
  | cursor hm =>
    obtain ⟨_, hact, _⟩ := act_of_moved hm
    rw [hact]
    rcases (h.outcome ha ho hm).of_cursor with
      ⟨_, _, _, hr⟩ | ⟨_, hr⟩ | ⟨_, hr⟩ | ⟨_, _, hr⟩ | ⟨us', _, hr, hlists⟩
    · cases hr
    · cases hr
    · cases hr
    · cases hr
    · obtain rfl : us = us' := by simpa using hr
      exact hlists

theorem Visits.spares (h : σ.Visits a t p us) : (σ.event a).Spares t := by
  cases h with
  | scan hm =>
    rw [(act_of_moved hm).2.2]
    exact id
  | cursor hm =>
    rw [(act_of_moved hm).2.2]
    exact id

/-! ## Scans -/

/-- Ordinary actions while a call of a transaction is under way. -/
def During (t : TxnId) (σ : Engine) (a : Action) : Prop := σ.Ordinary a ∧ σ.calls t ≠ none

/-- A scan of a whole table, from its call to its answer, with what others do in the meantime. -/
inductive Scan (σ : Engine) (t : TxnId) (tb : TableId) (xs : List Tuple)
    (failure : Option Error) : Engine → Prop where
  | scan {es : List Event} {σ' : Engine} {a : Action} {c : Call} :
      σ.Allows (.call t (.wholeScan tb)) →
      Run (During t) (σ.act (.call t (.wholeScan tb))) es σ' → σ'.Allows a → σ'.Ordinary a →
      σ'.answered? a = some (t, c, .scanned xs failure) → Scan σ t tb xs failure (σ'.act a)

/-- If a call of `t` is under way it is a scan, which has the tuples of the pages before. -/
def Scanning (σ : Engine) (t : TxnId) (tb : TableId) : Prop :=
  ∀ c, σ.calls t = some c → ∃ n seen, c = .scan tb n seen ∧ σ.store.Gathered t tb n seen

/-- What others do leaves a call of `t` as it is, or is a restart. -/
theorem calls_beside {c : Call} (ha : σ.Allows a) (hcall : σ.calls t = some c)
    (hm : ∀ r, σ.moved? a ≠ some (t, c, r)) :
    (σ.act a).calls t = none ∨ (σ.act a).calls t = some c ∧ (σ.event a).Spares t := by
  have hne : ∀ {u}, σ.calls u = none → u ≠ t := by
    rintro u hu rfl
    rw [hcall] at hu
    cases hu
  have hmoved : ∀ {u d r}, σ.moved? a = some (u, d, r) →
      (σ.act a).calls t = some c ∧ (σ.event a).Spares t := by
    intro u d r hr
    obtain ⟨hd, hact, hevent⟩ := act_of_moved hr
    have hu : u ≠ t := by
      rintro rfl
      rw [hcall] at hd
      cases hd
      exact hm r hr
    rw [hact, hevent]
    exact ⟨(Function.update_of_ne (Ne.symm hu) ..).trans hcall, Event.spares_ofEdit hu _⟩
  cases a with
  | step u =>
    obtain ⟨d, hd⟩ := Option.isSome_iff_exists.1 ha.1
    have hr : σ.moved? (.step u) = some (u, d, σ.store.step u d) := by
      simp only [moved?, hd, Option.map_some]
    exact .inr (hmoved hr)
  | resume w =>
    cases hd : σ.calls w.txn with
    | none => simp [act, event, hd, hcall, Event.Spares, Event.Ends]
    | some d =>
      have hr : σ.moved? (.resume w) = some (w.txn, d, σ.store.resume w d) := by
        simp only [moved?, hd, Option.map_some]
      exact .inr (hmoved hr)
  | expire w =>
    cases hd : σ.calls w.txn with
    | none => simp [act, event, hd, hcall, Event.Spares, Event.Ends]
    | some d =>
      have hr : σ.moved? (.expire w) = some (w.txn, d, σ.store.expire w d) := by
        simp only [moved?, hd, Option.map_some]
      exact .inr (hmoved hr)
  | call u d => exact .inr ⟨(Function.update_of_ne (Ne.symm (hne ha)) ..).trans hcall, id⟩
  | commit u =>
    refine .inr ⟨hcall, ?_⟩
    simp only [event]
    split
    · exact hne ha
    · exact id
  | abort u =>
    refine .inr ⟨hcall, ?_⟩
    simp only [event]
    split <;> exact hne ha
  | restart => exact .inl rfl
  | _ => exact .inr ⟨hcall, id⟩

theorem Coherent.views (h : Coherent σ) (ha : σ.Allows a) (ho : σ.Ordinary a)
    (hsp : (σ.event a).Spares t) (hv : σ.store.Views t p page) :
    (σ.act a).store.Views t p page := by
  have hrun : Run Ordinary σ [σ.event a] (σ.act a) := .act a .start ha ho
  have hsp : ∀ e ∈ [σ.event a], e.Spares t := by simpa using hsp
  refine hrun.views (fun _ _ => id) h hv (fun e he => (hsp e he).not_ends) fun e he => ?_
  rw [Ledger.pending_of_spares hsp] at he
  cases he

theorem Coherent.gathered (h : Coherent σ) (ha : σ.Allows a) (ho : σ.Ordinary a)
    (hsp : (σ.event a).Spares t) (hg : σ.store.Gathered t tb n seen) :
    (σ.act a).store.Gathered t tb n seen := by
  refine hg.mono fun i us hus => ?_
  obtain ⟨page, hview, htuples⟩ := hus
  exact ⟨page, h.views ha ho hsp hview, htuples⟩

theorem Coherent.scanning (h : Coherent σ) (ha : σ.Allows a) (ho : σ.Ordinary a)
    (hs : σ.Scanning t tb) (hcall : σ.calls t ≠ none) :
    (σ.act a).Scanning t tb ∧ ((σ.act a).calls t ≠ none → (σ.event a).Spares t) := by
  obtain ⟨c, hc⟩ := Option.ne_none_iff_exists'.1 hcall
  obtain ⟨n, seen, rfl, hg⟩ := hs c hc
  by_cases hm : ∃ r, σ.moved? a = some (t, .scan tb n seen, r)
  · -- the scan itself goes on
    obtain ⟨r, hm⟩ := hm
    obtain ⟨_, hact, hevent⟩ := act_of_moved hm
    have hout := (h.outcome ha ho.regular hm).of_scan
    have hquiet : r.2.edit? (.scan tb n seen) = none := by
      rcases hout with ⟨failure, hr, _⟩ | ⟨p, m, hr⟩ | ⟨us, hr, _⟩ <;> rw [hr] <;> rfl
    have hsp : (σ.event a).Spares t := by
      rw [hevent, hquiet]
      exact id
    refine ⟨fun c' hc' => ?_, fun _ => hsp⟩
    have hg' := h.gathered ha ho hsp hg
    rw [hact] at hc' hg' ⊢
    have hc' : Function.update σ.calls t r.2.call? t = some c' := hc'
    rw [Function.update_self] at hc'
    rcases hout with ⟨failure, hr, _⟩ | ⟨p, m, hr⟩ | ⟨us, hr, hlists⟩
    · rw [hr] at hc'
      cases hc'
    · rw [hr] at hc'
      cases hc'
      exact ⟨n, seen, rfl, hg'⟩
    · rw [hr] at hc'
      cases hc'
      exact ⟨n + 1, seen ++ us, rfl, .page hg' hlists⟩
  · rcases calls_beside ha hc fun r hr => hm ⟨r, hr⟩ with hnone | ⟨hsame, hsp⟩
    · refine ⟨fun c' hc' => ?_, fun h => absurd hnone h⟩
      rw [hnone] at hc'
      cases hc'
    · refine ⟨fun c' hc' => ?_, fun _ => hsp⟩
      rw [hsame] at hc'
      cases hc'
      exact ⟨n, seen, rfl, h.gathered ha ho hsp hg⟩

theorem Run.scanning (h₀ : Coherent σ₀) (hs : σ₀.Scanning t tb) (h : Run (During t) σ₀ es σ) :
    σ.Scanning t tb ∧ (σ.calls t ≠ none → ∀ e ∈ es, e.Spares t) := by
  induction h with
  | start => exact ⟨hs, fun _ _ he => by cases he⟩
  | act a hrun ha ho ih =>
    have hcoh := (hrun.coherent (fun _ _ ho => ho.1) h₀).1
    obtain ⟨hs', hsp⟩ := hcoh.scanning ha ho.1 ih.1 ho.2
    refine ⟨hs', fun hcall e he => ?_⟩
    rcases List.mem_cons.1 he with rfl | he
    · exact hsp hcall
    · exact ih.2 ho.2 e he

theorem Coherent.scanned (h : Coherent σ) (ha : σ.Allows a) (ho : σ.Ordinary a)
    (hs : σ.Scanning t tb) (hans : σ.answered? a = some (t, c, .scanned xs failure)) :
    (σ.event a).Spares t ∧ ∃ n, (σ.act a).store.Gathered t tb n xs ∧
      (failure = none → σ.store.pageCount tb ≤ n) := by
  obtain ⟨s, hm⟩ := moved_of_answered hans
  obtain ⟨hcall, _, hevent⟩ := act_of_moved hm
  obtain ⟨n, seen, rfl, hg⟩ := hs c hcall
  have hsp : (σ.event a).Spares t := by
    rw [hevent]
    exact id
  rcases (h.outcome ha ho.regular hm).of_scan with ⟨failure', hr, hcount⟩ | ⟨_, _, hr⟩ | ⟨_, hr, _⟩
  · cases hr
    exact ⟨hsp, n, h.gathered ha ho hsp hg, hcount⟩
  · cases hr
  · cases hr

/-- What a scan finds, and what it leaves of what has been gathered before. -/
theorem Scan.spec (h : Coherent σ) (hscan : σ.Scan t tb xs failure σ') :
    Coherent σ' ∧
      (∀ n ys, σ.store.Gathered t tb n ys → σ'.store.Gathered t tb n ys) ∧
      ∃ k, σ'.store.Gathered t tb k xs ∧
        (failure = none → σ'.store.wholeCount tb < 4294967296 →
          ∀ n ys, σ.store.Gathered t tb n ys → n ≤ k) := by
  cases hscan with
  | @scan es σ₁ a c hbegin hrun ha ho hans =>
    have h₀ : Coherent (σ.act (.call t (.wholeScan tb))) :=
      (h.act hbegin ⟨trivial, fun _ htb => by cases htb⟩).1
    have hs₀ : (σ.act (.call t (.wholeScan tb))).Scanning t tb := by
      intro c hc
      have hc : Function.update σ.calls t (some (.wholeScan tb)) t = some c := hc
      rw [Function.update_self] at hc
      cases hc
      exact ⟨0, [], rfl, .start⟩
    have hok : ∀ σ a, During t σ a → Ordinary σ a := fun _ _ ho => ho.1
    have hcoh := (hrun.coherent hok h₀).1
    obtain ⟨hs, hspares⟩ := hrun.scanning h₀ hs₀
    obtain ⟨s, hm⟩ := moved_of_answered hans
    have hbusy : σ₁.calls t ≠ none := by
      rw [(act_of_moved hm).1]
      exact Option.some_ne_none c
    have hkeep : ∀ n ys, σ.store.Gathered t tb n ys → σ₁.store.Gathered t tb n ys :=
      fun n ys hg => hrun.gathered_of_spares hok h₀ hg (hspares hbusy)
    obtain ⟨hsp, k, hg, hcount⟩ := hcoh.scanned ha ho hs hans
    refine ⟨(hcoh.act ha ho).1, fun n ys hn => hcoh.gathered ha ho hsp (hkeep n ys hn), k, hg,
      fun hfailure hfits n ys hn => ?_⟩
    have hgrows := (hcoh.toLawful.act ha ho.regular).2.1.grows tb
    calc
      n ≤ σ₁.store.wholeCount tb := (hkeep n ys hn).le_wholeCount
      _ = σ₁.store.pageCount tb := by
        rw [Store.pageCount_eq, Nat.mod_eq_of_lt (Nat.lt_of_le_of_lt hgrows hfits)]
      _ ≤ k := hcount hfailure

/-- What a transaction has fetched, visited or scanned is the same until it ends, but for its own
edits. -/
structure Isolated (σ : Engine) : Prop where
  /-- A page that is fetched shows from then on what it showed then, with the edits that the
  transaction itself makes of it; and so it is when the transaction fetches it again. -/
  fetches : ∀ {a t p access f page es σ'}, σ.Allows a → σ.Ordinary a →
    σ.answered? a = some (t, .fetch p access, .fetched (.ok (f, page))) →
    Run Ordinary (σ.act a) es σ' → (∀ e ∈ es, ¬ e.Ends t) →
    σ'.store.shown p = replay p ((Ledger.ofEvents es).pending t) page.stored ∧
    ∀ {a' access' f' page'}, σ'.Allows a' → σ'.Ordinary a' →
      σ'.answered? a' = some (t, .fetch p access', .fetched (.ok (f', page'))) →
      page'.stored = replay p ((Ledger.ofEvents es).pending t) page.stored ∧
      ((∀ e ∈ (Ledger.ofEvents es).pending t, e.record.page ≠ p) →
        ∀ slot, page'.isUsed slot = page.isUsed slot ∧ page'.tuple slot = page.tuple slot)
  /-- Scans and cursors that visit a page twice take the same tuples of it. -/
  visits : ∀ {a t p us es σ'}, σ.Allows a → σ.Ordinary a → σ.Visits a t p us →
    Run Ordinary (σ.act a) es σ' → (∀ e ∈ es, ¬ e.Ends t) →
    (∀ e ∈ (Ledger.ofEvents es).pending t, e.record.page ≠ p) →
    ∀ {a' us'}, σ'.Allows a' → σ'.Ordinary a' → σ'.Visits a' t p us' → us' = us
  /-- Of what two scans of a table find, one begins with the other; and the second begins with the
  first if it comes to the end of the table. -/
  scans : ∀ {t tb xs failure σ₁ es σ₂ ys failure' σ₃}, σ.Scan t tb xs failure σ₁ →
    Run Ordinary σ₁ es σ₂ → (∀ e ∈ es, ¬ e.Ends t) →
    (∀ e ∈ (Ledger.ofEvents es).pending t, e.record.page.table ≠ tb) →
    σ₂.Scan t tb ys failure' σ₃ →
    (xs <+: ys ∨ ys <+: xs) ∧
      (failure' = none → σ₃.store.wholeCount tb < 4294967296 → xs <+: ys)

theorem Coherent.fetches_again (h : Coherent σ) (ha : σ.Allows a) (ho : σ.Ordinary a)
    {access access' : Access} {f f' : FrameId}
    (hans : σ.answered? a = some (t, .fetch p access, .fetched (.ok (f, page))))
    (hrun : Run Ordinary (σ.act a) es σ') (hopen : ∀ e ∈ es, ¬ e.Ends t) (ha' : σ'.Allows a')
    (ho' : σ'.Ordinary a')
    (hans' : σ'.answered? a' = some (t, .fetch p access', .fetched (.ok (f', page'))))
    (hown : ∀ e ∈ (Ledger.ofEvents es).pending t, e.record.page ≠ p) (slot : Nat) :
    page'.isUsed slot = page.isUsed slot ∧ page'.tuple slot = page.tuple slot := by
  obtain ⟨hserves, _⟩ := h.fetched ha ho.regular hans
  have h₁ := (h.act ha ho).1
  have h₂ := (hrun.coherent (fun _ _ => id) h₁).1
  have hview := hrun.views (fun _ _ => id) h₁ hserves.views hopen hown
  have hsp : (σ'.event a').Spares t := by
    rw [(h₂.outcome_of_answered ha' ho'.regular hans').2]
    exact id
  have hview₁ := h₂.views ha' ho' hsp hview
  have hview₂ := (h₂.fetched ha' ho'.regular hans').1.views
  have hstored : page'.stored = page.stored := hview₂.stored.trans hview₁.stored.symm
  refine ⟨?_, ?_⟩
  · rw [Page.isUsed_eq, Page.isUsed_eq, hstored]
  · exact Page.tuple_congr hstored (hview₂.id_eq.trans hview₁.id_eq.symm)
      (hview₂.schema_eq hview₁) slot

/-- From the moment a transaction has got a page until it ends, nothing that others do changes what
it sees of the page. -/
theorem Run.isolated {config : PoolConfig} {v : Volume} {s₀ : Store}
    (hopen : Store.Opened config v s₀) (h : Run Ordinary (idle s₀) es σ) : σ.Isolated := by
  have hcoh := (h.coherent (fun _ _ => id) (coherent_idle hopen)).1
  refine ⟨?_, ?_, ?_⟩
  · intro a t p access f page es σ' ha ho hans hrun hends
    obtain ⟨hserves, _⟩ := hcoh.fetched ha ho.regular hans
    have h₁ := (hcoh.act ha ho).1
    have h₂ := (hrun.coherent (fun _ _ => id) h₁).1
    obtain ⟨_, hshown⟩ := hrun.shown_of_held (fun _ _ => id) h₁ hserves.views.held hends
    rw [← hserves.stored] at hshown
    refine ⟨hshown, fun ha' ho' hans' => ⟨?_, ?_⟩⟩
    · rw [(h₂.fetched ha' ho'.regular hans').2, hshown]
    · exact hcoh.fetches_again ha ho hans hrun hends ha' ho' hans'
  · intro a t p us es σ' ha ho hvisit hrun hends hown a' us' ha' ho' hvisit'
    have h₁ := (hcoh.act ha ho).1
    have h₂ := (hrun.coherent (fun _ _ => id) h₁).1
    obtain ⟨page, hview, htuples⟩ := hcoh.visited ha ho.regular hvisit
    have hview₂ := h₂.views ha' ho' hvisit'.spares
      (hrun.views (fun _ _ => id) h₁ hview hends hown)
    exact (h₂.visited ha' ho'.regular hvisit').eq ⟨page, hview₂, htuples⟩
  · intro t tb xs failure σ₁ es σ₂ ys failure' σ₃ hscan hrun hends hown hscan'
    obtain ⟨h₁, _, n, hn, _⟩ := hscan.spec hcoh
    have h₂ := (hrun.coherent (fun _ _ => id) h₁).1
    obtain ⟨_, hkeep, k, hk, hall⟩ := hscan'.spec h₂
    have hn₂ := hrun.gathered (fun _ _ => id) h₁ hn hends hown
    have hn₃ := hkeep n xs hn₂
    refine ⟨?_, fun hfailure hfits => hn₃.take hk (hall hfailure hfits n xs hn₂)⟩
    rcases Nat.le_total n k with hle | hle
    · exact .inl (hn₃.take hk hle)
    · exact .inr (hk.take hn₃ hle)

/-- A transaction is about to fetch the page that another one has filled and committed. -/
def reading : Engine :=
  (play (idle (Store.sample {})) (firstInsertion ⟨1⟩ 7 ++
    [.commit ⟨1⟩, .call ⟨2⟩ (.fetch ⟨⟨0⟩, 0⟩ .readOnly)])).2

/-- A third one wants to insert and has to wait; then the reader fetches the page again. -/
def intrusion : List Action :=
  [.call ⟨3⟩ (.insertion ⟨0⟩ (Store.sampleTuple 8)), .step ⟨3⟩, .step ⟨3⟩, .commit ⟨4⟩,
    .call ⟨2⟩ (.fetch ⟨⟨0⟩, 0⟩ .readOnly)]

def rereading : Engine := (play (reading.act (.step ⟨2⟩)) intrusion).2

theorem reader_sees_the_same : ∃ page page',
    reading.answered? (.step ⟨2⟩) =
      some (⟨2⟩, .fetch ⟨⟨0⟩, 0⟩ .readOnly, .fetched (.ok (0, page))) ∧
    rereading.answered? (.step ⟨2⟩) =
      some (⟨2⟩, .fetch ⟨⟨0⟩, 0⟩ .readOnly, .fetched (.ok (0, page'))) ∧
    ∀ slot, page'.isUsed slot = page.isUsed slot ∧ page'.tuple slot = page.tuple slot := by
  have hisolated : reading.Isolated :=
    Run.isolated (Store.opened_sample {}) (run_play (by decide +kernel))
  have hrun : Run Ordinary (reading.act (.step ⟨2⟩))
      (play (reading.act (.step ⟨2⟩)) intrusion).1 rereading := run_play (by decide +kernel)
  obtain ⟨page, hans⟩ : ∃ page, reading.answered? (.step ⟨2⟩) =
      some (⟨2⟩, .fetch ⟨⟨0⟩, 0⟩ .readOnly, .fetched (.ok (0, page))) :=
    answered_of_fetched (by decide +kernel)
  obtain ⟨page', hans'⟩ : ∃ page', rereading.answered? (.step ⟨2⟩) =
      some (⟨2⟩, .fetch ⟨⟨0⟩, 0⟩ .readOnly, .fetched (.ok (0, page'))) :=
    answered_of_fetched (by decide +kernel)
  have hlater := hisolated.fetches (by decide +kernel) (by decide +kernel) hans hrun
    (by decide +kernel)
  exact ⟨page, page', hans, hans',
    (hlater.2 (by decide +kernel) (by decide +kernel) hans').2 (by decide +kernel)⟩

end Engine
end PageStore

import PageStore.Proofs.Store.Alone
import PageStore.Proofs.Store.Records
import PageStore.Proofs.Store.Sizes

/-!
# PageStore.Proofs.Store.Failure

Calls that fail. However far a call has come when it fails, and for whatever reason, every page
shows what it showed, no page is dirty that was clean, and at most the file of the table that it
inserts into has got a page more, an empty one (`Harmless`).

* `Stage`: how far a call has come without a change. It has appended nothing yet, or it has appended
  one page and is asleep for that page's lock, and will end when it has the page.
* `Lawful.stage` and `Run.underway`: one action of a call keeps this, and so does a run of them.
* `Run.failures_are_harmless`: from there, for every call that fails. A slot that is changed is
  always in a page that the cache holds, so the mark that follows the change never fails.
-/

namespace PageStore

open LockManager

def Answer.failure? : Answer → Option Error
  | .locked (.error e) => some e
  | .fetched (.error e) => some e
  | .inserted _ (.error e) => some e
  | .deleted (.error e) => some e
  | .item _ (some (.error e)) => some e
  | .scanned _ failure => failure
  | _ => none

namespace Call

def inserts? : Call → Option TableId
  | .insert table _ _ _ => some table
  | _ => none

theorem inserts?_origin (c : Call) : c.origin.inserts? = c.inserts? := by
  cases c <;> rfl

theorem inserts?_of_appends {c : Call} {tb : TableId} (h : c.appends? = some tb) :
    c.inserts? = some tb := by
  cases c with
  | insert table tuple marks placing =>
    cases placing with
    | appending => exact h
    | _ => cases h
  | _ => cases h

theorem edit?_of_failure {c : Call} {answer : Answer} (h : answer.failure? ≠ none) :
    c.edit? answer = none := by
  cases answer with
  | inserted tuple result =>
    cases result with
    | error e => rfl
    | ok f => exact absurd rfl h
  | deleted result =>
    cases result with
    | error e => rfl
    | ok f => exact absurd rfl h
  | _ => rfl

/-- The page that a call makes of the page that it is given, if it changes a slot of it. -/
def changed? (page : Page) : Call → Option Page
  | .insert _ tuple _ _ =>
    if page.isFull then none
    else
      match page.insert tuple with
      | (page, .ok _) => some page
      | (_, .error _) => none
  | .delete tuple _ => (page.delete tuple).toOption
  | _ => none

theorem id_of_changed {c : Call} {page page' : Page} (h : c.changed? page = some page') :
    page'.id = page.id := by
  cases c with
  | insert table tuple marks placing =>
    simp only [changed?] at h
    by_cases hfull : page.isFull = true
    · rw [if_pos hfull] at h
      cases h
    · rw [if_neg hfull] at h
      rcases page.insert_cases tuple with ⟨image, e, hi, _⟩ | ⟨image, slot, bytes, hi, _⟩
      · rw [hi] at h
        cases h
      · rw [hi] at h
        cases h
        rfl
  | delete tuple from? =>
    simp only [changed?] at h
    cases hd : page.delete tuple with
    | error e =>
      rw [hd] at h
      cases h
    | ok page'' =>
      obtain ⟨_, _, _, _, rfl, _⟩ := Page.delete_eq_ok hd
      rw [hd] at h
      cases h
      rfl
  | _ => cases h

end Call

theorem Progress.Suits.inserts? {c c' : Call} {x : Progress} (h : x.Suits c)
    (hx : x.call? = some c') : c'.inserts? = c.inserts? := by
  rw [← c'.inserts?_origin, h.origin hx, c.inserts?_origin]

namespace LockManager

theorem Tried.sleeps {l l' : LockManager} {t : TxnId} {p : PageId} {m : LockMode}
    (h : Tried l l' t p m .asleep) : l'.Asleep t p m := by
  cases h with
  | asleep _ _ _ hs => exact (hs t p m).2 (.inl ⟨rfl, rfl, rfl⟩)

end LockManager

namespace Store

variable {s s' s₀ s₁ : Store} {t : TxnId} {p : PageId} {c c' : Call} {tb : TableId}
  {r : LockManager × Verdict} {tb? : Option TableId}

/-- Every page shows what it showed, and whoever dirtied a page had done so before. -/
structure Unchanged (s s' : Store) : Prop where
  shown : ∀ p, s'.shown p = s.shown p
  dirtier : ∀ p d, s'.dirtier p = some d → s.dirtier p = some d

theorem Unchanged.refl (s : Store) : Unchanged s s := ⟨fun _ => rfl, fun _ _ => id⟩

theorem Unchanged.trans (h : Unchanged s₀ s) (h' : Unchanged s s') : Unchanged s₀ s' where
  shown p := (h'.shown p).trans (h.shown p)
  dirtier p d hd := h.dirtier p d (h'.dirtier p d hd)

theorem Turn.unchanged (h : Turn s s' .quiet) : Unchanged s s' := by
  cases h with
  | quiet hsaves _ => exact ⟨hsaves.shown, fun _ _ => hsaves.dirtier_of_some⟩

/-- No file has grown, or the file of the table that is inserted into has, by one page. -/
def Swells (tb? : Option TableId) (s s' : Store) : Prop :=
  Sized s s' ∨ ∃ tb, tb? = some tb ∧ Grown tb s s'

/-- Every page shows what it showed and has the tuples that it had, no page is dirty that was clean,
and no file has grown but that of one table, if any, by one page that is empty. -/
structure Harmless (tb? : Option TableId) (s s' : Store) : Prop extends Unchanged s s' where
  content : ∀ p, s'.content p = s.content p
  swells : Swells tb? s s'
  empty : ∀ p slot, s.wholeCount p.table ≤ p.no → s'.content p slot = none ∧ s'.shown p slot = none

theorem Sound.shown_past_end (hs : s.Sound) (h : s.wholeCount p.table ≤ p.no) :
    s.shown p = fun _ => none := by
  funext slot
  rw [← Option.isNone_iff_eq_none, ← Option.isSome_eq_false_iff, ← hs.isSome_content,
    hs.content_past_end h]
  rfl

theorem Unchanged.harmless (h : Unchanged s s') (hswells : Swells tb? s s') (hs : s.Sound)
    (hs' : s'.Sound) (hlasts : Lasts s s') : Harmless tb? s s' := by
  have hcontent : ∀ p, s'.content p = s.content p := by
    intro p
    funext slot
    exact hs.content_congr hs' hlasts (congrFun (h.shown p) slot)
  refine ⟨h, hcontent, hswells, ?_⟩
  intro p slot hno
  rw [hcontent, hs.content_past_end hno, h.shown, hs.shown_past_end hno]
  exact ⟨rfl, rfl⟩

/-- How far a call has come since a store. -/
inductive Stage (t : TxnId) (s₀ s : Store) (c : Call) : Prop where
  /-- It has appended nothing. If it is about to, it is awake. -/
  | early : Sized s₀ s → (c.appends? ≠ none → s.locks.Awake t) → Stage t s₀ s c
  /-- It has appended a page and waits for it. -/
  | late {tb : TableId} : c.appends? = some tb → Grown tb s₀ s →
      s.locks.Asleep t ⟨tb, s₀.wholeCount tb⟩ .exclusive → Stage t s₀ s c

theorem Stage.of_decided_early (hs : s.Sound) (hc : c.Marks) (hnone : c.appends? = none)
    (hsized : Sized s₀ s) (m : LockMode) :
    Sized s₀ (s.decided t p m c r).1 ∧
      ∀ c', (s.decided t p m c r).2.call? = some c' → Stage t s₀ (s.decided t p m c r).1 c' := by
  have hsized' := hsized.trans (decided_sized hs hc t p m r)
  refine ⟨hsized', ?_⟩
  intro c' hc'
  refine .early hsized' fun happends => ?_
  rw [decided_appends hc', hnone] at happends
  exact absurd rfl happends

theorem Stage.of_decided_late (hs : s.Sound) (hc : c.Marks) (happends : c.appends? = some tb)
    (hgrown : Grown tb s₀ s) (hempty : s.shown ⟨tb, s₀.wholeCount tb⟩ = fun _ => none)
    (htried : Tried s.locks r.1 t ⟨tb, s₀.wholeCount tb⟩ .exclusive r.2) :
    Grown tb s₀ (s.decided t ⟨tb, s₀.wholeCount tb⟩ .exclusive c r).1 ∧
      ∀ c', (s.decided t ⟨tb, s₀.wholeCount tb⟩ .exclusive c r).2.call? = some c' →
        Stage t s₀ (s.decided t ⟨tb, s₀.wholeCount tb⟩ .exclusive c r).1 c' := by
  have hgrown' := hgrown.sized (decided_sized hs hc t ⟨tb, s₀.wholeCount tb⟩ .exclusive r)
  refine ⟨hgrown', ?_⟩
  intro c' hc'
  obtain ⟨hasleep, rfl⟩ := decided_of_empty hs hempty happends hc'
  obtain ⟨locks, verdict⟩ := r
  cases hasleep
  exact .late happends hgrown' htried.sleeps

/-! ## What a call gets -/

variable {m : LockMode} {f : FrameId} {page page' : Page}

/-- What a call gets when its lock has been decided on: the page, its frame, and the store with it. -/
def got? (s : Store) (p : PageId) : LockManager × Verdict → Option (Store × FrameId × Page)
  | (locks, .granted) =>
    match fetch { s with locks } p with
    | (s, .ok (f, page)) => some (s, f, page)
    | (_, .error _) => none
  | _ => none

/-- The cache holds a page in a frame. -/
structure Hands (s : Store) (p : PageId) (f : FrameId) (page : Page) : Prop where
  sound : s.Sound
  copy : s.cache.resident[p]? = some f
  frame : s.frame? f = some page

theorem decided_of_got (hs : s.Sound) (hch : c.changed? page = some page')
    (h : s.got? p r = some (s', f, page)) :
    Hands s' p f page ∧ s.decided t p m c r = s'.use t f page c := by
  obtain ⟨locks, verdict⟩ := r
  cases verdict with
  | granted =>
    obtain ⟨hs₁, _, hcopy⟩ := fetch_spec (p := p) (hs.with_locks locks)
    simp only [got?] at h
    simp only [decided]
    unfold proceed
    generalize fetch { s with locks } p = x at h hs₁ hcopy
    obtain ⟨s₁, y⟩ := x
    cases y with
    | error e => cases h
    | ok found =>
      obtain ⟨g, copy⟩ := found
      cases h
      obtain ⟨hr, hf⟩ := hcopy _ _ rfl
      refine ⟨⟨hs₁, hr, hf⟩, ?_⟩
      cases c with
      | lock q k => cases hch
      | _ => rfl
  | asleep => cases h
  | refused => cases h

theorem use_changed {e : Edit} (h : (s.use t f page c).2.edit? c = some e) :
    ∃ page', c.changed? page = some page' := by
  cases c with
  | lock q mode => cases h
  | fetch q access => cases h
  | insert table tuple marks placing =>
    simp only [use] at h
    simp only [Call.changed?]
    by_cases hfull : page.isFull = true
    · rw [if_pos hfull] at h
      cases h
    · rw [if_neg hfull] at h ⊢
      generalize page.insert tuple = x at h ⊢
      obtain ⟨page', y⟩ := x
      cases y with
      | error e => cases h
      | ok tuple' => exact ⟨page', rfl⟩
  | delete tuple from? =>
    simp only [use] at h
    simp only [Call.changed?]
    generalize page.delete tuple = x at h ⊢
    cases x with
    | error e => cases h
    | ok page' => exact ⟨page', rfl⟩
  | next cursor =>
    simp only [use] at h
    generalize page.tuples = x at h
    cases x <;> cases h
  | scan table no seen =>
    simp only [use] at h
    generalize page.tuples = x at h
    cases x <;> cases h

/-- A call that has changed a slot has got the slot's page. -/
theorem got_of_edit {e : Edit} (h : (s.decided t p m c r).2.edit? c = some e) :
    ∃ s' f page page', s.got? p r = some (s', f, page) ∧ c.changed? page = some page' := by
  obtain ⟨locks, verdict⟩ := r
  cases verdict with
  | granted =>
    simp only [decided] at h
    simp only [got?]
    unfold proceed at h
    split at h
    · cases h
    · generalize fetch { s with locks } p = x at h ⊢
      obtain ⟨s₁, y⟩ := x
      cases y with
      | error e => exact absurd ((c.edit?_fail e).symm.trans h) (Option.some_ne_none _).symm
      | ok found =>
        obtain ⟨f, page⟩ := found
        obtain ⟨page', hch⟩ := use_changed h
        exact ⟨s₁, f, page, page', rfl, hch⟩
  | asleep => cases h
  | refused => exact absurd ((c.edit?_fail _).symm.trans h) (Option.some_ne_none _).symm

/-- A slot that is changed is in a page that the cache holds, so the page is marked and the call
succeeds. -/
theorem Hands.marks (h : s.Hands p f page) (hch : c.changed? page = some page') (hc : c.Marks)
    (t : TxnId) :
    (s.setFrame f page').cache.resident[page'.id]? = some f ∧
      (s.setFrame f page').markDirty t f = ((s.use t f page c).1, .ok ()) ∧
      ∃ answer, (s.use t f page c).2 = .done answer ∧ answer.failure? = none := by
  have hid : page'.id = p :=
    (Call.id_of_changed hch).trans (h.sound.framed.id_eq (page?_of_frame h.copy h.frame))
  have hr : (s.setFrame f page').cache.resident[page'.id]? = some f := by
    rw [hid]
    exact h.copy
  refine ⟨hr, ?_⟩
  have hok : ((s.setFrame f page').markDirty t f).2 = .ok () := by
    rw [markDirty_of_resident hr (frame?_setFrame h.frame page') t]
  cases c with
  | insert table tuple marks placing =>
    cases hc
    simp only [Call.changed?] at hch
    simp only [use]
    by_cases hfull : page.isFull = true
    · rw [if_pos hfull] at hch
      cases hch
    · rw [if_neg hfull] at hch ⊢
      generalize page.insert tuple = x at hch ⊢
      obtain ⟨page'', y⟩ := x
      cases y with
      | error e => cases hch
      | ok tuple' =>
        cases hch
        dsimp only [finishInsert]
        rw [if_pos rfl]
        generalize (s.setFrame f page').markDirty t f = x at hok ⊢
        obtain ⟨s', y⟩ := x
        cases hok
        exact ⟨rfl, _, rfl, rfl⟩
  | delete tuple from? =>
    cases hc
    simp only [Call.changed?] at hch
    simp only [use]
    cases hd : page.delete tuple with
    | error e =>
      rw [hd] at hch
      cases hch
    | ok page'' =>
      rw [hd] at hch
      cases hch
      dsimp only [Option.isSome_none]
      rw [if_neg Bool.false_ne_true]
      generalize (s.setFrame f page').markDirty t f = x at hok ⊢
      obtain ⟨s', y⟩ := x
      cases hok
      exact ⟨rfl, _, rfl, rfl⟩
  | _ => cases hch

end Store

namespace Engine

variable {σ σ₀ σ' : Engine} {es : List Event} {t : TxnId} {a : Action} {c c' : Call} {s₀ : Store}
  {r : Store × Progress} {answer : Answer} {w : Sleeper}

theorem Lawful.stage_search (h : Lawful σ) (hcall : σ.calls t = some c)
    (hawake : σ.store.locks.Awake t) (hnone : c.appends? = none)
    (hsized : Store.Sized s₀ σ.store) :
    Store.Sized s₀ (σ.store.step t c).1 ∧
      ∀ c', (σ.store.step t c).2.call? = some c' → Store.Stage t s₀ (σ.store.step t c).1 c' := by
  have haim := Store.aim_fst (s := σ.store) hnone
  rcases σ.store.step_cases t c with ⟨a, _, hstep⟩ | ⟨c', _, hstep⟩ | ⟨p, m, c', hpage, hstep⟩
  · rw [hstep, haim]
    exact ⟨hsized, fun c' hc' => by cases hc'⟩
  · rw [hstep, haim]
    exact ⟨hsized, fun _ _ => .early hsized fun _ => hawake⟩
  · rw [hstep, haim, Store.call_of_aim hpage]
    exact Store.Stage.of_decided_early h.sound (h.marks t c hcall) hnone hsized m

theorem Lawful.stage_append {tb : TableId} (h : Lawful σ) (hcall : σ.calls t = some c)
    (hawake : σ.store.locks.Awake t) (happends : c.appends? = some tb)
    (hfits : σ.store.wholeCount tb < 4294967296) (hs₀ : s₀.Sound)
    (hsame : Store.Unchanged s₀ σ.store) (hsized : Store.Sized s₀ σ.store) :
    (Store.Sized s₀ (σ.store.step t c).1 ∨ Store.Grown tb s₀ (σ.store.step t c).1) ∧
      ∀ c', (σ.store.step t c).2.call? = some c' → Store.Stage t s₀ (σ.store.step t c).1 c' := by
  rcases Store.aim_sizes h.sound happends hfits with ⟨a, haim, haimed⟩ | ⟨haim, hgrown⟩
  · rw [Store.step_of_finish haim]
    exact ⟨.inl (hsized.trans haimed), fun c' hc' => by cases hc'⟩
  · have hfits : ∀ u, c.appends? = some u → σ.store.wholeCount u < 4294967296 := by
      intro u hu
      rw [happends] at hu
      cases hu
      exact hfits
    obtain ⟨hs, hk⟩ := Store.aim_spec (W := fun _ => False) h.sound c hfits
    rw [Store.step_of_page haim, hsized tb]
    have hempty : (σ.store.aim c).1.shown ⟨tb, s₀.wholeCount tb⟩ = fun _ => none := by
      rw [hk.shown, hsame.shown]
      exact hs₀.shown_past_end (Nat.le_refl _)
    have htried := tried_request (p := ⟨tb, s₀.wholeCount tb⟩) (m := .exclusive) h.orderly hawake
    rw [← hk.steady.locks] at htried
    obtain ⟨hgrown', hstage⟩ := Store.Stage.of_decided_late hs (h.marks t c hcall) happends
      (hsized.grown hgrown) hempty htried
    exact ⟨.inr hgrown', hstage⟩

theorem Lawful.stage_step (h : Lawful σ) (hcall : σ.calls t = some c) (ho : σ.Regular (.step t))
    (hawake : σ.store.locks.Awake t) (hs₀ : s₀.Sound) (hsame : Store.Unchanged s₀ σ.store)
    (hstage : Store.Stage t s₀ σ.store c) :
    Store.Swells c.inserts? s₀ (σ.store.step t c).1 ∧
      ∀ c', (σ.store.step t c).2.call? = some c' → Store.Stage t s₀ (σ.store.step t c).1 c' := by
  have hsized : Store.Sized s₀ σ.store := by
    cases hstage with
    | early hsized _ => exact hsized
    | late _ _ hasleep => exact absurd hasleep hawake.not_asleep
  cases happends : c.appends? with
  | none =>
    obtain ⟨hsized', hstage'⟩ := h.stage_search hcall hawake happends hsized
    exact ⟨.inl hsized', hstage'⟩
  | some tb =>
    have hfits : σ.store.wholeCount tb < 4294967296 :=
      ho.2 tb (by simp [appends?, hcall, happends])
    obtain ⟨hsizes, hstage'⟩ := h.stage_append hcall hawake happends hfits hs₀ hsame hsized
    refine ⟨?_, hstage'⟩
    rcases hsizes with hsized' | hgrown
    · exact .inl hsized'
    · exact .inr ⟨tb, Call.inserts?_of_appends happends, hgrown⟩

theorem Lawful.stage_tried (h : Lawful σ) (hcall : σ.calls w.txn = some c)
    (hw : w ∈ σ.store.locks.sleepers) {x : LockManager × Verdict}
    (htried : Tried σ.store.locks x.1 w.txn w.page w.mode x.2) (hs₀ : s₀.Sound)
    (hsame : Store.Unchanged s₀ σ.store) (hstage : Store.Stage w.txn s₀ σ.store c) :
    Store.Swells c.inserts? s₀ (σ.store.decided w.txn w.page w.mode c x).1 ∧
      ∀ c', (σ.store.decided w.txn w.page w.mode c x).2.call? = some c' →
        Store.Stage w.txn s₀ (σ.store.decided w.txn w.page w.mode c x).1 c' := by
  have hmarks := h.marks _ c hcall
  cases hstage with
  | early hsized hawake =>
    have hnone : c.appends? = none := by
      by_contra happends
      exact hawake happends w hw rfl
    obtain ⟨hsized', hstage'⟩ := Store.Stage.of_decided_early h.sound hmarks hnone hsized w.mode
    exact ⟨.inl hsized', hstage'⟩
  | @late tb happends hgrown hasleep =>
    obtain ⟨hpage, hmode⟩ := eq_of_asleep h.orderly.once hw hasleep
    have hempty : σ.store.shown ⟨tb, s₀.wholeCount tb⟩ = fun _ => none := by
      rw [hsame.shown]
      exact hs₀.shown_past_end (Nat.le_refl _)
    rw [← hpage, ← hmode] at htried ⊢
    obtain ⟨hgrown', hstage'⟩ :=
      Store.Stage.of_decided_late h.sound hmarks happends hgrown hempty htried
    exact ⟨.inr ⟨tb, Call.inserts?_of_appends happends, hgrown'⟩, hstage'⟩

/-- One action of a call takes it from one stage to another, and no file grows twice. -/
theorem Lawful.stage (h : Lawful σ) (ha : σ.Allows a) (ho : σ.Regular a)
    (hm : σ.moved? a = some (t, c, r)) (hs₀ : s₀.Sound) (hsame : Store.Unchanged s₀ σ.store)
    (hstage : Store.Stage t s₀ σ.store c) :
    Store.Swells c.inserts? s₀ r.1 ∧ ∀ c', r.2.call? = some c' → Store.Stage t s₀ r.1 c' := by
  obtain ⟨hcall, ⟨rfl, rfl⟩ | ⟨w, rfl, rfl, rfl⟩ | ⟨w, rfl, rfl, rfl⟩⟩ := moved_cases hm
  · exact h.stage_step hcall ho ha.2 hs₀ hsame hstage
  · exact h.stage_tried hcall ha.1 (tried_retry h.orderly ha.1) hs₀ hsame hstage
  · exact h.stage_tried hcall ha (tried_expire h.orderly ha) hs₀ hsame hstage

/-- A call that has not ended has changed nothing that can be seen. -/
structure Underway (t : TxnId) (s₀ : Store) (tb? : Option TableId) (σ : Engine) (c : Call) :
    Prop where
  unchanged : Store.Unchanged s₀ σ.store
  stage : Store.Stage t s₀ σ.store c
  inserts : c.inserts? = tb?

theorem Lawful.unchanged (h : Lawful σ) (ha : σ.Allows a) (ho : σ.Regular a)
    (hquiet : σ.event a = .quiet) : Store.Unchanged σ.store (σ.act a).store := by
  obtain ⟨_, _, hturn⟩ := h.act ha ho
  rw [hquiet] at hturn
  exact hturn.unchanged

theorem Lawful.underway_call (h : Lawful σ) (ha : σ.Allows (.call t c)) :
    ∀ d, (σ.act (.call t c)).calls t = some d →
      Underway t σ.store c.inserts? (σ.act (.call t c)) d := by
  intro d hd
  have hd : Function.update σ.calls t (some c) t = some d := hd
  rw [Function.update_self] at hd
  cases hd
  exact ⟨.refl _, .early (.refl _) fun _ => h.awake ha, rfl⟩

theorem Run.underway {tb? : Option TableId} (hs₀ : s₀.Sound) (h₀ : Lawful σ₀)
    (hstart : ∀ c, σ₀.calls t = some c → Underway t s₀ tb? σ₀ c) (h : Run (Alone t) σ₀ es σ) :
    Lawful σ ∧ ∀ c, σ.calls t = some c → Underway t s₀ tb? σ c := by
  induction h with
  | start => exact ⟨h₀, hstart⟩
  | @act es σ a hrun ha ho ih =>
    obtain ⟨hlawful, hcalls⟩ := ih
    refine ⟨(hlawful.act ha ho.1).1, ?_⟩
    intro c' hc'
    rcases ho.moved hlawful ha with ⟨faults, lengthFails, rfl⟩ | ⟨c, r, hm⟩
    · -- the device does not touch the call
      obtain ⟨hsame, hstage, htb⟩ := hcalls c' hc'
      refine ⟨hsame.trans (hlawful.unchanged ha ho.1 rfl), ?_, htb⟩
      cases hstage with
      | early hsized hawake => exact .early hsized hawake
      | late happends hgrown hasleep => exact .late happends hgrown hasleep
    · obtain ⟨hcall, hact, hevent⟩ := act_of_moved hm
      obtain ⟨hsame, hstage, htb⟩ := hcalls c hcall
      have hgoes : r.2.call? = some c' := by
        rw [hact] at hc'
        have hc' : Function.update σ.calls t r.2.call? t = some c' := hc'
        rwa [Function.update_self] at hc'
      have hquiet : σ.event a = .quiet := by
        rw [hevent, edit?_of_call? hgoes]
        rfl
      have hstage' := (hlawful.stage ha ho.1 hm hs₀ hsame hstage).2 c' hgoes
      refine ⟨hsame.trans (hlawful.unchanged ha ho.1 hquiet), ?_, ?_⟩
      · rw [hact]
        exact hstage'
      · rw [← htb]
        exact (moved_suits hm).inserts? hgoes

/-- A call that fails with nobody else at work changes nothing. -/
theorem Completes.harmless (h : σ.Completes t c answer σ') (hlawful : Lawful σ) (hc : c.Marks)
    (hfails : answer.failure? ≠ none) : Store.Harmless c.inserts? σ.store σ'.store := by
  cases h with
  | @intro es σ₁ a c₁ hbegin hrun ha ho hans =>
    have hcalled : Lawful (σ.act (.call t c)) :=
      (hlawful.act hbegin ⟨hc, fun _ htb => by cases htb⟩).1
    obtain ⟨hlawful₁, hcalls⟩ :=
      hrun.underway hlawful.sound hcalled (hlawful.underway_call hbegin)
    obtain ⟨s', hm⟩ := moved_of_answered hans
    obtain ⟨hcall, hact, hevent⟩ := act_of_moved hm
    obtain ⟨hsame, hstage, htb⟩ := hcalls c₁ hcall
    have hquiet : σ₁.event a = .quiet := by
      rw [hevent]
      exact congrArg (Event.ofEdit t) (Call.edit?_of_failure hfails)
    have hswells := (hlawful₁.stage ha ho.1 hm hlawful.sound hsame hstage).1
    rw [htb] at hswells
    obtain ⟨hlawful', hlasts, _⟩ := hlawful₁.act ha ho.1
    have hlasts₁ : Store.Lasts σ.store σ₁.store :=
      (hrun.lawful (fun _ _ ho => ho.1) hcalled).2
    refine (hsame.trans (hlawful₁.unchanged ha ho.1 hquiet)).harmless ?_ hlawful.sound
      hlawful'.sound (hlasts₁.trans hlasts)
    rw [hact]
    exact hswells

/-! ## A slot that is changed -/

/-- What the call of an action gets: the page that it wants, its frame, and the store with it. -/
def got? (σ : Engine) : Action → Option (Store × FrameId × Page)
  | .step t =>
    (σ.calls t).bind fun c =>
      match σ.store.aim c with
      | (s, .page p m _) => s.got? p (s.locks.request t p m)
      | _ => none
  | .resume w => (σ.calls w.txn).bind fun _ => σ.store.got? w.page (σ.store.locks.retry w)
  | .expire w => (σ.calls w.txn).bind fun _ => σ.store.got? w.page (σ.store.locks.expire w)
  | _ => none

variable {s : Store} {f : FrameId} {page page' : Page}

/-- A call that changes a slot goes on from what it has got. -/
theorem Lawful.hands (h : Lawful σ) (ho : σ.Regular a) (hm : σ.moved? a = some (t, c, r))
    (hg : σ.got? a = some (s, f, page)) (hch : c.changed? page = some page') :
    ∃ p, Store.Hands s p f page ∧ r = s.use t f page c := by
  obtain ⟨hcall, ⟨rfl, rfl⟩ | ⟨w, rfl, rfl, rfl⟩ | ⟨w, rfl, rfl, rfl⟩⟩ := moved_cases hm
  · obtain ⟨hs, _⟩ := Store.aim_spec (W := fun _ => False) h.sound c fun tb htb =>
      ho.2 tb (by simp [appends?, hcall, htb])
    simp only [got?, hcall, Option.bind_some] at hg
    rcases σ.store.step_cases t c with ⟨b, haim, _⟩ | ⟨c', haim, _⟩ | ⟨p, m, c', haim, hstep⟩
    · rw [show σ.store.aim c = (_, .finish b) from Prod.ext rfl haim] at hg
      cases hg
    · rw [show σ.store.aim c = (_, .onward c') from Prod.ext rfl haim] at hg
      cases hg
    · rw [show σ.store.aim c = (_, .page p m c') from Prod.ext rfl haim] at hg
      rw [hstep, Store.call_of_aim haim]
      exact ⟨p, Store.decided_of_got hs hch hg⟩
  · simp only [got?, hcall, Option.bind_some] at hg
    exact ⟨w.page, Store.decided_of_got h.sound hch hg⟩
  · simp only [got?, hcall, Option.bind_some] at hg
    exact ⟨w.page, Store.decided_of_got h.sound hch hg⟩

theorem moved_of_edited {e : Edit} (h : σ.event a = .edited t e) :
    ∃ c r, σ.moved? a = some (t, c, r) ∧ r.2.edit? c = some e := by
  have hedit : (σ.moved? a).isSome = true →
      ∃ c r, σ.moved? a = some (t, c, r) ∧ r.2.edit? c = some e := by
    intro hsome
    obtain ⟨⟨u, c, r⟩, hm⟩ := Option.isSome_iff_exists.1 hsome
    rw [(act_of_moved hm).2.2] at h
    cases hx : r.2.edit? c with
    | none =>
      rw [hx] at h
      cases h
    | some e' =>
      rw [hx] at h
      cases h
      exact ⟨c, r, hm, hx⟩
  cases a with
  | step u =>
    cases hc : σ.calls u with
    | none => simp [event, hc] at h
    | some c => exact hedit (by simp [moved?, hc])
  | resume w =>
    cases hc : σ.calls w.txn with
    | none => simp [event, hc] at h
    | some c => exact hedit (by simp [moved?, hc])
  | expire w =>
    cases hc : σ.calls w.txn with
    | none => simp [event, hc] at h
    | some c => exact hedit (by simp [moved?, hc])
  | commit u =>
    simp only [event] at h
    split at h <;> cases h
  | abort u =>
    simp only [event] at h
    split at h <;> cases h
  | _ => cases h

/-- Whatever changes a slot is a call that has got the slot's page. -/
theorem got_of_edited {e : Edit} (h : σ.event a = .edited t e) :
    ∃ c r s f page page', σ.moved? a = some (t, c, r) ∧ σ.got? a = some (s, f, page) ∧
      c.changed? page = some page' := by
  obtain ⟨c, r, hm, hedit⟩ := moved_of_edited h
  obtain ⟨hcall, ⟨rfl, rfl⟩ | ⟨w, rfl, rfl, rfl⟩ | ⟨w, rfl, rfl, rfl⟩⟩ := moved_cases hm
  · rcases σ.store.step_cases t c with ⟨b, haim, hstep⟩ | ⟨c', _, hstep⟩ | ⟨p, m, c', haim, hstep⟩
    · have hsuits := (σ.store.aims c).suits
      rw [haim] at hsuits
      rw [hstep] at hedit
      cases hsuits with
      | finish hnone => exact absurd (hnone.symm.trans hedit) (Option.some_ne_none _).symm
    · rw [hstep] at hedit
      cases hedit
    · rw [hstep, Store.call_of_aim haim] at hedit
      obtain ⟨s', f, page, page', hg, hch⟩ := Store.got_of_edit hedit
      refine ⟨c, _, s', f, page, page', hm, ?_, hch⟩
      simp only [got?, hcall, Option.bind_some]
      rw [show σ.store.aim c = (_, .page p m c') from Prod.ext rfl haim]
      exact hg
  · obtain ⟨s', f, page, page', hg, hch⟩ := Store.got_of_edit hedit
    refine ⟨c, _, s', f, page, page', hm, ?_, hch⟩
    simp only [got?, hcall, Option.bind_some]
    exact hg
  · obtain ⟨s', f, page, page', hg, hch⟩ := Store.got_of_edit hedit
    refine ⟨c, _, s', f, page, page', hm, ?_, hch⟩
    simp only [got?, hcall, Option.bind_some]
    exact hg

/-- A call that fails, whatever the reason and however far it has come, has changed no slot of any
page, has made no clean page dirty, and has left at most one page more in the file of the table that
it inserts into, an empty one. A call that changes a slot finds the changed page in the cache when it
marks it, so it does not fail any more, and nothing else changes a slot. -/
theorem Run.failures_are_harmless {config : PoolConfig} {v : Volume}
    (hopen : Store.Opened config v s₀) (h : Run Regular (idle s₀) es σ) :
    (∀ {t c answer σ'}, c.Marks → σ.Completes t c answer σ' → answer.failure? ≠ none →
      Store.Harmless c.inserts? σ.store σ'.store) ∧
    (∀ {a t c r s f page page'}, σ.Regular a → σ.moved? a = some (t, c, r) →
      σ.got? a = some (s, f, page) → c.changed? page = some page' →
      (s.setFrame f page').cache.resident[page'.id]? = some f ∧
        (s.setFrame f page').markDirty t f = (r.1, .ok ()) ∧
        ∃ answer, r.2 = .done answer ∧ answer.failure? = none) ∧
    ∀ {a t e}, σ.event a = .edited t e →
      ∃ c r s f page page', σ.moved? a = some (t, c, r) ∧ σ.got? a = some (s, f, page) ∧
        c.changed? page = some page' := by
  have hlawful := (h.lawful (fun _ _ => id) (lawful_idle hopen)).1
  refine ⟨?_, ?_, got_of_edited⟩
  · intro t c answer σ' hc hcall hfails
    exact hcall.harmless hlawful hc hfails
  · intro a t c r s f page page' ho hm hg hch
    obtain ⟨p, hhands, rfl⟩ := hlawful.hands ho hm hg hch
    exact hhands.marks hch (hlawful.marks t c (act_of_moved hm).1) t

/-- The second of the coming transfers fails. -/
def faulty : Engine := (play (idle (Store.sample {})) [.device [false, true]]).2

/-- An insertion that has appended a page and cannot read it. -/
def spoilt : Engine :=
  (faulty.stepped ⟨1⟩ (.insertion ⟨0⟩ (Store.sampleTuple 7)) 2).act (.step ⟨1⟩)

/-- The insertion when it has found no page with room. -/
def lastStep : Call := .insert ⟨0⟩ (Store.sampleTuple 7) true .appending

/-- The insertion leaves an empty page; without the fault its page is found in the cache. -/
theorem spoilt_is_harmless :
    (∃ e, faulty.Completes ⟨1⟩ (.insertion ⟨0⟩ (Store.sampleTuple 7))
        (.inserted (Store.sampleTuple 7) (.error e)) spoilt ∧
      faulty.store.wholeCount ⟨0⟩ = 0 ∧ spoilt.store.wholeCount ⟨0⟩ = 1 ∧
      Store.Harmless (some ⟨0⟩) faulty.store spoilt.store) ∧
    ∃ s f page page', nearlyPlaced.got? (.step ⟨1⟩) = some (s, f, page) ∧
      lastStep.changed? page = some page' ∧
      (s.setFrame f page').cache.resident[page'.id]? = some f ∧
      ((s.setFrame f page').markDirty ⟨1⟩ f).2 = .ok () := by
  constructor
  · have hrun : Run Regular (idle (Store.sample {})) _ faulty := run_play (by decide +kernel)
    have hcall : faulty.Completes ⟨1⟩ (.insertion ⟨0⟩ (Store.sampleTuple 7))
        (.inserted (Store.sampleTuple 7) (.error (.io .device))) spoilt :=
      completes_stepped lastStep (by decide +kernel) (by decide +kernel) (by decide +kernel)
        (by decide +kernel)
    obtain ⟨hharmless, _⟩ := hrun.failures_are_harmless (Store.opened_sample {})
    have hmarks : (Call.insertion ⟨0⟩ (Store.sampleTuple 7)).Marks := rfl
    exact ⟨_, hcall, by decide +kernel, by decide +kernel,
      hharmless hmarks hcall (Option.some_ne_none _)⟩
  · have hrun : Run Regular (idle (Store.sample {})) _ nearlyPlaced := run_play (by decide +kernel)
    have hgot : ((nearlyPlaced.got? (.step ⟨1⟩)).bind fun x =>
        lastStep.changed? x.2.2).isSome = true := by decide +kernel
    obtain ⟨page', hgot⟩ := Option.isSome_iff_exists.1 hgot
    obtain ⟨⟨s, f, page⟩, hg, hch⟩ := Option.bind_eq_some_iff.1 hgot
    have hcall : nearlyPlaced.calls ⟨1⟩ = some lastStep := by decide +kernel
    have hm : nearlyPlaced.moved? (.step ⟨1⟩) =
        some (⟨1⟩, lastStep, nearlyPlaced.store.step ⟨1⟩ lastStep) := by
      simp only [moved?, hcall, Option.map_some]
    obtain ⟨_, hmarked, _⟩ := hrun.failures_are_harmless (Store.opened_sample {})
    obtain ⟨hresident, hmark, _⟩ := hmarked (by decide +kernel) hm hg hch
    exact ⟨s, f, page, page', hg, hch, hresident, congrArg Prod.snd hmark⟩

end Engine
end PageStore

import PageStore.Proofs.Store.Answers
import PageStore.Proofs.Store.Content

/-!
# PageStore.Proofs.Store.Sizes

How many pages the tables' files have. Whatever a call does with its page leaves every file as long
as it was (`decided_sized`): a page that is written back lies in its file already. Only an insertion
that appends makes a file longer, its table's and by one page (`aim_sizes`). That page shows
nothing, so once the insertion has it the insertion ends (`decided_of_empty`).
-/

namespace PageStore

open LockManager

theorem Page.not_full_of_empty {page : Page} (h : page.stored = fun _ => none) :
    page.isFull = false := by
  have hfree : page.image.bit 0 = false := by
    have hslot := congrFun h 0
    rw [stored_eq] at hslot
    by_contra hbit
    rw [if_pos ⟨page.holds_one, by simpa using hbit⟩] at hslot
    cases hslot
  unfold isFull firstFree?
  rw [Option.isNone_eq_false_iff, List.find?_isSome]
  exact ⟨0, List.mem_range.2 page.holds_one, by rw [hfree]; rfl⟩

namespace Store

variable {s s' s'' : Store} {t : TxnId} {p : PageId} {m : LockMode} {f : FrameId} {page : Page}
  {c c' : Call} {tb : TableId} {r : LockManager × Verdict}

/-- Every table's file has as many pages as before. -/
def Sized (s s' : Store) : Prop := ∀ tb, s'.wholeCount tb = s.wholeCount tb

/-- One table's file has one page more. -/
def Grown (tb : TableId) (s s' : Store) : Prop :=
  ∀ u, s'.wholeCount u = if u = tb then s.wholeCount u + 1 else s.wholeCount u

theorem Sized.refl (s : Store) : Sized s s := fun _ => rfl

theorem Sized.trans (h : Sized s s') (h' : Sized s' s'') : Sized s s'' :=
  fun tb => (h' tb).trans (h tb)

theorem Sized.grown (h : Sized s s') (h' : Grown tb s' s'') : Grown tb s s'' := by
  intro u
  rw [h' u, h u]

theorem Grown.sized (h : Grown tb s s') (h' : Sized s' s'') : Grown tb s s'' :=
  fun u => (h' u).trans (h u)

theorem Alike.sized (h : Alike s s') : Sized s s' := h.wholeCount

/-- To write a page anew makes no file longer. -/
theorem Wrote.sized (h : Wrote s page s') (hno : page.id.no < s.wholeCount page.id.table) :
    Sized s s' := by
  intro tb
  rw [h.wholeCount]
  by_cases htb : tb = page.id.table
  · rw [if_pos htb, htb]
    omega
  · rw [if_neg htb]

/-- To write a page behind the last makes its file longer by one. -/
theorem Wrote.grown (h : Wrote s page s') (hno : page.id.no = s.wholeCount page.id.table) :
    Grown page.id.table s s' := by
  intro tb
  rw [h.wholeCount]
  by_cases htb : tb = page.id.table
  · rw [if_pos htb, if_pos htb, htb]
    omega
  · rw [if_neg htb, if_neg htb]

/-! ## What a call does with its page -/

theorem flushFrame_sized (hs : s.Sound) (hr : s.cache.resident[p]? = some f) :
    Sized s (s.flushFrame f).1 := by
  obtain ⟨page, hf, hid⟩ := hs.framed p f hr
  obtain ⟨_, _, _, hno⟩ := hs.known p page (page?_of_frame hr hf)
  have hf : s.frame? f = some page := hf
  rw [← hid] at hno
  unfold flushFrame
  rw [hf]
  dsimp only
  by_cases hclean : (!page.isDirty) = true
  · rw [if_pos hclean]
    exact .refl s
  · rw [if_neg hclean]
    rcases writePage_spec hs page with ⟨e, he, ha⟩ | ⟨hok, hw⟩
    · generalize s.writePage page = r at he ha
      obtain ⟨s', x⟩ := r
      cases he
      exact ha.sized
    · generalize s.writePage page = r at hok hw
      obtain ⟨s', x⟩ := r
      cases hok
      exact hw.sized hno

theorem evict_sized (hs : s.Sound) : Sized s s.evict.1 := by
  unfold evict
  cases hv : s.cache.recency.victims.find? s.mayLeave with
  | none => exact .refl s
  | some p =>
    dsimp only
    have hflush : Sized s (s.flushPage p).1 := by
      unfold flushPage
      cases hr : s.cache.resident[p]? with
      | none => exact .refl s
      | some f => exact flushFrame_sized hs hr
    generalize s.flushPage p = r at hflush
    obtain ⟨s₁, x⟩ := r
    cases x with
    | error e => exact hflush
    | ok b => exact hflush

theorem makeRoom_sized (hs : s.Sound) : Sized s s.makeRoom.1 := by
  unfold makeRoom
  by_cases hfull : s.config.capacity ≤ s.cache.size
  · rw [if_pos hfull]
    exact evict_sized hs
  · rw [if_neg hfull]
    exact .refl s

theorem fetch_sized (hs : s.Sound) (p : PageId) : Sized s (s.fetch p).1 := by
  unfold fetch
  cases s.cache.copy? p with
  | some found => exact .refl s
  | none =>
    have hs₁ : Sound { s with cache := s.cache.countMiss } :=
      (same_copies (W := fun _ => False) hs (c := s.cache.countMiss) rfl rfl).1
    have h₁ : Sized s (makeRoom { s with cache := s.cache.countMiss }).1 := makeRoom_sized hs₁
    dsimp only
    generalize makeRoom { s with cache := s.cache.countMiss } = r at h₁
    obtain ⟨s₁, x⟩ := r
    cases x with
    | error e => exact h₁
    | ok _ =>
      rw [andThen_ok]
      have h₂ := h₁.trans (readPage_spec s₁ p).1.sized
      generalize s₁.readPage p = r at h₂
      obtain ⟨s₂, x⟩ := r
      cases x with
      | error e => exact h₂
      | ok page => exact h₂

theorem marked_sized (page' : Page) (hr : s.cache.resident[page.id]? = some f)
    (hf : s.frame? f = some page) (hid : page'.id = page.id) (t : TxnId) :
    Sized s ((s.setFrame f page').markDirty t f).1 := by
  have hr' : (s.setFrame f page').cache.resident[page'.id]? = some f := by
    rw [hid]
    exact hr
  rw [markDirty_of_resident hr' (frame?_setFrame hf page') t]
  exact .refl s

theorem use_sized (hs : s.Sound) (hr : s.cache.resident[p]? = some f)
    (hf : s.frame? f = some page) (hc : c.Marks) (t : TxnId) : Sized s (s.use t f page c).1 := by
  obtain rfl : page.id = p := hs.framed.id_eq (page?_of_frame hr hf)
  cases c with
  | lock q mode => exact .refl s
  | fetch q access => exact .refl s
  | insert table tuple marks placing =>
    cases hc
    simp only [use]
    by_cases hfull : page.isFull = true
    · rw [if_pos hfull]
      exact .refl s
    · rw [if_neg hfull]
      rcases page.insert_cases tuple with ⟨image, e, hi, _⟩ | ⟨image, slot, bytes, hi, _⟩
      · rw [hi]
        exact .refl s
      · have hmark := marked_sized { page with image } hr hf rfl t
        rw [hi]
        dsimp only [finishInsert]
        rw [if_pos rfl]
        generalize (s.setFrame f { page with image }).markDirty t f = r at hmark
        obtain ⟨s', x⟩ := r
        cases x <;> exact hmark
  | delete tuple from? =>
    cases hc
    simp only [use]
    cases hd : page.delete tuple with
    | error e => exact .refl s
    | ok page' =>
      obtain ⟨r, _, _, _, rfl, _⟩ := Page.delete_eq_ok hd
      have hmark := marked_sized { page with image := page.image.putBit r.slot false } hr hf rfl t
      dsimp only [Option.isSome_none]
      rw [if_neg Bool.false_ne_true]
      generalize (s.setFrame f { page with image := page.image.putBit r.slot false }).markDirty t f =
        x at hmark
      obtain ⟨s', x⟩ := x
      cases x <;> exact hmark
  | next cursor =>
    simp only [use]
    cases page.tuples <;> exact .refl s
  | scan table no seen =>
    simp only [use]
    cases page.tuples <;> exact .refl s

theorem proceed_sized (hs : s.Sound) (hc : c.Marks) (t : TxnId) (p : PageId) :
    Sized s (s.proceed t p c).1 := by
  unfold proceed
  split
  · exact .refl s
  · obtain ⟨hs', _, hcopy⟩ := fetch_spec (p := p) hs
    have hsized := fetch_sized hs p
    generalize s.fetch p = r at hs' hcopy hsized
    obtain ⟨s', x⟩ := r
    cases x with
    | error e => exact hsized
    | ok found =>
      obtain ⟨f, page⟩ := found
      obtain ⟨hr, hf⟩ := hcopy f page rfl
      exact hsized.trans (use_sized hs' hr hf hc t)

theorem decided_sized (hs : s.Sound) (hc : c.Marks) (t : TxnId) (p : PageId) (m : LockMode)
    (r : LockManager × Verdict) : Sized s (s.decided t p m c r).1 := by
  obtain ⟨locks, verdict⟩ := r
  cases verdict with
  | granted => exact proceed_sized (hs.with_locks locks) hc t p
  | asleep => exact .refl s
  | refused => exact .refl s

/-! ## Appending -/

theorem appendPage_sizes {table : Table} (hs : s.Sound) (ht : s.catalog.table? tb = some table)
    (hfits : s.wholeCount tb < 4294967296) :
    (∃ e, (s.appendPage table).2 = .error e ∧ Sized s (s.appendPage table).1) ∨
      ((s.appendPage table).2 = .ok ⟨tb, s.wholeCount tb⟩ ∧ Grown tb s (s.appendPage table).1) := by
  rcases appendPage_cases hs.catalog ht with ⟨e, he, ha⟩ | ⟨page, hpid, _, hok, hw⟩
  · exact .inl ⟨e, he, ha.sized⟩
  · rw [pageCount_of_fits hfits] at hpid
    have hgrown := hw.grown (by rw [hpid])
    rw [hpid] at hok hgrown
    exact .inr ⟨hok, hgrown⟩

/-- Only an appending insertion changes the store while it looks for its page. -/
theorem aim_fst (h : c.appends? = none) : (s.aim c).1 = s := by
  have haims := s.aims c
  generalize s.aim c = r at haims
  cases haims with
  | unappended => cases h
  | appended => cases h
  | _ => rfl

/-- An appending insertion fails without a new page, or goes to the new page. -/
theorem aim_sizes (hs : s.Sound) (hc : c.appends? = some tb)
    (hfits : s.wholeCount tb < 4294967296) :
    (∃ a, (s.aim c).2 = .finish a ∧ Sized s (s.aim c).1) ∨
      ((s.aim c).2 = .page ⟨tb, s.wholeCount tb⟩ .exclusive c ∧ Grown tb s (s.aim c).1) := by
  have haims := s.aims c
  generalize s.aim c = r at haims
  cases haims with
  | refused => exact .inl ⟨_, rfl, .refl s⟩
  | unappended ht herror =>
    cases hc
    rcases appendPage_sizes hs (table_eq_ok_iff.1 ht) hfits with ⟨_, _, hsized⟩ | ⟨hok, _⟩
    · exact .inl ⟨_, rfl, hsized⟩
    · rw [herror] at hok
      cases hok
  | appended ht hpage =>
    cases hc
    rcases appendPage_sizes hs (table_eq_ok_iff.1 ht) hfits with ⟨e, he, _⟩ | ⟨hok, hgrown⟩
    · rw [hpage] at he
      cases he
    · rw [hpage, Except.ok.injEq] at hok
      subst hok
      exact .inr ⟨rfl, hgrown⟩
  | _ => cases hc

/-- An insertion that is given a page with room for a tuple ends. -/
theorem use_of_room {table : TableId} {tuple : Tuple} {marks : Bool} {placing : Placing}
    (h : page.isFull = false) :
    (s.use t f page (.insert table tuple marks placing)).2.call? = none := by
  simp only [use]
  rw [if_neg (by rw [h]; exact Bool.false_ne_true)]
  generalize page.insert tuple = x
  obtain ⟨page', y⟩ := x
  cases y with
  | error e => rfl
  | ok tuple' =>
    dsimp only [finishInsert]
    cases marks with
    | false => rfl
    | true =>
      rw [if_pos rfl]
      generalize (s.setFrame f page').markDirty t f = x
      obtain ⟨s', y⟩ := x
      cases y <;> rfl

theorem use_appends (h : (s.use t f page c).2.call? = some c') : c'.appends? = c.appends? := by
  cases c with
  | lock q mode => cases h
  | fetch q access => cases h
  | insert table tuple marks placing =>
    cases hfull : page.isFull with
    | false =>
      rw [use_of_room hfull] at h
      cases h
    | true =>
      simp only [use] at h
      rw [if_pos hfull] at h
      cases h
      cases placing <;> rfl
  | delete tuple from? =>
    simp only [use] at h
    cases hd : page.delete tuple with
    | error e =>
      rw [hd] at h
      cases h
    | ok page' =>
      rw [hd] at h
      dsimp only at h
      split at h
      · cases h
      · generalize (s.setFrame f page').markDirty t f = x at h
        obtain ⟨s', y⟩ := x
        cases y <;> cases h
  | next cursor =>
    simp only [use] at h
    generalize page.tuples = x at h
    cases x with
    | error e => cases h
    | ok us =>
      cases h
      rfl
  | scan table no seen =>
    simp only [use] at h
    generalize page.tuples = x at h
    cases x with
    | error e => cases h
    | ok us =>
      cases h
      rfl

/-- No call begins or ceases to append by what it does with a page. -/
theorem decided_appends (h : (s.decided t p m c r).2.call? = some c') :
    c'.appends? = c.appends? := by
  obtain ⟨locks, verdict⟩ := r
  cases verdict with
  | granted =>
    simp only [decided] at h
    unfold proceed at h
    split at h
    · cases h
    · generalize fetch { s with locks } p = x at h
      obtain ⟨s₁, y⟩ := x
      cases y with
      | error e => cases h
      | ok found => exact use_appends h
  | asleep =>
    cases h
    rfl
  | refused => cases h

/-- An appending insertion goes on only if it has to wait for its page. -/
theorem decided_of_empty (hs : s.Sound) (hempty : s.shown p = fun _ => none)
    (hc : c.appends? = some tb) (h : (s.decided t p m c r).2.call? = some c') :
    r.2 = .asleep ∧ c' = c := by
  obtain ⟨locks, verdict⟩ := r
  cases verdict with
  | granted =>
    simp only [decided] at h
    unfold proceed at h
    split at h
    · cases h
    · have hshows : ∀ f page, (fetch { s with locks } p).2 = .ok (f, page) →
          page.stored = s.shown p := fun _ _ => fetch_shows (hs.with_locks locks)
      generalize fetch { s with locks } p = x at h hshows
      obtain ⟨s₁, y⟩ := x
      cases y with
      | error e => cases h
      | ok found =>
        obtain ⟨f, page⟩ := found
        have hroom := Page.not_full_of_empty ((hshows f page rfl).trans hempty)
        cases c with
        | insert table tuple marks placing =>
          dsimp only at h
          rw [use_of_room hroom] at h
          cases h
        | _ => cases hc
  | asleep =>
    cases h
    exact ⟨rfl, rfl⟩
  | refused => cases h

end Store
end PageStore

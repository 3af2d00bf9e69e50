import PageStore.Proofs.Store.Change
import PageStore.Store.Call

/-!
# PageStore.Proofs.Store.Steps

One step of a call. Whatever the call is and however the step ends, it changes nothing of what is
shown, or it is the last step of an insertion or a deletion and changes one slot of the page that it
has locked (`Does`). The change can be read off the call and its answer (`Call.edit?`).
-/

namespace PageStore

/-- A change of one slot, and the bytes that it holds afterwards, if any. -/
structure Edit where
  record : RecordId
  bytes : Option (List UInt8)
  deriving DecidableEq

namespace Call

/-- The mode in which a call locks its pages. -/
def mode : Call → LockMode
  | .lock _ mode => mode
  | .fetch _ access => access.mode
  | .insert _ _ _ _ => .exclusive
  | .delete _ _ => .exclusive
  | .next _ => .shared
  | .scan _ _ _ => .shared

/-- A call that marks the page it changes. -/
def Marks : Call → Prop
  | .insert _ _ marks _ => marks = true
  | .delete _ from? => from? = none
  | _ => True

instance : (c : Call) → Decidable c.Marks
  | .insert _ _ marks _ => inferInstanceAs (Decidable (marks = true))
  | .delete _ from? => inferInstanceAs (Decidable (from? = none))
  | .lock _ _ => .isTrue trivial
  | .fetch _ _ => .isTrue trivial
  | .next _ => .isTrue trivial
  | .scan _ _ _ => .isTrue trivial

/-- The table whose file gets a page in the next step of a call. -/
def appends? : Call → Option TableId
  | .insert table _ _ .appending => some table
  | _ => none

/-- The record that a deletion deletes. -/
def deletes? : Call → Option RecordId
  | .delete tuple _ => tuple.record
  | _ => none

/-- What a call has changed that ends with an answer. -/
def edit? (c : Call) : Answer → Option Edit
  | .inserted tuple (.ok _) => tuple.record.map fun r => ⟨r, tuple.encode.toOption⟩
  | .deleted (.ok _) => c.deletes?.map fun r => ⟨r, none⟩
  | _ => none

/-- The pages that a call may sleep for. -/
def Wants : Call → PageId → Prop
  | .lock page _, p => p = page
  | .fetch page _, p => p = page
  | .insert table _ _ (.searching no _), p => p = ⟨table, no⟩
  | .insert table _ _ _, p => p.table = table
  | .delete tuple _, p => ∃ r, tuple.record = some r ∧ p = r.page
  | .next cursor, p => cursor.loaded = [] ∧ p = ⟨cursor.table, cursor.nextPage⟩
  | .scan table no _, p => p = ⟨table, no⟩

theorem Wants.table_of_insert {table : TableId} {tuple : Tuple} {marks : Bool} {placing : Placing}
    {p : PageId} (h : (Call.insert table tuple marks placing).Wants p) : p.table = table := by
  cases placing with
  | starting => exact h
  | searching no count => exact congrArg PageId.table h
  | appending => exact h

/-- The same call, further on. -/
structure Follows (c c' : Call) : Prop where
  mode : c'.mode = c.mode
  marks : c.Marks → c'.Marks
  deletes? : c'.deletes? = c.deletes?

theorem Follows.refl (c : Call) : Follows c c := ⟨rfl, id, rfl⟩

theorem Follows.trans {c c' c'' : Call} (h : Follows c c') (h' : Follows c' c'') :
    Follows c c'' :=
  ⟨h'.mode.trans h.mode, fun hm => h'.marks (h.marks hm), h'.deletes?.trans h.deletes?⟩

theorem Follows.edit? {c c' : Call} (h : Follows c c') (a : Answer) : c'.edit? a = c.edit? a := by
  unfold Call.edit?
  rw [h.deletes?]

theorem edit?_fail (c : Call) (e : Error) : c.edit? (c.fail e) = none := by
  cases c <;> rfl

end Call

/-- What a call has changed that stands so after a step. -/
def Progress.edit? (c : Call) : Progress → Option Edit
  | .done a => c.edit? a
  | _ => none

/-- The call as it goes on, unless it is done. -/
def Progress.call? : Progress → Option Call
  | .next c => some c
  | .waiting _ _ c => some c
  | .done _ => none

/-- What a call may want next. -/
inductive Aim.Suits (c : Call) : Aim → Prop where
  | page {p : PageId} : Suits c (.page p c.mode c)
  | onward {c' : Call} : c.Follows c' → Suits c (.onward c')
  | finish {a : Answer} : c.edit? a = none → Suits c (.finish a)

namespace Store

variable {s s' : Store} {p : PageId} {f : FrameId} {page : Page} {t : TxnId} {c : Call}
  {W : PageId → Prop}

/-- Nothing of what is shown changes but one slot, if any. -/
inductive Does (t : TxnId) (W : PageId → Prop) (s s' : Store) : Option Edit → Prop where
  | nothing : Keeps W s s' → Does t W s s' none
  | edit {s₁ : Store} {e : Edit} :
      Keeps W s s₁ → Edits t e.record e.bytes s₁ s' → Does t W s s' (some e)

theorem Does.after {s₁ : Store} {e? : Option Edit} (hk : Keeps W s s₁) (h : Does t W s₁ s' e?) :
    Does t W s s' e? := by
  cases h with
  | nothing hk' => exact .nothing (hk.trans hk')
  | edit hk' he => exact .edit (hk.trans hk') he

/-- What a call wants next, and the store then: only an insertion that appends changes it. -/
inductive Aims (s : Store) : Call → Store × Aim → Prop where
  | lock {p : PageId} {m : LockMode} : Aims s (.lock p m) (s, .page p m (.lock p m))
  | fetch {p : PageId} {access : Access} :
      Aims s (.fetch p access) (s, .page p access.mode (.fetch p access))
  | refused {tb : TableId} {tuple : Tuple} {marks : Bool} {placing : Placing} {e : Error} :
      Aims s (.insert tb tuple marks placing) (s, .finish (.inserted tuple (.error e)))
  | begins {tb : TableId} {tuple : Tuple} {marks : Bool} :
      Aims s (.insert tb tuple marks .starting)
        (s, .onward (.insert tb tuple marks (.searching 0 (s.pageCount tb))))
  | looks {tb : TableId} {tuple : Tuple} {marks : Bool} {next count : Nat} : next < count →
      Aims s (.insert tb tuple marks (.searching next count))
        (s, .page ⟨tb, next⟩ .exclusive (.insert tb tuple marks (.searching next count)))
  | passed {tb : TableId} {tuple : Tuple} {marks : Bool} {next count : Nat} : count ≤ next →
      Aims s (.insert tb tuple marks (.searching next count))
        (s, .onward (.insert tb tuple marks .appending))
  | unappended {tb : TableId} {tuple : Tuple} {marks : Bool} {table : Table} {e : Error} :
      s.table tb = .ok table → (s.appendPage table).2 = .error e →
      Aims s (.insert tb tuple marks .appending)
        ((s.appendPage table).1, .finish (.inserted tuple (.error e)))
  | appended {tb : TableId} {tuple : Tuple} {marks : Bool} {table : Table} {p : PageId} :
      s.table tb = .ok table → (s.appendPage table).2 = .ok p →
      Aims s (.insert tb tuple marks .appending)
        ((s.appendPage table).1, .page p .exclusive (.insert tb tuple marks .appending))
  | untargeted {tuple : Tuple} {from? : Option TableId} {e : Error} :
      Aims s (.delete tuple from?) (s, .finish (.deleted (.error e)))
  | targeted {tuple : Tuple} {from? : Option TableId} {p : PageId} :
      s.deletionTarget tuple from? = .ok p →
      Aims s (.delete tuple from?) (s, .page p .exclusive (.delete tuple from?))
  | spent {k : Cursor} : k.failed = true → Aims s (.next k) (s, .finish (.item k none))
  | gives {k : Cursor} {tuple : Tuple} {rest : List Tuple} : k.loaded = tuple :: rest →
      Aims s (.next k) (s, .finish (.item { k with loaded := rest } (some (.ok tuple))))
  | uncounted {k : Cursor} {e : Error} : Aims s (.next k) (s, .finish ((Call.next k).fail e))
  | loads {k : Cursor} : k.loaded = [] → k.nextPage < s.pageCount k.table →
      Aims s (.next k) (s, .page ⟨k.table, k.nextPage⟩ .shared (.next k))
  | ended {k : Cursor} : k.loaded = [] → s.pageCount k.table ≤ k.nextPage →
      Aims s (.next k) (s, .finish (.item k none))
  | unscanned {tb : TableId} {no : Nat} {seen : List Tuple} {e : Error} :
      Aims s (.scan tb no seen) (s, .finish (.scanned seen (some e)))
  | scans {tb : TableId} {no : Nat} {seen : List Tuple} : no < s.pageCount tb →
      Aims s (.scan tb no seen) (s, .page ⟨tb, no⟩ .shared (.scan tb no seen))
  | scanned {tb : TableId} {no : Nat} {seen : List Tuple} : s.pageCount tb ≤ no →
      Aims s (.scan tb no seen) (s, .finish (.scanned seen none))

theorem aims_insert (s : Store) (tb : TableId) (tuple : Tuple) (marks : Bool) (placing : Placing) :
    Aims s (.insert tb tuple marks placing) (s.aim (.insert tb tuple marks placing)) := by
  simp only [aim]
  cases ht : s.table tb with
  | error e => exact .refused
  | ok table =>
    cases placing with
    | starting =>
      dsimp only
      split
      · exact .refused
      · cases hcount : s.countPages tb with
        | error e => exact .refused
        | ok count =>
          obtain rfl := countPages_eq_ok hcount
          exact .begins
    | searching next count =>
      dsimp only
      split
      · next hlt => exact .looks hlt
      · next hend => exact .passed (Nat.not_lt.1 hend)
    | appending =>
      dsimp only
      have hfailed := @Aims.unappended s tb tuple marks table
      have happended := @Aims.appended s tb tuple marks table
      generalize s.appendPage table = r at hfailed happended
      obtain ⟨s', x⟩ := r
      cases x with
      | error e => exact hfailed ht rfl
      | ok page => exact happended ht rfl

theorem aims_next (s : Store) (k : Cursor) : Aims s (.next k) (s.aim (.next k)) := by
  simp only [aim]
  split
  · next hfailed => exact .spent hfailed
  · cases hl : k.loaded with
    | cons tuple rest => exact .gives hl
    | nil =>
      dsimp only
      cases hcount : s.countPages k.table with
      | error e => exact .uncounted
      | ok count =>
        obtain rfl := countPages_eq_ok hcount
        dsimp only
        split
        · next hlt => exact .loads hl hlt
        · next hend => exact .ended hl (Nat.not_lt.1 hend)

theorem aims_scan (s : Store) (tb : TableId) (no : Nat) (seen : List Tuple) :
    Aims s (.scan tb no seen) (s.aim (.scan tb no seen)) := by
  simp only [aim]
  cases hcount : s.countPages tb with
  | error e => exact .unscanned
  | ok count =>
    obtain rfl := countPages_eq_ok hcount
    dsimp only
    split
    · next hlt => exact .scans hlt
    · next hend => exact .scanned (Nat.not_lt.1 hend)

theorem aims (s : Store) (c : Call) : Aims s c (s.aim c) := by
  cases c with
  | lock page mode => exact .lock
  | fetch page access => exact .fetch
  | insert table tuple marks placing => exact s.aims_insert table tuple marks placing
  | delete tuple from? =>
    simp only [aim]
    cases hpage : s.deletionTarget tuple from? with
    | error e => exact .untargeted
    | ok page => exact .targeted hpage
  | next cursor => exact s.aims_next cursor
  | scan table no seen => exact s.aims_scan table no seen

theorem aims_of_aim {a : Aim} (h : (s.aim c).2 = a) : ∃ s', Aims s c (s', a) := by
  subst h
  exact ⟨_, s.aims c⟩

theorem Aims.suits {r : Store × Aim} (h : Aims s c r) : r.2.Suits c := by
  cases h with
  | lock => exact .page
  | fetch => exact .page
  | looks => exact .page
  | appended => exact .page
  | targeted => exact .page
  | loads => exact .page
  | scans => exact .page
  | begins => exact .onward ⟨rfl, id, rfl⟩
  | passed => exact .onward ⟨rfl, id, rfl⟩
  | _ => exact .finish rfl

theorem deletionTarget_eq_ok {tuple : Tuple} {from? : Option TableId}
    (h : s.deletionTarget tuple from? = .ok p) : ∃ r, tuple.record = some r ∧ p = r.page := by
  have hpage : ∀ tb r, s.deletionPage tb r = .ok p → p = r.page := by
    intro tb r hr
    unfold deletionPage at hr
    split at hr
    · cases hr
    · cases hcount : s.countPages tb.id with
      | error e =>
        rw [hcount] at hr
        cases hr
      | ok count =>
        rw [hcount] at hr
        dsimp only at hr
        split at hr
        · cases hr
        · exact (Except.ok.inj hr).symm
  unfold deletionTarget at h
  cases hrec : tuple.record with
  | none =>
    rw [hrec] at h
    cases from? with
    | none => cases h
    | some id => cases hid : s.table id <;> simp [hid] at h
  | some r =>
    rw [hrec] at h
    refine ⟨r, rfl, ?_⟩
    cases from? with
    | none =>
      dsimp only at h
      cases htb : s.table r.page.table with
      | error e => simp [htb] at h
      | ok tb =>
        rw [htb] at h
        exact hpage tb r h
    | some id =>
      dsimp only at h
      cases htb : s.table id with
      | error e => simp [htb] at h
      | ok tb =>
        rw [htb] at h
        exact hpage tb r h

theorem appendPage_eq_ok {tb : Table} (h : (s.appendPage tb).2 = .ok p) :
    p = ⟨tb.id, s.pageCount tb.id⟩ := by
  unfold appendPage at h
  cases hcount : s.countPages tb.id with
  | error e =>
    rw [hcount] at h
    cases h
  | ok count =>
    obtain rfl := countPages_eq_ok hcount
    rw [hcount, andThen_ok] at h
    dsimp only at h
    cases he : Page.empty ⟨tb.id, s.pageCount tb.id⟩ tb.schema with
    | error e =>
      rw [he] at h
      cases h
    | ok page =>
      rw [he] at h
      dsimp only at h
      generalize s.writePage page = r at h
      obtain ⟨s', x⟩ := r
      cases x with
      | error e => cases h
      | ok u =>
        cases h
        rfl

/-- The page that a call goes to next is one that it may sleep for, and it goes there unchanged. -/
theorem aim_page {m : LockMode} {c' : Call} (hs : s.Sound) (h : (s.aim c).2 = .page p m c') :
    c' = c ∧ m = c.mode ∧ c.Wants p := by
  obtain ⟨_, haims⟩ := aims_of_aim h
  cases haims with
  | appended ht hpage =>
    refine ⟨rfl, rfl, ?_⟩
    rw [appendPage_eq_ok hpage]
    exact hs.catalog.ids _ _ (table_eq_ok_iff.1 ht)
  | targeted hpage => exact ⟨rfl, rfl, deletionTarget_eq_ok hpage⟩
  | loads hl _ => exact ⟨rfl, rfl, hl, rfl⟩
  | lock => exact ⟨rfl, rfl, rfl⟩
  | fetch => exact ⟨rfl, rfl, rfl⟩
  | looks _ => exact ⟨rfl, rfl, rfl⟩
  | scans _ => exact ⟨rfl, rfl, rfl⟩

/-- While a call looks for its next page nothing of what can be seen changes. -/
theorem aim_spec (hs : s.Sound) (c : Call)
    (hfits : ∀ tb, c.appends? = some tb → s.wholeCount tb < 4294967296) :
    (s.aim c).1.Sound ∧ Keeps W s (s.aim c).1 := by
  have haims := s.aims c
  generalize s.aim c = r at haims
  cases haims with
  | unappended ht _ => exact appendPage_spec hs (table_eq_ok_iff.1 ht) (hfits _ rfl)
  | appended ht _ => exact appendPage_spec hs (table_eq_ok_iff.1 ht) (hfits _ rfl)
  | _ => exact ⟨hs, .refl s⟩

/-- How a step may end that has locked `p`: with a sound store, and with an edit only of `p`. -/
structure Went (t : TxnId) (p : PageId) (c : Call) (W : PageId → Prop) (s : Store)
    (r : Store × Progress) : Prop where
  sound : r.1.Sound
  does : Does t W s r.1 (r.2.edit? c)
  place : ∀ e, r.2.edit? c = some e → e.record.page = p ∧ c.mode = .exclusive
  follows : ∀ c', r.2.call? = some c' → c.Follows c'

theorem Went.after {s₁ : Store} {r : Store × Progress} (hk : Keeps W s s₁)
    (h : Went t p c W s₁ r) : Went t p c W s r :=
  ⟨h.sound, h.does.after hk, h.place, h.follows⟩

theorem went_done {a : Answer} (hs : s'.Sound) (hk : Keeps W s s') (ha : c.edit? a = none) :
    Went t p c W s (s', .done a) where
  sound := hs
  does := by
    have : (Progress.done a).edit? c = none := ha
    rw [this]
    exact .nothing hk
  place e he := by
    have he : c.edit? a = some e := he
    rw [ha] at he
    cases he
  follows c' h := by cases h

theorem went_next {c' : Call} (hs : s.Sound) (hc : c.Follows c') :
    Went t p c W s (s, .next c') where
  sound := hs
  does := .nothing (.refl s)
  place e he := by cases he
  follows c'' h := by
    cases h
    exact hc

theorem went_edited {a : Answer} {slot : Nat} {x : Option (List UInt8)} (hs : s'.Sound)
    (he : Edits t ⟨p, slot⟩ x s s') (ha : c.edit? a = some ⟨⟨p, slot⟩, x⟩)
    (hm : c.mode = .exclusive) : Went t p c W s (s', .done a) where
  sound := hs
  does := by
    have : (Progress.done a).edit? c = some ⟨⟨p, slot⟩, x⟩ := ha
    rw [this]
    exact .edit (.refl s) he
  place e he := by
    have he : c.edit? a = some e := he
    rw [ha] at he
    cases he
    exact ⟨rfl, hm⟩
  follows c' h := by cases h

theorem use_spec (hs : s.Sound) (hr : s.cache.resident[p]? = some f)
    (hf : s.frame? f = some page) (hc : c.Marks) (t : TxnId) :
    Went t p c W s (s.use t f page c) := by
  have hid : page.id = p := hs.framed.id_eq (page?_of_frame hr hf)
  cases c with
  | lock q mode => exact went_done hs (.refl s) rfl
  | fetch q access => exact went_done hs (.refl s) rfl
  | insert table tuple marks placing =>
    cases hc
    simp only [use]
    by_cases hfull : page.isFull = true
    · rw [if_pos hfull]
      exact went_next hs ⟨rfl, id, rfl⟩
    · rw [if_neg hfull]
      rcases page.insert_cases tuple with ⟨image, e, hi, hsame⟩ | ⟨image, slot, bytes, hi, h⟩
      · rw [hi]
        obtain ⟨hs', hk⟩ := hs.scribble (W := W) { page with image } hr hf hid rfl hsame rfl
        exact went_done hs' hk rfl
      · obtain ⟨hfree, _, hencode, hstored⟩ := h
        rw [hi]
        obtain ⟨hok, hs', he⟩ := hs.edit (t := t) { page with image } hr hf hid rfl hstored
        dsimp only [finishInsert]
        rw [if_pos rfl]
        generalize (s.setFrame f { page with image }).markDirty t f = r at hok hs' he
        obtain ⟨s', x⟩ := r
        cases hok
        refine went_edited hs' he ?_ rfl
        have henc : ({ tuple with record := some (page.recordAt slot) } : Tuple).encode =
            .ok bytes := hencode
        dsimp only [Call.edit?]
        rw [henc, Page.recordAt_eq (Page.firstFree?_eq_some hfree).1, hid]
        rfl
  | delete tuple from? =>
    cases hc
    simp only [use]
    cases hd : page.delete tuple with
    | error e => exact went_done hs (.refl s) rfl
    | ok page' =>
      obtain ⟨r, hrec, hpage, _, rfl, hstored⟩ := Page.delete_eq_ok hd
      obtain ⟨hok, hs', he⟩ := hs.edit (t := t) { page with image := page.image.putBit r.slot false }
        hr hf hid rfl hstored
      dsimp only [Option.isSome_none]
      rw [if_neg Bool.false_ne_true]
      generalize (s.setFrame f { page with image := page.image.putBit r.slot false }).markDirty t f =
        x at hok hs' he
      obtain ⟨s', x⟩ := x
      cases hok
      refine went_edited hs' he ?_ rfl
      dsimp only [Call.edit?, Call.deletes?]
      rw [hrec, ← hid, ← hpage]
      rfl
  | next cursor =>
    simp only [use]
    cases page.tuples with
    | error e => exact went_done hs (.refl s) rfl
    | ok tuples => exact went_next hs ⟨rfl, id, rfl⟩
  | scan table no seen =>
    simp only [use]
    cases page.tuples with
    | error e => exact went_done hs (.refl s) rfl
    | ok tuples => exact went_next hs ⟨rfl, id, rfl⟩

theorem proceed_spec (hs : s.Sound) (hc : c.Marks) (t : TxnId) (p : PageId) :
    Went t p c s.Loose s (s.proceed t p c) := by
  unfold proceed
  split
  · exact went_done hs (.refl s) rfl
  · obtain ⟨hs', hk, hcopy⟩ := fetch_spec (p := p) hs
    generalize s.fetch p = r at hs' hk hcopy
    obtain ⟨s', x⟩ := r
    cases x with
    | error e => exact went_done hs' hk (c.edit?_fail e)
    | ok found =>
      obtain ⟨f, page⟩ := found
      obtain ⟨hr, hf⟩ := hcopy f page rfl
      exact (use_spec hs' hr hf hc t).after hk

end Store
end PageStore

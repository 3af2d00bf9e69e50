import PageStore.Proofs.Store.Alone
import PageStore.Proofs.Store.Asleep

/-!
# PageStore.Proofs.Store.Cursors

What a cursor gives, whoever else is at work. A cursor owns its position and the tuples that it has
loaded and not yet given, so nothing that is done to a page later changes what it gives of it.

* `Tour`: a cursor with its history since it was opened or last rewound. `Tours` has the tours of a
  transaction's cursor between and during its calls, with any other actions in the meantime.
* `Fits` is what every action keeps: the loaded pages are the first ones of the table, each of them
  once, and what was in their occupied slots has been given or is still to be given.
* `Tours.cursor_is_complete`: so what a cursor gives is what was in the pages from the first on, and
  it has nothing more only when all pages of the file have been loaded.
-/

namespace PageStore

theorem Page.usedSlots_eq (p : Page) : p.usedSlots =
    (List.range (slotsPerPage p.schema.width)).filter fun slot => (p.stored slot).isSome := by
  refine List.filter_congr fun slot hslot => ?_
  have hin : slot < p.slots := List.mem_range.1 hslot
  rw [← isUsed_eq]
  simp [isUsed, hin]

namespace Store

variable {s s' : Store} {p : PageId} {t : TxnId} {us : List Tuple} {table : Table}

/-- What is in the occupied slots of a page, in slot order. -/
def occupied (s : Store) (p : PageId) : List (Option Tuple) :=
  match s.pageAt? p with
  | some page => page.usedSlots.map page.content
  | none => []

theorem Sound.occupied_eq (hs : s.Sound) (ht : s.catalog.table? p.table = some table) :
    s.occupied p = ((List.range (slotsPerPage table.schema.width)).filter fun slot =>
      (s.shown p slot).isSome).map (s.content p) := by
  unfold occupied
  cases hp : s.pageAt? p with
  | none =>
    rw [hs.pageAt?_eq_none hp]
    simp
  | some page =>
    obtain ⟨_, hstored, table', ht', hschema, _⟩ := hs.pageAt?_eq_some hp
    rw [ht] at ht'
    cases ht'
    have hcontent : s.content p = page.content := by
      funext slot
      unfold content
      rw [hp]
      rfl
    dsimp only
    rw [page.usedSlots_eq, hstored, hschema, hcontent]

theorem Lists.occupied (h : s.Lists t p us) (hs : s.Sound) : us.map some = s.occupied p := by
  obtain ⟨page, hview, htuples⟩ := h
  obtain ⟨table, htable, hschema, _⟩ := hview.known
  rw [Page.tuples_eq_ok htuples, page.usedSlots_eq, hs.occupied_eq htable, hview.content_eq hs,
    hview.stored, hschema]

theorem Sound.occupied_congr (hs : s.Sound) (hs' : s'.Sound) (hlasts : Lasts s s')
    (ht : s'.catalog.table? p.table = some table) (h : s'.shown p = s.shown p) :
    s'.occupied p = s.occupied p := by
  obtain ⟨table₀, ht₀, hfresh⟩ := Catalog.table?_of_fresh hlasts.tables.symm ht
  rw [hs.occupied_eq ht₀, hs'.occupied_eq ht, h, Table.schema_of_fresh hfresh]
  refine List.map_congr_left fun slot _ => ?_
  exact hs.content_congr hs' hlasts (congrFun h slot)

end Store

/-- The page that a cursor loads next. -/
def Cursor.page (k : Cursor) : PageId := ⟨k.table, k.nextPage⟩

/-- A page that a cursor has loaded, with what was in its occupied slots then. -/
structure Load where
  page : PageId
  tuples : List (Option Tuple)

/-- A cursor since it was opened or last rewound: where it is, whether its next tuple is being
taken, what it has loaded and what it has given. -/
structure Tour where
  cursor : Cursor
  moving : Bool := false
  loads : List Load := []
  given : List Tuple := []

/-- The tuple that a cursor gives, if it does. -/
def givenBy : Option (Except Error Tuple) → List Tuple
  | some (.ok u) => [u]
  | some (.error _) => []
  | none => []

namespace Tour

/-- The call for the next tuple goes on from a store: it loads a page, or is answered. -/
def goOn (x : Tour) (s : Store) : Progress → Tour
  | .next (.next k) =>
    { x with cursor := k, loads := x.loads ++ [⟨x.cursor.page, s.occupied x.cursor.page⟩] }
  | .done (.item k result) =>
    { x with cursor := k, moving := false, given := x.given ++ givenBy result }
  | _ => x

/-- What an action makes of the tour of a transaction's cursor. -/
def after (x : Tour) (t : TxnId) (σ : Engine) (a : Action) : Tour :=
  match σ.moved? a with
  | some (u, _, (_, progress)) => if x.moving = true ∧ u = t then x.goOn σ.store progress else x
  | none => x

end Tour

namespace Engine

variable {σ σ₀ : Engine} {es : List Event} {t u : TxnId} {a : Action} {c : Call} {k : Cursor}
  {r : Store × Progress} {tb : TableId} {x : Tour} {result : Option (Except Error Tuple)}
  {p : PageId}

/-- The tours of a transaction's cursor of a table. It may be opened at any time, and between and
during its calls anything may happen but that the store is dropped. -/
inductive Tours (ok : Engine → Action → Prop) (σ₀ : Engine) (t : TxnId) (tb : TableId) :
    Engine → Tour → Prop where
  | opened {es : List Event} {σ : Engine} :
      Run ok σ₀ es σ → Tours ok σ₀ t tb σ { cursor := { table := tb } }
  | rewound {σ : Engine} {x : Tour} :
      Tours ok σ₀ t tb σ x → x.moving = false →
      Tours ok σ₀ t tb σ { cursor := x.cursor.rewind }
  | called {σ : Engine} {x : Tour} :
      Tours ok σ₀ t tb σ x → x.moving = false → σ.Allows (.call t (.next x.cursor)) →
      ok σ (.call t (.next x.cursor)) →
      Tours ok σ₀ t tb (σ.act (.call t (.next x.cursor))) { x with moving := true }
  | acted {σ : Engine} {x : Tour} (a : Action) :
      Tours ok σ₀ t tb σ x → σ.Allows a → ok σ a → a ≠ .restart →
      Tours ok σ₀ t tb (σ.act a) (x.after t σ a)

/-! ## What every action keeps -/

/-- The loaded pages are the first ones of the table, each of them once, and what was in them has
been given or is still to be given. A cursor that has failed is not waiting for a page. -/
structure Fits (σ : Engine) (t : TxnId) (tb : TableId) (x : Tour) : Prop where
  table : x.cursor.table = tb
  pages : x.loads.map Load.page = (List.range x.cursor.nextPage).map (PageId.mk tb)
  tuples : (x.given ++ x.cursor.loaded).map some = x.loads.flatMap Load.tuples
  calls : x.moving = true → σ.calls t = some (.next x.cursor)
  awake : x.moving = true → x.cursor.failed = true → σ.store.locks.Awake t

theorem fits_fresh (σ : Engine) (t : TxnId) (tb : TableId) :
    Fits σ t tb { cursor := { table := tb } } where
  table := rfl
  pages := rfl
  tuples := rfl
  calls h := by cases h
  awake h := by cases h

/-- An answer may give the first of the loaded tuples. -/
theorem Fits.answered (h : Fits σ t tb x) (σ' : Engine) (k : Cursor)
    (result : Option (Except Error Tuple)) (htable : k.table = x.cursor.table)
    (hpage : k.nextPage = x.cursor.nextPage)
    (hgiven : givenBy result ++ k.loaded = x.cursor.loaded) :
    Fits σ' t tb
      { x with cursor := k, moving := false, given := x.given ++ givenBy result } where
  table := htable.trans h.table
  pages := by
    rw [hpage]
    exact h.pages
  tuples := by
    rw [List.append_assoc, hgiven]
    exact h.tuples
  calls hx := by cases hx
  awake hx := by cases hx

/-- A failed cursor has nothing. -/
theorem Fits.moved_of_failed (h : Fits σ t tb x) (hmoving : x.moving = true)
    (hfailed : x.cursor.failed = true) (ha : σ.Allows a) (hm : σ.moved? a = some (t, c, r)) :
    r = (σ.store, .done (.item x.cursor none)) := by
  have hawake := h.awake hmoving hfailed
  obtain ⟨hcall, ⟨rfl, rfl⟩ | ⟨w, rfl, rfl, rfl⟩ | ⟨w, rfl, rfl, rfl⟩⟩ := moved_cases hm
  · rw [h.calls hmoving] at hcall
    cases hcall
    have haim : σ.store.aim (.next x.cursor) = (σ.store, .finish (.item x.cursor none)) := by
      simp only [Store.aim, hfailed, if_true]
    rw [Store.step_of_finish (congrArg Prod.snd haim), haim]
  · exact absurd rfl (hawake w ha.1)
  · exact absurd rfl (hawake w ha)

/-- A cursor takes what is in the occupied slots of a page when it loads the page. -/
theorem Lawful.load (hl : Lawful σ) (ha : σ.Allows a) (ho : σ.Regular a) {s : Store}
    {us : List Tuple} (hm : σ.moved? a = some (t, c, (s, .next (.next k))))
    (hus : s.Lists t p us) : us.map some = σ.store.occupied p := by
  obtain ⟨_, hact, hevent⟩ := act_of_moved hm
  obtain ⟨hlawful, hlasts, hturn⟩ := hl.act ha ho
  rw [hact] at hlawful hlasts hturn
  have hquiet : Store.Turn σ.store s .quiet := by
    rw [hevent] at hturn
    exact hturn
  have hshown : s.shown p = σ.store.shown p := by
    cases hquiet with
    | quiet hsaves _ => exact hsaves.shown p
  obtain ⟨page, hview, _⟩ := id hus
  obtain ⟨table, htable, _⟩ := hview.known
  rw [hus.occupied hlawful.sound]
  exact hl.sound.occupied_congr hlawful.sound hlasts htable hshown

/-- A step of the cursor's call gives a tuple, finds the end, fails, waits or loads a page. -/
theorem Lawful.fits_moved (hl : Lawful σ) (h : Fits σ t tb x) (hmoving : x.moving = true)
    (ha : σ.Allows a) (ho : σ.Regular a) (hm : σ.moved? a = some (t, c, r)) :
    Fits (σ.act a) t tb (x.goOn σ.store r.2) := by
  obtain ⟨hcall, hact, hevent⟩ := act_of_moved hm
  rw [h.calls hmoving] at hcall
  cases hcall
  have hcalls : (σ.act a).calls t = r.2.call? := by
    rw [hact]
    exact Function.update_self ..
  cases hfailed : x.cursor.failed with
  | true =>
    obtain rfl := h.moved_of_failed hmoving hfailed ha hm
    exact h.answered _ x.cursor none rfl rfl rfl
  | false =>
    -- neither waiting nor loading makes the cursor fail
    have hgoing : x.cursor.failed = true → (σ.act a).store.locks.Awake t := by
      intro hx
      rw [hfailed] at hx
      cases hx
    have hout := (hl.outcome ha ho hm).of_cursor
    obtain ⟨s, progress⟩ := r
    rcases hout with
      ⟨u, rest, hloaded, hr⟩ | ⟨_, hr⟩ | ⟨e, hr⟩ | ⟨p, m, hr⟩ | ⟨us, hempty, hr, hus⟩
    · cases hr
      exact h.answered _ _ (some (.ok u)) rfl rfl hloaded.symm
    · cases hr
      exact h.answered _ _ none rfl rfl rfl
    · cases hr
      exact h.answered _ _ (some (.error e)) rfl rfl rfl
    · cases hr
      exact ⟨h.table, h.pages, h.tuples, fun _ => hcalls, fun _ => hgoing⟩
    · cases hr
      have hload := hl.load ha ho hm hus
      refine ⟨h.table, ?_, ?_, fun _ => hcalls, fun _ => hgoing⟩
      · change (x.loads ++ [(⟨x.cursor.page, _⟩ : Load)]).map Load.page =
          (List.range (x.cursor.nextPage + 1)).map (PageId.mk tb)
        rw [List.map_append, h.pages, List.range_succ, List.map_append, ← h.table]
        rfl
      · have htuples := h.tuples
        rw [hempty, List.append_nil] at htuples
        change (x.given ++ us).map some =
          (x.loads ++ [(⟨x.cursor.page, _⟩ : Load)]).flatMap Load.tuples
        rw [List.map_append, htuples, hload, List.flatMap_append, List.flatMap_singleton]
        rfl

theorem Lawful.fits_after (hl : Lawful σ) (h : Fits σ t tb x) (ha : σ.Allows a)
    (ho : σ.Regular a) (hr : a ≠ .restart) : Fits (σ.act a) t tb (x.after t σ a) := by
  have hothers : (x.moving = true → ∀ c r, σ.moved? a ≠ some (t, c, r)) →
      Fits (σ.act a) t tb x := by
    intro hm
    refine ⟨h.table, h.pages, h.tuples, fun hx => ?_, fun hx hfailed => ?_⟩
    · exact calls_of_others ha hr (h.calls hx) (hm hx)
    · exact hl.awake_of_act ha ho (hm hx) (h.awake hx hfailed)
  unfold Tour.after
  cases hmoved : σ.moved? a with
  | none =>
    refine hothers fun _ c r hm => ?_
    rw [hmoved] at hm
    cases hm
  | some y =>
    obtain ⟨u, c, r⟩ := y
    dsimp only
    by_cases hown : x.moving = true ∧ u = t
    · rw [if_pos hown]
      obtain ⟨hx, rfl⟩ := hown
      exact hl.fits_moved h hx ha ho hmoved
    · rw [if_neg hown]
      refine hothers fun hx c' r' hm => hown ⟨hx, ?_⟩
      rw [hmoved] at hm
      cases hm
      rfl

theorem Tours.fits (h₀ : Lawful σ₀) (h : Tours Regular σ₀ t tb σ x) :
    Lawful σ ∧ Fits σ t tb x := by
  induction h with
  | opened hrun => exact ⟨(hrun.lawful (fun _ _ => id) h₀).1, fits_fresh _ t tb⟩
  | @rewound σ x _ _ ih =>
    obtain ⟨hl, hfits⟩ := ih
    rw [← hfits.table]
    exact ⟨hl, fits_fresh σ t _⟩
  | @called σ x _ _ ha ho ih =>
    obtain ⟨hl, hfits⟩ := ih
    refine ⟨(hl.act ha ho).1, hfits.table, hfits.pages, hfits.tuples, fun _ => ?_, fun _ _ => ?_⟩
    · exact Function.update_self ..
    · exact hl.awake ha
  | acted a _ ha ho hr ih =>
    obtain ⟨hl, hfits⟩ := ih
    exact ⟨(hl.act ha ho).1, hl.fits_after hfits ha ho hr⟩

/-- What is said of a cursor at any moment of its tour. -/
structure Complete (σ : Engine) (t : TxnId) (tb : TableId) (x : Tour) : Prop where
  /-- It has loaded the first pages of the table in order, each of them once. -/
  pages : x.loads.map Load.page = (List.range x.cursor.nextPage).map (PageId.mk tb)
  /-- It has given what was in their occupied slots when it loaded them, but for what is still to
  be given. -/
  tuples : (x.given ++ x.cursor.loaded).map some = x.loads.flatMap Load.tuples
  /-- Unless it has failed it comes to an end only when all pages that the file has then have been
  loaded, and all that was loaded has been given. -/
  ends : ∀ {a k}, x.moving = true → σ.Allows a → σ.Regular a → x.cursor.failed = false →
    σ.answered? a = some (t, .next x.cursor, .item k none) →
    k = x.cursor ∧ x.given.map some = x.loads.flatMap Load.tuples ∧
      (∀ n < σ.store.pageCount tb, ⟨tb, n⟩ ∈ x.loads.map Load.page) ∧
      (σ.store.wholeCount tb < 4294967296 →
        ∀ n, n * pageSize < (σ.store.fileOf tb).length → ⟨tb, n⟩ ∈ x.loads.map Load.page)
  /-- A failure is told once. -/
  fails : ∀ {a k e}, x.moving = true → σ.Allows a → σ.Regular a →
    σ.answered? a = some (t, .next x.cursor, .item k (some (.error e))) →
    x.cursor.failed = false ∧ k = { x.cursor with failed := true }
  /-- After a failure there is nothing more, and the cursor stays where it is. -/
  failed : ∀ {a k result}, x.moving = true → σ.Allows a → σ.Regular a → x.cursor.failed = true →
    σ.answered? a = some (t, .next x.cursor, .item k result) → result = none ∧ k = x.cursor
  /-- Until it is rewound, which makes a new cursor of it. -/
  rewinds : x.cursor.rewind = { table := tb }

theorem Fits.mem_loads (h : Fits σ t tb x) {n : Nat} (hn : n < x.cursor.nextPage) :
    ⟨tb, n⟩ ∈ x.loads.map Load.page := by
  rw [h.pages]
  exact List.mem_map_of_mem (List.mem_range.2 hn)

theorem Fits.ends (hl : Lawful σ) (h : Fits σ t tb x) (ha : σ.Allows a) (ho : σ.Regular a)
    (hgoing : x.cursor.failed = false)
    (hans : σ.answered? a = some (t, .next x.cursor, .item k none)) :
    k = x.cursor ∧ x.cursor.loaded = [] ∧ σ.store.pageCount tb ≤ x.cursor.nextPage := by
  rcases (hl.outcome_of_answered ha ho hans).1.of_cursor with
    ⟨_, _, _, hr⟩ | ⟨hend, hr⟩ | ⟨_, hr⟩ | ⟨_, _, hr⟩ | ⟨_, _, hr, _⟩
  · cases hr
  · cases hr
    obtain ⟨hempty, hcount⟩ := hend hgoing
    rw [h.table] at hcount
    exact ⟨rfl, hempty, hcount⟩
  · cases hr
  · cases hr
  · cases hr

theorem Fits.failed (h : Fits σ t tb x) (hmoving : x.moving = true)
    (hfailed : x.cursor.failed = true) (ha : σ.Allows a)
    (hans : σ.answered? a = some (t, .next x.cursor, .item k result)) :
    result = none ∧ k = x.cursor := by
  obtain ⟨s, hm⟩ := moved_of_answered hans
  have hr := h.moved_of_failed hmoving hfailed ha hm
  cases hr
  exact ⟨rfl, rfl⟩

theorem Fits.fails (hl : Lawful σ) (h : Fits σ t tb x) (hmoving : x.moving = true)
    (ha : σ.Allows a) (ho : σ.Regular a) {e : Error}
    (hans : σ.answered? a = some (t, .next x.cursor, .item k (some (.error e)))) :
    x.cursor.failed = false ∧ k = { x.cursor with failed := true } := by
  have hgoing : x.cursor.failed = false := by
    by_contra hfailed
    obtain ⟨hnone, _⟩ := h.failed hmoving (by simpa using hfailed) ha hans
    cases hnone
  rcases (hl.outcome_of_answered ha ho hans).1.of_cursor with
    ⟨_, _, _, hr⟩ | ⟨_, hr⟩ | ⟨_, hr⟩ | ⟨_, _, hr⟩ | ⟨_, _, hr, _⟩
  · cases hr
  · cases hr
  · cases hr
    exact ⟨hgoing, rfl⟩
  · cases hr
  · cases hr

/-- At every moment of its tour a cursor has given what was in the pages that it has loaded, from
the first on, as they were when it loaded them. -/
theorem Tours.cursor_is_complete {config : PoolConfig} {v : Volume} {s₀ : Store}
    (hopen : Store.Opened config v s₀) (h : Tours Regular (idle s₀) t tb σ x) :
    Complete σ t tb x := by
  obtain ⟨hl, hfits⟩ := h.fits (lawful_idle hopen)
  refine ⟨hfits.pages, hfits.tuples, ?_, ?_, ?_, ?_⟩
  · intro a k _ ha ho hgoing hans
    obtain ⟨hk, hempty, hcount⟩ := hfits.ends hl ha ho hgoing hans
    have htuples := hfits.tuples
    rw [hempty, List.append_nil] at htuples
    refine ⟨hk, htuples, fun n hn => hfits.mem_loads (by omega), fun hfits' n hn => ?_⟩
    refine hfits.mem_loads (Nat.lt_of_lt_of_le ?_ hcount)
    rw [Store.pageCount_eq, Nat.mod_eq_of_lt hfits']
    unfold Store.wholeCount ByteFile.wholeCount
    unfold pageSize at hn ⊢
    omega
  · intro a k e hmoving ha ho hans
    exact hfits.fails hl hmoving ha ho hans
  · intro a k result hmoving ha _ hfailed hans
    exact hfits.failed hmoving hfailed ha hans
  · rw [← hfits.table]
    rfl

/-- A cursor is asked for its next tuple. -/
def asked (t : TxnId) (r : Engine × Tour) : Engine × Tour :=
  (r.1.act (.call t (.next r.2.cursor)), { r.2 with moving := true })

/-- A tour after some actions. -/
def touring (t : TxnId) (r : Engine × Tour) (as : List Action) : Engine × Tour :=
  as.foldl (fun r a => (r.1.act a, r.2.after t r.1 a)) r

theorem tours_touring {ok : Engine → Action → Prop} (as : List Action) :
    ∀ r : Engine × Tour, Tours ok σ₀ t tb r.1 r.2 → Follow ok r.1 as → (∀ a ∈ as, a ≠ .restart) →
      Tours ok σ₀ t tb (touring t r as).1 (touring t r as).2 := by
  induction as with
  | nil =>
    intro r h _ _
    exact h
  | cons a rest ih =>
    intro r h hf hr
    exact ih _ (h.acted a hf.1.1 hf.1.2 (hr a List.mem_cons_self)) hf.2
      fun b hb => hr b (List.mem_cons_of_mem a hb)

theorem tours_asked (r : Engine × Tour) (h : Tours Regular σ₀ t tb r.1 r.2)
    (hrest : r.2.moving = false) (hfree : r.1.calls t = none) :
    Tours Regular σ₀ t tb (asked t r).1 (asked t r).2 :=
  h.called hrest hfree ⟨trivial, fun _ htb => by cases htb⟩

/-- Two transactions insert into the empty table at the same time, so that it gets two pages. -/
def twoNotes : List Action :=
  [.call ⟨1⟩ (.insertion ⟨0⟩ (note "a" none)), .step ⟨1⟩, .step ⟨1⟩,
    .call ⟨2⟩ (.insertion ⟨0⟩ (note "b" none)), .step ⟨2⟩, .step ⟨2⟩,
    .step ⟨1⟩, .commit ⟨1⟩, .step ⟨2⟩, .commit ⟨2⟩]

/-- A third one opens a cursor. -/
def opening : Engine × Tour := ((play (idle notes) twoNotes).2, { cursor := { table := ⟨0⟩ } })

/-- The cursor gives the note of the first page, and then its own transaction puts another one
there and commits. -/
def halfway : Engine × Tour :=
  touring ⟨3⟩ (asked ⟨3⟩ opening)
    [.step ⟨3⟩, .step ⟨3⟩, .call ⟨3⟩ (.insertion ⟨0⟩ (note "c" none)), .step ⟨3⟩, .step ⟨3⟩,
      .commit ⟨3⟩]

/-- The cursor gives that of the second page too. -/
def bothGiven : Engine × Tour := touring ⟨3⟩ (asked ⟨3⟩ halfway) [.step ⟨3⟩, .step ⟨3⟩]

/-- It is asked for more. -/
def atEnd : Engine × Tour := asked ⟨3⟩ bothGiven

theorem tours_atEnd : Tours Regular (idle notes) ⟨3⟩ ⟨0⟩ atEnd.1 atEnd.2 := by
  have hopened : Tours Regular (idle notes) ⟨3⟩ ⟨0⟩ opening.1 opening.2 :=
    .opened (run_play (by decide +kernel))
  have hhalfway : Tours Regular (idle notes) ⟨3⟩ ⟨0⟩ halfway.1 halfway.2 :=
    tours_touring _ _ (tours_asked opening hopened rfl (by decide +kernel)) (by decide +kernel)
      (by simp)
  have hboth : Tours Regular (idle notes) ⟨3⟩ ⟨0⟩ bothGiven.1 bothGiven.2 :=
    tours_touring _ _ (tours_asked halfway hhalfway (by decide +kernel) (by decide +kernel))
      (by decide +kernel) (by simp)
  exact tours_asked bothGiven hboth (by decide +kernel) (by decide +kernel)

theorem atEnd_has_given_both :
    (atEnd.1.store.content ⟨⟨0⟩, 0⟩ 1).isSome = true ∧
    atEnd.1.answered? (.step ⟨3⟩) =
      some (⟨3⟩, .next atEnd.2.cursor, .item atEnd.2.cursor none) ∧
    atEnd.2.given.map (·.record) = [some ⟨⟨⟨0⟩, 0⟩, 0⟩, some ⟨⟨⟨0⟩, 1⟩, 0⟩] ∧
    atEnd.2.given.map some = atEnd.2.loads.flatMap Load.tuples ∧
    ⟨⟨0⟩, 0⟩ ∈ atEnd.2.loads.map Load.page ∧ ⟨⟨0⟩, 1⟩ ∈ atEnd.2.loads.map Load.page := by
  obtain ⟨hans, hlater, hgiven, hcount, hmoving, hgoing, hallows⟩ :
      atEnd.1.answered? (.step ⟨3⟩) =
        some (⟨3⟩, .next atEnd.2.cursor, .item atEnd.2.cursor none) ∧
      (atEnd.1.store.content ⟨⟨0⟩, 0⟩ 1).isSome = true ∧
      atEnd.2.given.map (·.record) = [some ⟨⟨⟨0⟩, 0⟩, 0⟩, some ⟨⟨⟨0⟩, 1⟩, 0⟩] ∧
      atEnd.1.store.pageCount ⟨0⟩ = 2 ∧ atEnd.2.moving = true ∧ atEnd.2.cursor.failed = false ∧
      atEnd.1.Allows (.step ⟨3⟩) := by
    decide +kernel
  have hregular : atEnd.1.Regular (.step ⟨3⟩) := ⟨trivial, fun _ htb => by cases htb⟩
  obtain ⟨_, hloads, hpages, _⟩ := (Tours.cursor_is_complete opened_notes tours_atEnd).ends
    hmoving hallows hregular hgoing hans
  rw [hcount] at hpages
  exact ⟨hlater, hans, hgiven, hloads, hpages 0 (by omega), hpages 1 (by omega)⟩

end Engine
end PageStore

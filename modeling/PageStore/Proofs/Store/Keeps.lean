import PageStore.Proofs.Store.View
import PageStore.Store.Call

/-!
# PageStore.Proofs.Store.Keeps

Operations that change nothing of what is shown: writing back, eviction, fetching, and appending an
empty page. They may write dirty pages to their files, and do nothing else that can be seen
(`Keeps`). Which pages they may write is the relation's parameter: an eviction writes only pages
whose dirtier has given up its lock (`Loose`).

There is one lemma for each operation. All but those about success hold however the device fails.
-/

namespace PageStore
namespace Store

variable {s s' s'' : Store} {p q : PageId} {f : FrameId} {fs : List FrameId} {page : Page}
  {t : Table} {tb : TableId} {u : TxnId} {W W' : PageId → Prop}

/-- What every operation but the end of a transaction leaves alone: settings, locks and tables. Files
only grow. -/
structure Steady (s s' : Store) : Prop where
  config : s'.config = s.config
  locks : s'.locks = s.locks
  tables : s'.catalog.fresh = s.catalog.fresh
  tree : s.volume.Extends s'.volume
  grows : ∀ tb, s.wholeCount tb ≤ s'.wholeCount tb
  faultless : s.volume.faults = [] → s'.volume.faults = []

theorem Steady.trans (h : Steady s s') (h' : Steady s' s'') : Steady s s'' where
  config := h'.config.trans h.config
  locks := h'.locks.trans h.locks
  tables := h'.tables.trans h.tables
  tree := h.tree.trans h'.tree
  grows tb := Nat.le_trans (h.grows tb) (h'.grows tb)
  faultless hf := h'.faultless (h.faultless hf)

theorem Alike.steady (h : Alike s s') : Steady s s' where
  config := h.config
  locks := h.locks
  tables := h.tables
  tree := .of_entries h.entries
  grows tb := Nat.le_of_eq (h.wholeCount tb).symm
  faultless := h.faultless

theorem steady_cache (s : Store) (c : Cache) : Steady s { s with cache := c } :=
  ⟨rfl, rfl, rfl, .refl _, fun _ => Nat.le_refl _, id⟩

/-- Every page shows what it showed. Dirty pages among `W` may have been written back, with all
they show; the others are dirty, or not, as they were, and their files store what they stored. -/
structure Keeps (W : PageId → Prop) (s s' : Store) : Prop where
  steady : Steady s s'
  shown : ∀ p, s'.shown p = s.shown p
  page : ∀ p, (s'.dirtier p = s.dirtier p ∧ s'.onDisk p = s.onDisk p) ∨
    (W p ∧ s.dirtier p ≠ none ∧ s'.dirtier p = none ∧ s'.onDisk p = s.shown p)

theorem Alike.keeps (h : Alike s s') : Keeps W s s' :=
  ⟨h.steady, h.shown, fun p => .inl ⟨h.dirtier p, h.onDisk p⟩⟩

theorem Keeps.refl (s : Store) : Keeps W s s := (Alike.refl s).keeps

theorem Keeps.mono (h : Keeps W s s') (hW : ∀ p, W p → W' p) : Keeps W' s s' := by
  refine ⟨h.steady, h.shown, fun p => ?_⟩
  rcases h.page p with hp | ⟨hw, hp⟩
  · exact .inl hp
  · exact .inr ⟨hW p hw, hp⟩

theorem Keeps.trans (h : Keeps W s s') (h' : Keeps W s' s'') : Keeps W s s'' := by
  refine ⟨h.steady.trans h'.steady, fun p => (h'.shown p).trans (h.shown p), fun p => ?_⟩
  rcases h.page p with ⟨hd, ho⟩ | ⟨hw, hd, hd', ho⟩
  · rcases h'.page p with ⟨hd', ho'⟩ | ⟨hw', hd', hd'', ho'⟩
    · exact .inl ⟨hd'.trans hd, ho'.trans ho⟩
    · rw [hd] at hd'
      exact .inr ⟨hw', hd', hd'', ho'.trans (h.shown p)⟩
  · rcases h'.page p with ⟨hd'', ho'⟩ | ⟨_, hne, _⟩
    · exact .inr ⟨hw, hd, hd''.trans hd', ho'.trans ho⟩
    · exact absurd hd' hne

theorem Keeps.dirtier_of_some (h : Keeps W s s') (hd : s'.dirtier p = some u) :
    s.dirtier p = some u := by
  rcases h.page p with ⟨he, _⟩ | ⟨_, _, he, _⟩
  · rw [← he]
    exact hd
  · rw [he] at hd
    cases hd

theorem Keeps.dirtier_of_none (h : Keeps W s s') (hd : s.dirtier p = none) :
    s'.dirtier p = none := by
  rcases h.page p with ⟨he, _⟩ | ⟨_, hne, _⟩
  · rw [he]
    exact hd
  · exact absurd hd hne

/-- A dirty page whose dirtier has given up its lock. -/
def Loose (s : Store) (p : PageId) : Prop :=
  ∃ u, s.dirtier p = some u ∧ s.locks.holds p u = false

theorem Keeps.loose (h : Keeps W s s') (hl : s'.Loose p) : s.Loose p := by
  obtain ⟨u, hd, hh⟩ := hl
  rw [h.steady.locks] at hh
  exact ⟨u, h.dirtier_of_some hd, hh⟩

/-! ## Changes of the cache -/

theorem dirtier_congr {c : Cache} (h : c.page? p = s.cache.page? p) :
    dirtier { s with cache := c } p = s.dirtier p := by
  unfold dirtier
  dsimp only
  rw [h]

theorem shown_congr {c : Cache} (h : c.page? p = s.cache.page? p) :
    shown { s with cache := c } p = s.shown p := by
  unfold shown
  dsimp only
  rw [h]
  rfl

/-- A cache with the same copies of all pages. -/
theorem same_pages (hs : s.Sound) {c : Cache} (hframed : c.Framed)
    (hpage : ∀ p, c.page? p = s.cache.page? p) :
    Sound { s with cache := c } ∧ Keeps W s { s with cache := c } := by
  refine ⟨⟨hs.catalog, hframed, fun p page hp => ?_, fun p hp => ?_⟩, steady_cache s c,
    fun p => shown_congr (hpage p), fun p => .inl ⟨dirtier_congr (hpage p), rfl⟩⟩
  · rw [hpage] at hp
    exact hs.known p page hp
  · rw [dirtier_congr (hpage p)] at hp
    rw [shown_congr (hpage p)]
    exact hs.clean p hp

/-- Counts and the order of use cannot be seen. -/
theorem same_copies (hs : s.Sound) {c : Cache} (hr : c.resident = s.cache.resident)
    (hf : c.frames = s.cache.frames) :
    Sound { s with cache := c } ∧ Keeps W s { s with cache := c } := by
  refine same_pages hs (fun p f h => ?_) fun p => ?_
  · rw [hr] at h
    unfold Cache.frame?
    rw [hf]
    exact hs.framed p f h
  · unfold Cache.page? Cache.copy? Cache.frame?
    rw [hr, hf]

/-- One page has another copy, or none; it shows what it showed. -/
theorem Sound.with_copy (hs : s.Sound) (p : PageId) {c : Cache} (hframed : c.Framed)
    (hother : ∀ q, q ≠ p → c.page? q = s.cache.page? q)
    (hknown : ∀ page, c.page? p = some page → ∃ t, s.catalog.table? p.table = some t ∧
      page.schema = t.schema ∧ p.no < s.wholeCount p.table)
    (hshown : shown { s with cache := c } p = s.shown p)
    (hdirty : dirtier { s with cache := c } p = s.dirtier p) :
    Sound { s with cache := c } ∧ Keeps W s { s with cache := c } := by
  have hshown : ∀ q, shown { s with cache := c } q = s.shown q := by
    intro q
    by_cases hq : q = p
    · rw [hq]
      exact hshown
    · exact shown_congr (hother q hq)
  have hdirty : ∀ q, dirtier { s with cache := c } q = s.dirtier q := by
    intro q
    by_cases hq : q = p
    · rw [hq]
      exact hdirty
    · exact dirtier_congr (hother q hq)
  refine ⟨⟨hs.catalog, hframed, fun q page hq => ?_, fun q hq => ?_⟩, steady_cache s c, hshown,
    fun q => .inl ⟨hdirty q, rfl⟩⟩
  · by_cases hqp : q = p
    · subst hqp
      exact hknown page hq
    · dsimp only at hq
      rw [hother q hqp] at hq
      exact hs.known q page hq
  · rw [hdirty] at hq
    rw [hshown]
    exact hs.clean q hq

theorem Sound.drop (hs : s.Sound) (hd : s.dirtier p = none) :
    Sound { s with cache := s.cache.drop p } ∧ Keeps W s { s with cache := s.cache.drop p } := by
  have hgone : (s.cache.drop p).page? p = none := by rw [Cache.page?_drop, if_pos rfl]
  refine hs.with_copy p (hs.framed.drop p) (fun q hq => ?_) (fun page h => ?_) ?_ ?_
  · rw [Cache.page?_drop, if_neg hq]
  · rw [hgone] at h
    cases h
  · rw [shown_of_not_cached hgone]
    exact (hs.clean p hd).symm
  · rw [dirtier_of_not_cached hgone, hd]

theorem Sound.load (hs : s.Sound) (hid : page.id = p) (hclean : page.dirtier = none)
    (hd : s.dirtier p = none) (hstored : page.stored = s.onDisk p)
    (hknown : ∃ t, s.catalog.table? p.table = some t ∧ page.schema = t.schema ∧
      p.no < s.wholeCount p.table) :
    Sound { s with cache := (s.cache.load page).1.keep p (s.cache.load page).2 } ∧
      Keeps W s { s with cache := (s.cache.load page).1.keep p (s.cache.load page).2 } := by
  subst hid
  obtain ⟨hframed, hpages, _⟩ := hs.framed.load page
  have hthis : ((s.cache.load page).1.keep page.id (s.cache.load page).2).page? page.id =
      some page := by rw [hpages, if_pos rfl]
  refine hs.with_copy page.id hframed (fun q hq => ?_) (fun page' h => ?_) ?_ ?_
  · rw [hpages, if_neg hq]
  · rw [hthis] at h
    cases h
    exact hknown
  · rw [shown_of_cached hthis, hstored]
    exact (hs.clean _ hd).symm
  · rw [dirtier_of_cached hthis, hclean, hd]

/-! ## Writing back -/

theorem page?_of_frame (hr : s.cache.resident[p]? = some f) (hf : s.frame? f = some page) :
    s.cache.page? p = some page := Cache.page?_eq_some.2 ⟨f, hr, hf⟩

/-- A frame is changed: its page shows and stores what the frame holds now. -/
theorem Sound.setFrame (hs : s.Sound) (page' : Page) (hr : s.cache.resident[p]? = some f)
    (hf : s.frame? f = some page) (hid : page'.id = p) (hschema : page'.schema = page.schema)
    (hclean : page'.dirtier = none → page'.stored = s.onDisk p) :
    (s.setFrame f page').Sound ∧ Steady s (s.setFrame f page') ∧
      (∀ q, (s.setFrame f page').shown q = if q = p then page'.stored else s.shown q) ∧
      ∀ q, (s.setFrame f page').dirtier q = if q = p then page'.dirtier else s.dirtier q := by
  obtain ⟨hframed, hpages⟩ := hs.framed.setFrame page' hr hid
  have hshown : ∀ q, (s.setFrame f page').shown q = if q = p then page'.stored else s.shown q := by
    intro q
    by_cases hq : q = p
    · rw [if_pos hq, hq]
      exact shown_of_cached ((hpages p).trans (if_pos rfl))
    · rw [if_neg hq]
      exact shown_congr ((hpages q).trans (if_neg hq))
  have hdirty : ∀ q, (s.setFrame f page').dirtier q =
      if q = p then page'.dirtier else s.dirtier q := by
    intro q
    by_cases hq : q = p
    · rw [if_pos hq, hq]
      exact dirtier_of_cached ((hpages p).trans (if_pos rfl))
    · rw [if_neg hq]
      exact dirtier_congr ((hpages q).trans (if_neg hq))
  refine ⟨⟨hs.catalog, hframed, fun q page'' hq => ?_, fun q hq => ?_⟩, steady_cache s _, hshown,
    hdirty⟩
  · have hq := (hpages q).symm.trans hq
    by_cases hqp : q = p
    · rw [if_pos hqp] at hq
      cases hq
      subst hqp
      obtain ⟨t, ht, hsch, hno⟩ := hs.known q page (page?_of_frame hr hf)
      exact ⟨t, ht, hschema.trans hsch, hno⟩
    · rw [if_neg hqp] at hq
      exact hs.known q page'' hq
  · rw [hdirty] at hq
    rw [hshown]
    by_cases hqp : q = p
    · rw [if_pos hqp] at hq ⊢
      rw [hclean hq, hqp]
      rfl
    · rw [if_neg hqp] at hq ⊢
      exact hs.clean q hq

theorem Sound.wrote (hs : s.Sound) (hp : s.cache.page? p = some page)
    (hdirty : page.dirtier ≠ none) (hw : Wrote s page s') :
    s'.Sound ∧ Steady s s' ∧ (∀ q, s'.shown q = s.shown q) ∧
      ∀ q, s'.onDisk q = if q = p then page.stored else s.onDisk q := by
  have hid : page.id = p := hs.framed.id_eq hp
  subst hid
  obtain ⟨t, ht, hschema, hno⟩ := hs.known _ _ hp
  have hdisk : ∀ q, s'.onDisk q = if q = page.id then page.stored else s.onDisk q := by
    intro q
    have : page.stored = page.image.stored t.schema := by
      unfold Page.stored
      rw [hschema]
    rw [this]
    exact hw.onDisk ht q
  have hcount : ∀ tb, s'.wholeCount tb = s.wholeCount tb := by
    intro tb
    rw [hw.wholeCount tb]
    by_cases htb : tb = page.id.table
    · rw [if_pos htb, htb]
      omega
    · rw [if_neg htb]
  have hshown : ∀ q, s'.shown q = s.shown q := by
    intro q
    unfold shown
    rw [hw.cache, hdisk]
    by_cases hq : q = page.id
    · rw [hq, hp]
    · rw [if_neg hq]
  refine ⟨⟨hs.catalog.congr hw.tables hw.tree, by rw [hw.cache]; exact hs.framed,
    fun q page' hq => ?_, fun q hq => ?_⟩, ⟨hw.config, hw.locks, hw.tables, hw.tree,
    fun tb => Nat.le_of_eq (hcount tb).symm, hw.faultless⟩, hshown, hdisk⟩
  · rw [hw.cache] at hq
    rw [hcount]
    obtain ⟨t, ht, hschema, hno⟩ := hs.known q page' hq
    obtain ⟨t', ht', he⟩ := Catalog.table?_of_fresh hw.tables ht
    exact ⟨t', ht', hschema.trans (Table.schema_of_fresh he).symm, hno⟩
  · have hq : s.dirtier q = none := by
      unfold dirtier at hq ⊢
      rw [← hw.cache]
      exact hq
    have hne : q ≠ page.id := by
      rintro rfl
      rw [dirtier_of_cached hp] at hq
      exact hdirty hq
    rw [hshown, hdisk, if_neg hne]
    exact hs.clean q hq

/-- A cached page that was written to its file is marked clean. -/
theorem Sound.cleaned (hs : s.Sound) (hr : s.cache.resident[p]? = some f)
    (hf : s.frame? f = some page) (hdirty : page.dirtier ≠ none) (hw : Wrote s page s') :
    (s'.setFrame f (page.mark none)).Sound ∧
      Keeps (fun q => q = p) s (s'.setFrame f (page.mark none)) ∧
      (s'.setFrame f (page.mark none)).dirtier p = none := by
  have hp := page?_of_frame hr hf
  have hid := hs.framed.id_eq hp
  obtain ⟨hs', hsteady', hshown', hdisk'⟩ := hs.wrote hp hdirty hw
  have hr' : s'.cache.resident[p]? = some f := by rw [hw.cache]; exact hr
  have hf' : s'.frame? f = some page := by rw [frame?, hw.cache]; exact hf
  have hdirty' : ∀ q, s'.dirtier q = s.dirtier q := by
    intro q
    unfold dirtier
    rw [hw.cache]
  obtain ⟨hs'', hsteady'', hshown'', hdirty''⟩ :=
    hs'.setFrame (page.mark none) hr' hf' hid rfl fun _ => by
      rw [hdisk', if_pos rfl]
      rfl
  refine ⟨hs'', ⟨hsteady'.trans hsteady'', fun q => ?_, fun q => ?_⟩, ?_⟩
  · rw [hshown'']
    by_cases hq : q = p
    · rw [if_pos hq, hq, shown_of_cached hp]
      rfl
    · rw [if_neg hq, hshown']
  · by_cases hq : q = p
    · refine .inr ⟨hq, ?_, ?_, ?_⟩
      · rw [hq, dirtier_of_cached hp]
        exact hdirty
      · rw [hdirty'', if_pos hq]
        rfl
      · refine (hdisk' q).trans ?_
        rw [if_pos hq, hq, shown_of_cached hp]
    · refine .inl ⟨?_, ?_⟩
      · rw [hdirty'', if_neg hq, hdirty']
      · exact (hdisk' q).trans (if_neg hq)
  · rw [hdirty'', if_pos rfl]
    rfl

theorem flushFrame_spec (hs : s.Sound) (hr : s.cache.resident[p]? = some f) :
    (s.flushFrame f).1.Sound ∧ Keeps (fun q => q = p) s (s.flushFrame f).1 ∧
      (s.flushFrame f).1.cache.resident = s.cache.resident ∧
      ((s.flushFrame f).2.isOk = true → (s.flushFrame f).1.dirtier p = none) := by
  obtain ⟨page, hf, hid⟩ := hs.framed p f hr
  have hp := page?_of_frame hr hf
  have hf : s.frame? f = some page := hf
  unfold flushFrame
  rw [hf]
  dsimp only
  by_cases hdirty : page.isDirty = true
  · have hne : page.dirtier ≠ none := by
      intro hn
      rw [Page.isDirty, hn] at hdirty
      cases hdirty
    rw [if_neg (by simp [hdirty])]
    rcases writePage_spec hs page with ⟨e, he, ha⟩ | ⟨hok, hw⟩
    · generalize s.writePage page = r at he ha
      obtain ⟨s', x⟩ := r
      cases he
      exact ⟨hs.alike ha, ha.keeps, congrArg Cache.resident ha.cache, fun h => by cases h⟩
    · generalize s.writePage page = r at hok hw
      obtain ⟨s', x⟩ := r
      cases hok
      obtain ⟨hs', hk, hc⟩ := hs.cleaned hr hf hne hw
      have hres : s'.cache.resident = s.cache.resident := congrArg Cache.resident hw.cache
      exact ⟨hs', hk, hres, fun _ => hc⟩
  · rw [if_pos (by simpa using hdirty)]
    refine ⟨hs, .refl s, rfl, fun _ => ?_⟩
    rw [dirtier_of_cached hp]
    unfold Page.isDirty at hdirty
    simpa using hdirty

theorem flushFrame_ok (hs : s.Sound) (hr : s.cache.resident[p]? = some f)
    (hfault : s.volume.faults = []) : (s.flushFrame f).2.isOk = true := by
  obtain ⟨page, hf, hid⟩ := hs.framed p f hr
  obtain ⟨t, ht, _, _⟩ := hs.known p page (page?_of_frame hr hf)
  have hf : s.frame? f = some page := hf
  subst hid
  have hok := writePage_ok ht hfault
  unfold flushFrame
  rw [hf]
  dsimp only
  by_cases hdirty : page.isDirty = true
  · rw [if_neg (by simp [hdirty])]
    generalize s.writePage page = r at hok
    obtain ⟨s', x⟩ := r
    cases hok
    rfl
  · rw [if_pos (by simpa using hdirty)]
    rfl

theorem flushFrames_spec :
    ∀ {fs : List FrameId} {s : Store}, s.Sound → (∀ f ∈ fs, ∃ p : PageId, s.cache.resident[p]? = some f) →
      (s.flushFrames fs).1.Sound ∧
      Keeps (fun p => ∃ f ∈ fs, s.cache.resident[p]? = some f) s (s.flushFrames fs).1 ∧
      ((s.flushFrames fs).2 = .ok () → ∀ p, ∀ f ∈ fs, s.cache.resident[p]? = some f →
        (s.flushFrames fs).1.dirtier p = none) := by
  intro fs
  induction fs with
  | nil =>
    intro s hs _
    exact ⟨hs, .refl s, fun _ p f hf => absurd hf List.not_mem_nil⟩
  | cons f rest ih =>
    intro s hs hres
    obtain ⟨p, hp⟩ := hres f List.mem_cons_self
    obtain ⟨hs', hk, hsame, hclean⟩ := flushFrame_spec hs hp
    have hk : Keeps (fun q => ∃ g ∈ f :: rest, s.cache.resident[q]? = some g) s
        (s.flushFrame f).1 := by
      refine hk.mono fun q hq => ⟨f, List.mem_cons_self, ?_⟩
      rw [hq]
      exact hp
    unfold flushFrames
    generalize s.flushFrame f = r at hs' hk hsame hclean
    obtain ⟨s', x⟩ := r
    dsimp only at hs' hk hsame hclean
    cases x with
    | error e => exact ⟨hs', hk, fun h => by cases h⟩
    | ok b =>
      rw [andThen_ok]
      obtain ⟨hs'', hk', hclean'⟩ := ih hs' fun g hg => by
        rw [hsame]
        exact hres g (List.mem_cons_of_mem _ hg)
      refine ⟨hs'', hk.trans (hk'.mono ?_), fun hok q g hg hq => ?_⟩
      · rintro q ⟨g, hg, hq⟩
        rw [hsame] at hq
        exact ⟨g, List.mem_cons_of_mem _ hg, hq⟩
      · rcases List.mem_cons.1 hg with rfl | hg
        · have : q = p := hs.framed.eq_of_frame hq hp
          rw [this]
          exact hk'.dirtier_of_none (hclean rfl)
        · rw [← hsame] at hq
          exact hclean' hok q g hg hq

theorem flushFrames_ok :
    ∀ {fs : List FrameId} {s : Store}, s.Sound → (∀ f ∈ fs, ∃ p : PageId, s.cache.resident[p]? = some f) →
      s.volume.faults = [] → (s.flushFrames fs).2 = .ok () := by
  intro fs
  induction fs with
  | nil => exact fun _ _ _ => rfl
  | cons f rest ih =>
    intro s hs hres hfault
    obtain ⟨p, hp⟩ := hres f List.mem_cons_self
    obtain ⟨hs', hk, hsame, _⟩ := flushFrame_spec hs hp
    have hok := flushFrame_ok hs hp hfault
    unfold flushFrames
    generalize s.flushFrame f = r at hs' hk hsame hok
    obtain ⟨s', x⟩ := r
    dsimp only at hs' hk hsame hok
    cases x with
    | error e => cases hok
    | ok b =>
      rw [andThen_ok]
      refine ih hs' (fun g hg => ?_) (hk.steady.faultless hfault)
      rw [hsame]
      exact hres g (List.mem_cons_of_mem _ hg)

/-! ## Eviction and fetching -/

theorem mayLeave_iff :
    s.mayLeave p = true ↔
      (s.cache.page? p).isSome = true ∧ (s.dirtier p = none ∨ s.Loose p) := by
  unfold mayLeave Loose dirtier
  cases s.cache.page? p with
  | none => simp
  | some page =>
    cases hd : page.dirtier with
    | none => simp [hd]
    | some u => simp [hd]

/-- An eviction writes a page only if its dirtier has given up its lock. -/
theorem evict_spec (hs : s.Sound) : s.evict.1.Sound ∧ Keeps s.Loose s s.evict.1 := by
  unfold evict
  cases hv : s.cache.recency.victims.find? s.mayLeave with
  | none => exact ⟨hs, .refl s⟩
  | some p =>
    dsimp only
    have hmay : s.mayLeave p = true := List.find?_some hv
    obtain ⟨hcached, hgo⟩ := mayLeave_iff.1 hmay
    obtain ⟨page, hp⟩ := Option.isSome_iff_exists.1 hcached
    obtain ⟨f, hr, _⟩ := Cache.page?_eq_some.1 hp
    obtain ⟨hs₁, hk, _, hclean⟩ := flushFrame_spec hs hr
    have hk₁ : Keeps s.Loose s (s.flushFrame f).1 := by
      refine ⟨hk.steady, hk.shown, fun q => ?_⟩
      rcases hk.page q with hq | ⟨rfl, hne, hq⟩
      · exact .inl hq
      · exact .inr ⟨hgo.resolve_left hne, hne, hq⟩
    unfold flushPage
    rw [hr]
    dsimp only
    generalize s.flushFrame f = r at hs₁ hk₁ hclean
    obtain ⟨s₁, x⟩ := r
    cases x with
    | error e => exact ⟨hs₁, hk₁⟩
    | ok b =>
      rw [andThen_ok]
      obtain ⟨hs₂, hk₂⟩ := hs₁.drop (W := s.Loose) (hclean rfl)
      obtain ⟨hs₃, hk₃⟩ := same_copies (W := s.Loose) hs₂
        (c := (s₁.cache.drop p).countEviction) rfl rfl
      exact ⟨hs₃, (hk₁.trans hk₂).trans hk₃⟩

theorem makeRoom_spec (hs : s.Sound) : s.makeRoom.1.Sound ∧ Keeps s.Loose s s.makeRoom.1 := by
  unfold makeRoom
  by_cases hfull : s.config.capacity ≤ s.cache.size
  · rw [if_pos hfull]
    exact evict_spec hs
  · rw [if_neg hfull]
    exact ⟨hs, .refl s⟩

/-- A page that is fetched is the cached copy of its page. -/
theorem fetch_spec (hs : s.Sound) :
    (s.fetch p).1.Sound ∧ Keeps s.Loose s (s.fetch p).1 ∧
      ∀ f page, (s.fetch p).2 = .ok (f, page) →
        (s.fetch p).1.cache.resident[p]? = some f ∧ (s.fetch p).1.frame? f = some page := by
  unfold fetch
  cases hc : s.cache.copy? p with
  | some found =>
    obtain ⟨f, page⟩ := found
    obtain ⟨hs', hk⟩ := same_copies (W := s.Loose) hs (c := (s.cache.touch p).countHit) rfl rfl
    refine ⟨hs', hk, fun f' page' h => ?_⟩
    cases h
    exact Cache.copy?_eq_some.1 hc
  | none =>
    have hnone := Cache.copy?_eq_none_iff.1 hc
    obtain ⟨hs₁, hk₁⟩ := same_copies (W := s.Loose) hs (c := s.cache.countMiss) rfl rfl
    obtain ⟨hs₂, hk₂⟩ := makeRoom_spec hs₁
    have hk₂ := hk₁.trans (hk₂.mono fun q hq => hk₁.loose hq)
    have hclean₂ := hk₂.dirtier_of_none (dirtier_of_not_cached hnone)
    dsimp only
    generalize makeRoom { s with cache := s.cache.countMiss } = r at hs₂ hk₂ hclean₂
    obtain ⟨s₂, x⟩ := r
    cases x with
    | error e => exact ⟨hs₂, hk₂, fun f page h => by cases h⟩
    | ok _ =>
      rw [andThen_ok]
      obtain ⟨ha, hread⟩ := readPage_spec s₂ p
      generalize s₂.readPage p = r at ha hread
      obtain ⟨s₃, x⟩ := r
      dsimp only at hs₂ hk₂ hclean₂ ha hread
      have hs₃ := hs₂.alike ha
      have hk₃ : Keeps s.Loose s s₃ := hk₂.trans ha.keeps
      cases x with
      | error e => exact ⟨hs₃, hk₃, fun f page h => by cases h⟩
      | ok page =>
        rw [andThen_ok]
        obtain ⟨hid, hclean, hstored, t, ht, hschema, hno⟩ := hread page rfl
        obtain ⟨t', ht', he⟩ := Catalog.table?_of_fresh ha.tables ht
        have hknown : ∃ t, s₃.catalog.table? p.table = some t ∧ page.schema = t.schema ∧
            p.no < s₃.wholeCount p.table := by
          refine ⟨t', ht', hschema.trans (Table.schema_of_fresh he).symm, ?_⟩
          rw [ha.wholeCount]
          exact hno
        have hclean₃ : s₃.dirtier p = none := (ha.dirtier p).trans hclean₂
        obtain ⟨hs₄, hk₄⟩ := hs₃.load (W := s.Loose) hid hclean hclean₃
          (hstored.trans (ha.onDisk p).symm) hknown
        refine ⟨hs₄, hk₃.trans hk₄, fun f page' h => ?_⟩
        cases h
        refine ⟨by simp [Cache.keep], ?_⟩
        subst hid
        exact (hs₃.framed.load page).2.2

theorem fetch_shows (hs : s.Sound) (h : (s.fetch p).2 = .ok (f, page)) :
    page.stored = s.shown p := by
  obtain ⟨_, hk, hcopy⟩ := fetch_spec (p := p) hs
  obtain ⟨hr, hf⟩ := hcopy f page h
  rw [← hk.shown, shown_of_cached (page?_of_frame hr hf)]

/-! ## Appending a page -/

theorem page_past_end {b : ByteFile} {n : Nat} (h : b.wholeCount ≤ n) : b.page n = Image.blank := by
  refine Image.ext_get fun k _ => ?_
  rw [Image.get_blank]
  refine b.clean n k ?_
  unfold ByteFile.wholeCount pageSize at h
  unfold pageSize
  omega

theorem pageCount_eq (s : Store) (tb : TableId) :
    s.pageCount tb = s.wholeCount tb % 4294967296 := by
  unfold pageCount wholeCount fileOf
  cases s.catalog.table? tb with
  | none => simp [ByteFile.wholeCount, ByteFile.empty, pageSize]
  | some t => rfl

theorem appendPage_of_uncounted {e : Error} (h : s.countPages t.id = .error e) :
    s.appendPage t = (s, .error e) := by
  unfold appendPage
  rw [h]
  rfl

/-- A page is appended by writing an empty one where the page count says. -/
theorem appendPage_eq {count : Nat} (hc : s.catalog.Sound s.volume)
    (ht : s.catalog.table? tb = some t) (hcount : s.countPages t.id = .ok count) :
    ∃ page : Page, page.id = ⟨tb, s.pageCount tb⟩ ∧ page.image = Image.blank ∧
      s.appendPage t = andThen (s.writePage page) fun s _ => (s, .ok page.id) := by
  have hid : t.id = tb := hc.ids _ _ ht
  subst hid
  unfold appendPage Page.empty Page.ofImage
  rw [hcount, countPages_eq_ok hcount, andThen_ok]
  dsimp only
  rw [dif_pos (hc.roomy _ _ ht)]
  exact ⟨_, rfl, rfl, rfl⟩

/-- An append fails and changes no file, or writes a blank page where the page count says. -/
theorem appendPage_cases (hc : s.catalog.Sound s.volume) (ht : s.catalog.table? tb = some t) :
    (∃ e, (s.appendPage t).2 = .error e ∧ Alike s (s.appendPage t).1) ∨
      ∃ page : Page, page.id = ⟨tb, s.pageCount tb⟩ ∧ page.image = Image.blank ∧
        (s.appendPage t).2 = .ok page.id ∧ Wrote s page (s.appendPage t).1 := by
  cases hcount : s.countPages t.id with
  | error e =>
    rw [appendPage_of_uncounted hcount]
    exact .inl ⟨e, rfl, .refl s⟩
  | ok count =>
    obtain ⟨page, hid, himage, happend⟩ := appendPage_eq hc ht hcount
    rw [happend]
    rcases writePage_cases hc page with ⟨e, he, ha⟩ | ⟨hok, hw⟩
    · generalize s.writePage page = r at he ha
      obtain ⟨s', x⟩ := r
      cases he
      exact .inl ⟨e, rfl, ha⟩
    · generalize s.writePage page = r at hok hw
      obtain ⟨s', x⟩ := r
      cases hok
      exact .inr ⟨page, hid, himage, rfl, hw⟩

theorem pageCount_of_fits (hfits : s.wholeCount tb < 4294967296) :
    s.pageCount tb = s.wholeCount tb := by
  rw [pageCount_eq, Nat.mod_eq_of_lt hfits]

/-- A new page is empty, and nothing of what can be seen changes. -/
theorem appendPage_spec (hs : s.Sound) (ht : s.catalog.table? tb = some t)
    (hfits : s.wholeCount tb < 4294967296) :
    (s.appendPage t).1.Sound ∧ Keeps W s (s.appendPage t).1 := by
  rcases appendPage_cases hs.catalog ht with ⟨e, he, ha⟩ | ⟨page, hpid, himage, _, hw⟩
  · exact ⟨hs.alike ha, ha.keeps⟩
  · rw [pageCount_of_fits hfits] at hpid
    generalize (s.appendPage t).1 = s' at hw ⊢
    have htp : s.catalog.table? page.id.table = some t := by rw [hpid]; exact ht
    have hdisk : ∀ p, s'.onDisk p = s.onDisk p := by
      intro p
      rw [hw.onDisk htp]
      by_cases hp : p = page.id
      · rw [if_pos hp, himage, hp, onDisk_eq htp, page_past_end]
        rw [hpid]
        exact Nat.le_refl _
      · rw [if_neg hp]
    have hgrows : ∀ tb, s.wholeCount tb ≤ s'.wholeCount tb := by
      intro tb
      rw [hw.wholeCount]
      split
      · exact Nat.le_max_left _ _
      · exact Nat.le_refl _
    have hshown : ∀ p, s'.shown p = s.shown p := by
      intro p
      unfold shown
      rw [hw.cache, hdisk]
    have hdirty : ∀ p, s'.dirtier p = s.dirtier p := by
      intro p
      unfold dirtier
      rw [hw.cache]
    refine ⟨⟨hs.catalog.congr hw.tables hw.tree, by rw [hw.cache]; exact hs.framed,
      fun p page' hp => ?_, fun p hp => ?_⟩, ⟨hw.config, hw.locks, hw.tables, hw.tree, hgrows,
      hw.faultless⟩, hshown, fun p => .inl ⟨hdirty p, hdisk p⟩⟩
    · rw [hw.cache] at hp
      obtain ⟨t', ht', hschema, hno⟩ := hs.known p page' hp
      obtain ⟨t'', ht'', he⟩ := Catalog.table?_of_fresh hw.tables ht'
      exact ⟨t'', ht'', hschema.trans (Table.schema_of_fresh he).symm,
        Nat.lt_of_lt_of_le hno (hgrows _)⟩
    · rw [hdirty] at hp
      rw [hshown, hdisk]
      exact hs.clean p hp

end Store
end PageStore

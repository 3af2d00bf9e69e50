import PageStore.Proofs.Store.Keeps
import PageStore.Store.Transaction

/-!
# PageStore.Proofs.Store.Change

Operations that change what is shown: a slot is filled or emptied in the cached copy of a page
(`Edits`), and an abort gives pages back what their files store (`Reverts`). Neither touches a
file. `commit_spec` and `abort_spec` say how a transaction ends.
-/

namespace PageStore
namespace Store

variable {s s' : Store} {p : PageId} {f : FrameId} {fs : List FrameId} {page : Page} {t u : TxnId}
  {P : PageId → Prop} {slot : Nat} {x : Option (List UInt8)}

/-- One slot was changed in the cached copy of its page, which is dirtied by `t` now. -/
structure Edits (t : TxnId) (r : RecordId) (x : Option (List UInt8)) (s s' : Store) : Prop where
  steady : Steady s s'
  onDisk : ∀ p, s'.onDisk p = s.onDisk p
  shown : ∀ p, s'.shown p =
    if p = r.page then Function.update (s.shown p) r.slot x else s.shown p
  dirtier : ∀ p, s'.dirtier p = if p = r.page then some t else s.dirtier p

theorem setFrame_setFrame (s : Store) (f : FrameId) (a b : Page) :
    (s.setFrame f a).setFrame f b = s.setFrame f b := by
  unfold setFrame Cache.setFrame
  simp

theorem frame?_setFrame (hf : s.frame? f = some page) (a : Page) :
    (s.setFrame f a).frame? f = some a :=
  (Cache.frame?_setFrame hf a).trans (if_pos rfl)

theorem markDirty_of_resident (hr : s.cache.resident[page.id]? = some f)
    (hf : s.frame? f = some page) (t : TxnId) :
    s.markDirty t f =
      ({ s.setFrame f (page.mark (some t)) with
          cache := (s.setFrame f (page.mark (some t))).cache.touch page.id }, .ok ()) := by
  have hr' : (s.setFrame f (page.mark (some t))).cache.resident[page.id]? = some f := hr
  have hid : (page.mark (some t)).id = page.id := rfl
  unfold markDirty
  rw [hf]
  dsimp only
  rw [hr']
  dsimp only
  rw [if_pos rfl]

/-- A slot of a cached page is changed, and the page gets a mark. -/
theorem Sound.marked (hs : s.Sound) (page' : Page) (hr : s.cache.resident[p]? = some f)
    (hf : s.frame? f = some page) (hid : page'.id = p) (hschema : page'.schema = page.schema)
    (hstored : page'.stored = Function.update page.stored slot x) :
    (s.setFrame f (page'.mark (some t))).Sound ∧
      Edits t ⟨p, slot⟩ x s (s.setFrame f (page'.mark (some t))) := by
  obtain ⟨hs', hsteady, hshown, hdirty⟩ :=
    hs.setFrame (page'.mark (some t)) hr hf hid hschema fun h => by cases h
  refine ⟨hs', hsteady, fun q => rfl, fun q => ?_, hdirty⟩
  rw [hshown]
  by_cases hq : q = p
  · rw [if_pos hq, if_pos hq, hq, shown_of_cached (page?_of_frame hr hf)]
    exact hstored
  · rw [if_neg hq, if_neg hq]

/-- A slot of a cached page is changed and the page is marked: the mark never fails. -/
theorem Sound.edit (hs : s.Sound) (page' : Page) (hr : s.cache.resident[p]? = some f)
    (hf : s.frame? f = some page) (hid : page'.id = p) (hschema : page'.schema = page.schema)
    (hstored : page'.stored = Function.update page.stored slot x) :
    ((s.setFrame f page').markDirty t f).2 = .ok () ∧
      ((s.setFrame f page').markDirty t f).1.Sound ∧
      Edits t ⟨p, slot⟩ x s ((s.setFrame f page').markDirty t f).1 := by
  have hr' : (s.setFrame f page').cache.resident[page'.id]? = some f := by
    rw [hid]
    exact hr
  rw [markDirty_of_resident hr' (frame?_setFrame hf page') t, setFrame_setFrame]
  obtain ⟨hs', he⟩ := hs.marked (t := t) page' hr hf hid hschema hstored
  obtain ⟨hs'', hk⟩ := same_copies (W := fun _ => False) hs'
    (c := (s.setFrame f (page'.mark (some t))).cache.touch page'.id) rfl rfl
  refine ⟨rfl, hs'', he.steady.trans hk.steady, fun q => rfl, fun q => ?_, fun q => ?_⟩
  · rw [hk.shown]
    exact he.shown q
  · rw [← he.dirtier]
    exact ((hk.page q).resolve_right fun h => h.1).1

/-- The bytes of a cached page are changed, but nothing of what it stores. -/
theorem Sound.scribble (hs : s.Sound) {W : PageId → Prop} (page' : Page)
    (hr : s.cache.resident[p]? = some f) (hf : s.frame? f = some page) (hid : page'.id = p)
    (hschema : page'.schema = page.schema) (hstored : page'.stored = page.stored)
    (hmark : page'.dirtier = page.dirtier) :
    (s.setFrame f page').Sound ∧ Keeps W s (s.setFrame f page') := by
  have hp := page?_of_frame hr hf
  obtain ⟨hs', hsteady, hshown, hdirty⟩ := hs.setFrame page' hr hf hid hschema fun h => by
    rw [hstored, ← shown_of_cached hp]
    refine hs.clean p ?_
    rw [dirtier_of_cached hp, ← hmark]
    exact h
  refine ⟨hs', hsteady, fun q => ?_, fun q => .inl ⟨?_, rfl⟩⟩
  · rw [hshown]
    by_cases hq : q = p
    · rw [if_pos hq, hstored, hq, shown_of_cached hp]
    · rw [if_neg hq]
  · rw [hdirty]
    by_cases hq : q = p
    · rw [if_pos hq, hmark, hq, dirtier_of_cached hp]
    · rw [if_neg hq]

/-! ## Reading anew -/

/-- Some pages of `P` are shown again as their files have them, and clean. -/
structure Reverts (P : PageId → Prop) (s s' : Store) : Prop where
  steady : Steady s s'
  onDisk : ∀ p, s'.onDisk p = s.onDisk p
  page : ∀ p, (s'.dirtier p = s.dirtier p ∧ s'.shown p = s.shown p) ∨
    (P p ∧ s'.dirtier p = none ∧ s'.shown p = s.onDisk p)

theorem Alike.reverts (h : Alike s s') : Reverts P s s' :=
  ⟨h.steady, h.onDisk, fun p => .inl ⟨h.dirtier p, h.shown p⟩⟩

theorem Reverts.mono {P' : PageId → Prop} (h : Reverts P s s') (hP : ∀ p, P p → P' p) :
    Reverts P' s s' := by
  refine ⟨h.steady, h.onDisk, fun p => ?_⟩
  rcases h.page p with hp | ⟨hw, hp⟩
  · exact .inl hp
  · exact .inr ⟨hP p hw, hp⟩

theorem Reverts.trans {s'' : Store} (h : Reverts P s s') (h' : Reverts P s' s'') :
    Reverts P s s'' := by
  refine ⟨h.steady.trans h'.steady, fun p => (h'.onDisk p).trans (h.onDisk p), fun p => ?_⟩
  rcases h'.page p with ⟨hd', hsh'⟩ | ⟨hP, hd', hsh'⟩
  · rcases h.page p with ⟨hd, hsh⟩ | ⟨hP, hd, hsh⟩
    · exact .inl ⟨hd'.trans hd, hsh'.trans hsh⟩
    · exact .inr ⟨hP, hd'.trans hd, hsh'.trans hsh⟩
  · exact .inr ⟨hP, hd', hsh'.trans (h.onDisk p)⟩

theorem Sound.reread (hs : s.Sound) (fresh : Page) (hr : s.cache.resident[p]? = some f)
    (hf : s.frame? f = some page) (hok : (s.readPage p).2 = .ok fresh) :
    ((s.readPage p).1.setFrame f fresh).Sound ∧
      Reverts (fun q => q = p) s ((s.readPage p).1.setFrame f fresh) ∧
      ((s.readPage p).1.setFrame f fresh).dirtier p = none ∧
      ((s.readPage p).1.setFrame f fresh).shown p = s.onDisk p ∧
      ((s.readPage p).1.setFrame f fresh).cache.resident = s.cache.resident := by
  obtain ⟨ha, hread⟩ := readPage_spec s p
  obtain ⟨hid, hclean, hstored, t, ht, hschema, _⟩ := hread fresh hok
  generalize (s.readPage p).1 = s₁ at ha
  obtain ⟨t', ht', hschema', _⟩ := hs.known p page (page?_of_frame hr hf)
  rw [ht] at ht'
  cases ht'
  have hr₁ : s₁.cache.resident[p]? = some f := by rw [ha.cache]; exact hr
  have hf₁ : s₁.frame? f = some page := by rw [frame?, ha.cache]; exact hf
  have hdisk : fresh.stored = s₁.onDisk p := hstored.trans (ha.onDisk p).symm
  obtain ⟨hs₂, hsteady, hshown, hdirty⟩ := (hs.alike ha).setFrame fresh hr₁ hf₁ hid
    (hschema.trans hschema'.symm) fun _ => hdisk
  have hd : (s₁.setFrame f fresh).dirtier p = none := by rw [hdirty, if_pos rfl, hclean]
  have hsh : (s₁.setFrame f fresh).shown p = s.onDisk p := by rw [hshown, if_pos rfl, hstored]
  refine ⟨hs₂, ⟨ha.steady.trans hsteady, ha.onDisk, fun q => ?_⟩, hd, hsh, ?_⟩
  · by_cases hq : q = p
    · subst hq
      exact .inr ⟨rfl, hd, hsh⟩
    · refine .inl ⟨?_, ?_⟩
      · rw [hdirty, if_neg hq, ha.dirtier]
      · rw [hshown, if_neg hq, ha.shown]
  · change s₁.cache.resident = _
    rw [ha.cache]

/-- Reading some cached pages anew. If it succeeds they show what their files store. -/
theorem reloadFrames_spec :
    ∀ {fs : List FrameId} {s : Store}, s.Sound →
      (∀ f ∈ fs, ∃ p : PageId, s.cache.resident[p]? = some f) →
      (s.reloadFrames fs).1.Sound ∧
      Reverts (fun p => ∃ f ∈ fs, s.cache.resident[p]? = some f) s (s.reloadFrames fs).1 ∧
      ((s.reloadFrames fs).2 = .ok () → ∀ p, ∀ f ∈ fs, s.cache.resident[p]? = some f →
        (s.reloadFrames fs).1.dirtier p = none ∧ (s.reloadFrames fs).1.shown p = s.onDisk p) := by
  intro fs
  induction fs with
  | nil =>
    intro s hs _
    exact ⟨hs, (Alike.refl s).reverts, fun _ p f hf => absurd hf List.not_mem_nil⟩
  | cons f rest ih =>
    intro s hs hres
    obtain ⟨p, hp⟩ := hres f List.mem_cons_self
    obtain ⟨page, hf, hid⟩ := hs.framed p f hp
    have hf : s.frame? f = some page := hf
    have ha := (readPage_spec s p).1
    have hreread := fun fresh => hs.reread fresh hp hf
    unfold reloadFrames
    rw [hf]
    dsimp only
    rw [hid]
    generalize s.readPage p = r at ha hreread
    obtain ⟨s₁, y⟩ := r
    dsimp only at ha hreread
    cases y with
    | error e => exact ⟨hs.alike ha, ha.reverts, fun h => by cases h⟩
    | ok fresh =>
      rw [andThen_ok]
      obtain ⟨hs₂, hrev₂, hd₂, hsh₂, hsame⟩ := hreread fresh rfl
      obtain ⟨hs₃, hrev₃, hdone⟩ := ih hs₂ fun g hg => by
        rw [hsame]
        exact hres g (List.mem_cons_of_mem _ hg)
      have hfirst : Reverts (fun q => ∃ g ∈ f :: rest, s.cache.resident[q]? = some g) s
          (s₁.setFrame f fresh) := by
        refine hrev₂.mono fun q hq => ⟨f, List.mem_cons_self, ?_⟩
        rw [hq]
        exact hp
      have hsecond : Reverts (fun q => ∃ g ∈ f :: rest, s.cache.resident[q]? = some g)
          (s₁.setFrame f fresh) ((s₁.setFrame f fresh).reloadFrames rest).1 := by
        refine hrev₃.mono ?_
        rintro q ⟨g, hg, hq⟩
        rw [hsame] at hq
        exact ⟨g, List.mem_cons_of_mem _ hg, hq⟩
      refine ⟨hs₃, hfirst.trans hsecond, fun hok q g hg hq => ?_⟩
      rcases List.mem_cons.1 hg with rfl | hg
      · have hqp : q = p := hs.framed.eq_of_frame hq hp
        subst hqp
        rcases hrev₃.page q with ⟨hd, hsh⟩ | ⟨_, hd, hsh⟩
        · exact ⟨hd.trans hd₂, hsh.trans hsh₂⟩
        · exact ⟨hd, hsh.trans (hrev₂.onDisk q)⟩
      · rw [← hsame] at hq
        obtain ⟨hd, hsh⟩ := hdone hok q g hg hq
        exact ⟨hd, hsh.trans (hrev₂.onDisk q)⟩

theorem reloadFrames_ok :
    ∀ {fs : List FrameId} {s : Store}, s.Sound →
      (∀ f ∈ fs, ∃ p : PageId, s.cache.resident[p]? = some f) → s.volume.faults = [] →
      (s.reloadFrames fs).2 = .ok () := by
  intro fs
  induction fs with
  | nil => exact fun _ _ _ => rfl
  | cons f rest ih =>
    intro s hs hres hfault
    obtain ⟨p, hp⟩ := hres f List.mem_cons_self
    obtain ⟨page, hf, hid⟩ := hs.framed p f hp
    have hf : s.frame? f = some page := hf
    obtain ⟨t, ht, _, hno⟩ := hs.known p page (page?_of_frame hp hf)
    obtain ⟨fresh, hfresh⟩ := readPage_ok hs ht hno hfault
    obtain ⟨hs₂, hrev, _, _, hsame⟩ := hs.reread fresh hp hf hfresh
    unfold reloadFrames
    rw [hf]
    dsimp only
    rw [hid]
    generalize s.readPage p = r at hfresh hs₂ hrev hsame
    obtain ⟨s₁, y⟩ := r
    cases hfresh
    dsimp only at hs₂ hrev hsame
    rw [andThen_ok]
    refine ih hs₂ (fun g hg => ?_) (hrev.steady.faultless hfault)
    rw [hsame]
    exact hres g (List.mem_cons_of_mem _ hg)

/-! ## The end of a transaction -/

theorem resident_of_framesWhere (test : Page → Bool) :
    ∀ f ∈ s.framesWhere test, ∃ p : PageId, s.cache.resident[p]? = some f := by
  intro f hf
  obtain ⟨p, _, hp, _⟩ := Cache.mem_framesWhere.1 (mem_framesWhere.1 hf)
  exact ⟨p, hp⟩

theorem exists_framesWhere (hs : s.Sound) {test : Page → Bool} :
    (∃ f ∈ s.framesWhere test, s.cache.resident[p]? = some f) ↔
      ∃ page, s.cache.page? p = some page ∧ test page = true := by
  constructor
  · rintro ⟨f, hf, hp⟩
    obtain ⟨q, page, hq, hpage, ht⟩ := Cache.mem_framesWhere.1 (mem_framesWhere.1 hf)
    have : q = p := hs.framed.eq_of_frame hq hp
    subst this
    exact ⟨page, page?_of_frame hp hpage, ht⟩
  · rintro ⟨page, hpage, ht⟩
    obtain ⟨f, hp, hf⟩ := Cache.page?_eq_some.1 hpage
    exact ⟨f, mem_framesWhere.2 (Cache.mem_framesWhere.2 ⟨p, page, hp, hf, ht⟩), hp⟩

theorem exists_dirty (hs : s.Sound) :
    (∃ f ∈ s.framesWhere (·.isDirty), s.cache.resident[p]? = some f) ↔
      s.dirtier p ≠ none := by
  rw [exists_framesWhere hs]
  unfold dirtier
  cases s.cache.page? p with
  | none => simp
  | some page => simp [Page.isDirty, Option.isSome_iff_ne_none]

theorem exists_dirtied (hs : s.Sound) :
    (∃ f ∈ s.framesWhere (·.dirtier = some t), s.cache.resident[p]? = some f) ↔
      s.dirtier p = some t := by
  rw [exists_framesWhere hs]
  unfold dirtier
  cases s.cache.page? p <;> simp

/-- The pages that a commit writes. -/
def Writes (s : Store) (t : TxnId) (p : PageId) : Prop :=
  match s.config.commitFlush with
  | .allDirty => s.dirtier p ≠ none
  | .transaction => s.dirtier p = some t

theorem writes_of_dirtied (h : s.dirtier p = some t) : s.Writes t p := by
  unfold Writes
  cases s.config.commitFlush with
  | allDirty => simp [h]
  | transaction => exact h

/-- What a commit writes back before it gives up its locks. -/
def flushed (s : Store) (t : TxnId) : Result Unit :=
  match s.config.commitFlush with
  | .allDirty => s.flushAll
  | .transaction => s.flushOf t

theorem flushed_spec (hs : s.Sound) :
    (s.flushed t).1.Sound ∧ Keeps (s.Writes t) s (s.flushed t).1 ∧
      ((s.flushed t).2 = .ok () → ∀ p, s.Writes t p → (s.flushed t).1.dirtier p = none) := by
  unfold flushed Writes
  cases s.config.commitFlush with
  | allDirty =>
    obtain ⟨hs', hk, hdone⟩ := flushFrames_spec hs (resident_of_framesWhere (·.isDirty))
    refine ⟨hs', hk.mono fun p => (exists_dirty hs).1, fun hok p hp => ?_⟩
    obtain ⟨f, hf, hr⟩ := (exists_dirty hs).2 hp
    exact hdone hok p f hf hr
  | transaction =>
    obtain ⟨hs', hk, hdone⟩ :=
      flushFrames_spec hs (resident_of_framesWhere (·.dirtier = some t))
    refine ⟨hs', hk.mono fun p => (exists_dirtied hs).1, fun hok p hp => ?_⟩
    obtain ⟨f, hf, hr⟩ := (exists_dirtied hs).2 hp
    exact hdone hok p f hf hr

theorem flushed_ok (hs : s.Sound) (hfault : s.volume.faults = []) : (s.flushed t).2 = .ok () := by
  unfold flushed
  cases s.config.commitFlush with
  | allDirty => exact flushFrames_ok hs (resident_of_framesWhere _) hfault
  | transaction => exact flushFrames_ok hs (resident_of_framesWhere _) hfault

theorem commit_cases (s : Store) (t : TxnId) :
    (∃ e, (s.flushed t).2 = .error e ∧ s.commit t = ((s.flushed t).1, .error e)) ∨
      ((s.flushed t).2 = .ok () ∧ s.commit t = ((s.flushed t).1.releaseAll t, .ok ())) := by
  change (∃ e, _ ∧ andThen (s.flushed t) _ = _) ∨ (_ ∧ andThen (s.flushed t) _ = _)
  rcases s.flushed t with ⟨s', x⟩
  cases x with
  | error e => exact .inl ⟨e, rfl, rfl⟩
  | ok u => exact .inr ⟨rfl, rfl⟩

theorem restore_spec (hs : s.Sound) :
    (s.restore t).1.Sound ∧ Reverts (fun p => s.dirtier p = some t) s (s.restore t).1 ∧
      ((s.restore t).2 = .ok () → ∀ p, s.dirtier p = some t →
        (s.restore t).1.dirtier p = none ∧ (s.restore t).1.shown p = s.onDisk p) := by
  obtain ⟨hs', hrev, hdone⟩ :=
    reloadFrames_spec hs (resident_of_framesWhere (·.dirtier = some t))
  refine ⟨hs', hrev.mono fun p => (exists_dirtied hs).1, fun hok p hp => ?_⟩
  obtain ⟨f, hf, hr⟩ := (exists_dirtied hs).2 hp
  exact hdone hok p f hf hr

theorem restore_ok (hs : s.Sound) (hfault : s.volume.faults = []) : (s.restore t).2 = .ok () :=
  reloadFrames_ok hs (resident_of_framesWhere _) hfault

theorem abort_cases (s : Store) (t : TxnId) :
    (∃ e, (s.restore t).2 = .error e ∧ s.abort t = ((s.restore t).1, .error e)) ∨
      ((s.restore t).2 = .ok () ∧ s.abort t = ((s.restore t).1.releaseAll t, .ok ())) := by
  unfold abort
  rcases s.restore t with ⟨s', x⟩
  cases x with
  | error e => exact .inl ⟨e, rfl, rfl⟩
  | ok u => exact .inr ⟨rfl, rfl⟩

end Store
end PageStore

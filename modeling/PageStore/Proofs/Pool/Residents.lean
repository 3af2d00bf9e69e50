import PageStore.Proofs.Pool.Copies

/-!
# PageStore.Proofs.Pool.Residents

Which pages are in the cache, and in which order they were used. In a `Tracked` cache the recency
order is about the resident pages and no others, so an eviction chooses among them. A page becomes
resident and leaves together with its stamp, and a frame keeps its page through all changes to what
the page holds (`Retains`).
-/

namespace PageStore
namespace Cache

variable {c c' c'' : Cache} {p : PageId} {f g : FrameId} {page : Page}

/-- Every frame still is a frame of the page that it was read for. -/
def Retains (c c' : Cache) : Prop :=
  ∀ g page, c.frame? g = some page → ∃ page', c'.frame? g = some page' ∧ page'.id = page.id

theorem Retains.refl (c : Cache) : Retains c c := fun _ page h => ⟨page, h, rfl⟩

theorem Retains.trans (h : Retains c c') (h' : Retains c' c'') : Retains c c'' := by
  intro g page hg
  obtain ⟨page', hg', hid⟩ := h g page hg
  obtain ⟨page'', hg'', hid'⟩ := h' g page' hg'
  exact ⟨page'', hg'', hid'.trans hid⟩

theorem setFrame_none (h : c.frame? f = none) (page : Page) : c.setFrame f page = c := by
  unfold setFrame
  rw [Array.setIfInBounds_eq_of_size_le (Array.getElem?_eq_none_iff.1 h)]

theorem retains_setFrame (hid : ∀ old, c.frame? f = some old → page.id = old.id) :
    Retains c (c.setFrame f page) := by
  cases hf : c.frame? f with
  | none =>
    rw [setFrame_none hf]
    exact .refl c
  | some old =>
    intro g page' hg
    rw [frame?_setFrame hf]
    by_cases hgf : g = f
    · subst hgf
      rw [hf] at hg
      cases hg
      rw [if_pos rfl]
      exact ⟨page, rfl, hid old hf⟩
    · rw [if_neg hgf]
      exact ⟨page', hg, rfl⟩

theorem retains_load (c : Cache) (page : Page) : Retains c (c.load page).1 := by
  intro g page' hg
  refine ⟨page', ?_, rfl⟩
  unfold frame? load at *
  obtain ⟨hlt, _⟩ := Array.getElem?_eq_some_iff.1 hg
  rw [Array.getElem?_push, if_neg (Nat.ne_of_lt hlt)]
  exact hg

theorem frame?_load (c : Cache) (page : Page) :
    (c.load page).1.frame? (c.load page).2 = some page := by
  unfold frame? load
  simp

theorem Framed.retains (h : c.Framed) (hr : c'.resident = c.resident) (hf : Retains c c') :
    c'.Framed := by
  intro p f hp
  rw [hr] at hp
  obtain ⟨page, hpage, hid⟩ := h p f hp
  obtain ⟨page', hpage', hid'⟩ := hf f page hpage
  exact ⟨page', hpage', hid'.trans hid⟩

/-- The recency order is about the resident pages, and each of them has a frame that holds it. -/
structure Tracked (c : Cache) : Prop where
  framed : c.Framed
  paired : c.recency.Paired
  contains : ∀ p, c.recency.contains p = c.contains p

theorem tracked_empty : Tracked {} := ⟨framed_empty, Recency.paired_empty, fun _ => rfl⟩

/-- Just the resident pages are listed for eviction. -/
theorem Tracked.mem_victims (h : c.Tracked) : p ∈ c.recency.victims ↔ c.contains p = true := by
  rw [h.paired.mem_victims, h.contains]

theorem Tracked.retains (h : c.Tracked) (hr : c'.resident = c.resident)
    (hrec : c'.recency = c.recency) (hf : Retains c c') : c'.Tracked := by
  refine ⟨h.framed.retains hr hf, by rw [hrec]; exact h.paired, fun p => ?_⟩
  unfold Cache.contains
  rw [hrec, hr]
  exact h.contains p

theorem contains_iff_exists : c.contains p = true ↔ ∃ f, c.resident[p]? = some f := by
  rw [Cache.contains, Std.TreeMap.contains_eq_isSome_getElem?, Option.isSome_iff_exists]

theorem contains_of_resident (h : c.resident[p]? = some f) : c.contains p = true :=
  contains_iff_exists.2 ⟨f, h⟩

theorem copy?_of_not_contains (h : c.contains p = false) : c.copy? p = none := by
  unfold copy?
  rw [Std.TreeMap.getElem?_eq_none_of_contains_eq_false h]
  rfl

theorem Tracked.size_eq (h : c.Tracked) : c.size = c.recency.victims.length := by
  have hperm : c.recency.victims.Perm c.resident.keys := by
    rw [List.perm_ext_iff_of_nodup h.paired.nodup_victims Std.TreeMap.nodup_keys]
    intro p
    rw [h.mem_victims, Std.TreeMap.mem_keys]
    rfl
  rw [hperm.length_eq, Std.TreeMap.length_keys]
  rfl

theorem contains_keep (c : Cache) (p q : PageId) (f : FrameId) :
    (c.keep p f).contains q = if q = p then true else c.contains q := by
  unfold keep contains
  dsimp only
  rw [Std.TreeMap.contains_insert]
  by_cases hq : q = p
  · simp [hq]
  · have hq' : p ≠ q := fun e => hq e.symm
    simp [hq, hq']

theorem contains_drop (c : Cache) (p q : PageId) :
    (c.drop p).contains q = if q = p then false else c.contains q := by
  unfold drop contains
  dsimp only
  rw [Std.TreeMap.contains_erase]
  by_cases hq : q = p
  · simp [hq]
  · have hq' : p ≠ q := fun e => hq e.symm
    simp [hq, hq']

theorem Tracked.touch (h : c.Tracked) (hp : c.contains p = true) : (c.touch p).Tracked := by
  refine ⟨h.framed, h.paired.touch p, fun q => ?_⟩
  refine (Recency.contains_touch c.recency p q).trans ?_
  by_cases hq : q = p
  · rw [if_pos hq, hq]
    exact hp.symm
  · rw [if_neg hq]
    exact h.contains q

/-- A frame may become the copy of the page that it holds. -/
theorem Tracked.keep (h : c.Tracked) (hf : c.frame? f = some page) :
    (c.keep page.id f).Tracked := by
  refine ⟨fun q g hg => ?_, h.paired.touch page.id, fun q => ?_⟩
  · unfold Cache.keep at hg
    dsimp only at hg
    rw [Std.TreeMap.getElem?_insert] at hg
    by_cases hq : page.id = q
    · simp only [hq, Std.ReflCmp.compare_self, if_true, Option.some.injEq] at hg
      subst hg
      exact ⟨page, hf, hq⟩
    · rw [if_neg (by simpa using hq)] at hg
      exact h.framed q g hg
  · rw [contains_keep]
    refine (Recency.contains_touch c.recency page.id q).trans ?_
    by_cases hq : q = page.id
    · rw [if_pos hq, if_pos hq]
    · rw [if_neg hq, if_neg hq]
      exact h.contains q

theorem Tracked.drop (h : c.Tracked) (p : PageId) : (c.drop p).Tracked := by
  refine ⟨h.framed.drop p, h.paired.remove p, fun q => ?_⟩
  rw [contains_drop]
  refine (Recency.contains_remove c.recency p q).trans ?_
  by_cases hq : q = p
  · rw [if_pos hq, if_pos hq]
  · rw [if_neg hq, if_neg hq]
    exact h.contains q

/-! ## How many pages are in the cache -/

theorem size_keep_of_contains (hp : c.contains p = true) (f : FrameId) :
    (c.keep p f).size = c.size := by
  unfold contains at hp
  unfold size keep
  dsimp only
  rw [Std.TreeMap.size_insert, if_pos hp]

theorem size_keep_le (c : Cache) (p : PageId) (f : FrameId) : (c.keep p f).size ≤ c.size + 1 := by
  unfold size keep
  dsimp only
  rw [Std.TreeMap.size_insert]
  split
  · exact Nat.le_succ _
  · exact Nat.le_refl _

theorem size_drop_le (c : Cache) (p : PageId) : (c.drop p).size ≤ c.size :=
  Std.TreeMap.size_erase_le

theorem size_drop_lt (hp : c.contains p = true) : (c.drop p).size < c.size := by
  unfold contains at hp
  have hpos : c.resident.size ≠ 0 := by
    intro hzero
    have := Std.TreeMap.isEmpty_eq_false_of_contains hp
    rw [Std.TreeMap.isEmpty_eq_size_eq_zero, hzero] at this
    cases this
  unfold size drop
  dsimp only
  rw [Std.TreeMap.size_erase, if_pos hp]
  omega

end Cache
end PageStore

import PageStore.Pool.Cache
import PageStore.Proofs.Pool.Recency

/-!
# PageStore.Proofs.Pool.Copies

The cache as a map from pages to their copies. In a `Framed` cache every resident page has a frame
that holds this very page, so two resident pages never share a frame. The operations of the cache
change one page's copy at most.
-/

namespace PageStore
namespace Cache

variable {c : Cache} {p q : PageId} {f g : FrameId} {page : Page}

/-- Every resident page has a frame that holds it. -/
def Framed (c : Cache) : Prop :=
  ∀ p f, c.resident[p]? = some f → ∃ page, c.frame? f = some page ∧ page.id = p

theorem framed_empty : Framed {} := by
  intro p f h
  simp at h

theorem copy?_eq_some :
    c.copy? p = some (f, page) ↔ c.resident[p]? = some f ∧ c.frame? f = some page := by
  unfold copy?
  rw [Option.bind_eq_some_iff]
  constructor
  · rintro ⟨g, hg, hmap⟩
    obtain ⟨page', hp, he⟩ := Option.map_eq_some_iff.1 hmap
    cases he
    exact ⟨hg, hp⟩
  · rintro ⟨hf, hp⟩
    exact ⟨f, hf, by rw [hp]; rfl⟩

theorem page?_eq_some :
    c.page? p = some page ↔ ∃ f, c.resident[p]? = some f ∧ c.frame? f = some page := by
  unfold page?
  rw [Option.map_eq_some_iff]
  constructor
  · rintro ⟨⟨f, page'⟩, hc, rfl⟩
    exact ⟨f, copy?_eq_some.1 hc⟩
  · rintro ⟨f, hf, hp⟩
    exact ⟨(f, page), copy?_eq_some.2 ⟨hf, hp⟩, rfl⟩

theorem Framed.id_eq (h : c.Framed) (hp : c.page? p = some page) : page.id = p := by
  obtain ⟨f, hf, hp⟩ := page?_eq_some.1 hp
  obtain ⟨page', hp', hid⟩ := h p f hf
  rw [hp] at hp'
  cases hp'
  exact hid

theorem copy?_eq_none_iff : c.copy? p = none ↔ c.page? p = none := by
  unfold page?
  exact Option.map_eq_none_iff.symm

/-- Two resident pages never share a frame. -/
theorem Framed.eq_of_frame (h : c.Framed) (hp : c.resident[p]? = some f)
    (hq : c.resident[q]? = some f) : p = q := by
  obtain ⟨page, hf, rfl⟩ := h p f hp
  obtain ⟨page', hf', rfl⟩ := h q f hq
  rw [hf] at hf'
  cases hf'
  rfl

theorem frame?_setFrame (hf : c.frame? f = some page) (page' : Page) :
    (c.setFrame f page').frame? g = if g = f then some page' else c.frame? g := by
  unfold frame? setFrame at *
  dsimp only
  obtain ⟨hlt, _⟩ := Array.getElem?_eq_some_iff.1 hf
  rw [Array.getElem?_setIfInBounds]
  by_cases hg : g = f
  · subst hg
    simp [hlt]
  · have hg' : f ≠ g := fun e => hg e.symm
    simp [hg, hg']

theorem Framed.setFrame (h : c.Framed) (page' : Page) (hr : c.resident[p]? = some f)
    (hid : page'.id = p) :
    (c.setFrame f page').Framed ∧
      ∀ q, (c.setFrame f page').page? q = if q = p then some page' else c.page? q := by
  obtain ⟨page, hf, _⟩ := h p f hr
  have hframe := fun g => frame?_setFrame (g := g) hf page'
  refine ⟨fun q g hg => ?_, fun q => ?_⟩
  · rw [hframe]
    by_cases hgf : g = f
    · subst hgf
      rw [if_pos rfl]
      exact ⟨page', rfl, hid.trans (h.eq_of_frame hr hg)⟩
    · rw [if_neg hgf]
      exact h q g hg
  · by_cases hq : q = p
    · subst hq
      rw [if_pos rfl]
      exact page?_eq_some.2 ⟨f, hr, by rw [hframe, if_pos rfl]⟩
    · rw [if_neg hq]
      have hres : (c.setFrame f page').resident[q]? = c.resident[q]? := rfl
      unfold page? copy?
      rw [hres]
      cases hg : c.resident[q]? with
      | none => rfl
      | some g =>
        have hgf : g ≠ f := by
          rintro rfl
          exact hq (h.eq_of_frame hg hr)
        simp [hframe, hgf]

/-- A frame that is no page's copy may hold anything. -/
theorem Framed.setFrame_apart (h : c.Framed) (hf : c.frame? f = some page)
    (hout : ∀ q : PageId, c.resident[q]? ≠ some f) (page' : Page) :
    (c.setFrame f page').Framed ∧ ∀ q, (c.setFrame f page').page? q = c.page? q := by
  have hframe : ∀ {q : PageId} {g : FrameId}, c.resident[q]? = some g →
      (c.setFrame f page').frame? g = c.frame? g := by
    intro q g hg
    rw [frame?_setFrame hf, if_neg]
    rintro rfl
    exact hout q hg
  refine ⟨fun q g hg => ?_, fun q => ?_⟩
  · rw [hframe hg]
    exact h q g hg
  · have hres : (c.setFrame f page').resident[q]? = c.resident[q]? := rfl
    unfold page? copy?
    rw [hres]
    cases hg : c.resident[q]? with
    | none => rfl
    | some g => simp [hframe hg]

theorem resident_drop (c : Cache) (p q : PageId) :
    (c.drop p).resident[q]? = if q = p then none else c.resident[q]? := by
  unfold drop
  dsimp only
  rw [Std.TreeMap.getElem?_erase]
  by_cases hq : q = p
  · simp [hq]
  · have hq' : p ≠ q := fun e => hq e.symm
    simp [hq, hq']

theorem Framed.drop (h : c.Framed) (p : PageId) : (c.drop p).Framed := by
  intro q f hf
  rw [resident_drop] at hf
  by_cases hq : q = p
  · rw [if_pos hq] at hf
    cases hf
  · rw [if_neg hq] at hf
    exact h q f hf

theorem page?_drop (c : Cache) (p q : PageId) :
    (c.drop p).page? q = if q = p then none else c.page? q := by
  have hframe : ∀ g, (c.drop p).frame? g = c.frame? g := fun _ => rfl
  unfold page? copy?
  rw [resident_drop]
  by_cases hq : q = p
  · simp [hq]
  · simp [hq, hframe]

theorem Framed.load (h : c.Framed) (page : Page) :
    ((c.load page).1.keep page.id (c.load page).2).Framed ∧
      (∀ q, ((c.load page).1.keep page.id (c.load page).2).page? q =
        if q = page.id then some page else c.page? q) ∧
      ((c.load page).1.keep page.id (c.load page).2).frame? (c.load page).2 = some page := by
  have hres : ∀ q, ((c.load page).1.keep page.id (c.load page).2).resident[q]? =
      if q = page.id then some (c.load page).2 else c.resident[q]? := by
    intro q
    unfold keep Cache.load
    dsimp only
    rw [Std.TreeMap.getElem?_insert]
    by_cases hq : q = page.id
    · simp [hq]
    · have hq' : page.id ≠ q := fun e => hq e.symm
      simp [hq, hq']
  have hframe : ∀ g, ((c.load page).1.keep page.id (c.load page).2).frame? g =
      if g = (c.load page).2 then some page else c.frame? g := by
    intro g
    unfold frame? keep Cache.load
    dsimp only
    rw [Array.getElem?_push]
  have hold : ∀ {q : PageId} {g : FrameId}, c.resident[q]? = some g → g ≠ (c.load page).2 := by
    rintro q g hg rfl
    obtain ⟨page', hp, _⟩ := h q _ hg
    unfold frame? Cache.load at hp
    simp at hp
  refine ⟨fun q g hg => ?_, fun q => ?_, by rw [hframe, if_pos rfl]⟩
  · rw [hres] at hg
    rw [hframe]
    by_cases hq : q = page.id
    · rw [if_pos hq] at hg
      cases hg
      rw [if_pos rfl]
      exact ⟨page, rfl, hq.symm⟩
    · rw [if_neg hq] at hg
      rw [if_neg (hold hg)]
      exact h q g hg
  · unfold page? copy?
    rw [hres]
    by_cases hq : q = page.id
    · simp [hq, hframe]
    · rw [if_neg hq, if_neg hq]
      cases hg : c.resident[q]? with
      | none => rfl
      | some g => simp [hframe, hold hg]

theorem mem_framesWhere {test : Page → Bool} :
    f ∈ c.framesWhere test ↔
      ∃ (p : PageId) (page : Page),
        c.resident[p]? = some f ∧ c.frame? f = some page ∧ test page = true := by
  unfold framesWhere
  rw [List.mem_filter, mem_values, Option.any_eq_true]
  constructor
  · rintro ⟨⟨p, hp⟩, page, hf, ht⟩
    exact ⟨p, page, hp, hf, ht⟩
  · rintro ⟨p, page, hp, hf, ht⟩
    exact ⟨⟨p, hp⟩, page, hf, ht⟩

end Cache
end PageStore

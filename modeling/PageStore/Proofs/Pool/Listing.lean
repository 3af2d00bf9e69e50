import Mathlib.Data.List.Induction
import PageStore.Proofs.Pool.Recent

/-!
# PageStore.Proofs.Pool.Listing

The recency order as a list. A use moves its page to the end of the list, and a page that is
forgotten is taken out of it (`RecencyStep.onList`). The two maps of a recency order with their
stamps are that list in another form: one step keeps them so (`Mirrors.act`), hence every run does
(`mirrors_after`), and whatever is asked of the order is answered from the list.

`refines_list` puts this together with what the list is by the history of the steps alone: its pages
are those that were used and have not been forgotten since (`lastStep?`), in the order of their last
uses.
-/

namespace PageStore

/-- What is done to a recency order. -/
inductive RecencyStep where
  | touch (p : PageId)
  | forget (p : PageId)
  deriving DecidableEq

namespace RecencyStep

/-- The page that a step is about. -/
def page : RecencyStep → PageId
  | touch p => p
  | forget p => p

/-- The page, if the step is a use. -/
def used? : RecencyStep → Option PageId
  | touch p => some p
  | forget _ => none

/-- The order after a step, and the answer if the step gives one. -/
def act (r : Recency) : RecencyStep → Recency × Option Bool
  | touch p => (r.touch p, none)
  | forget p => ((r.forget p).1, some (r.forget p).2)

/-- The same on a list of pages. -/
def onList (ps : List PageId) : RecencyStep → List PageId × Option Bool
  | touch p => (ps.erase p ++ [p], none)
  | forget p => (ps.erase p, some (decide (p ∈ ps)))

end RecencyStep

/-- The pages that were used, in the order of the uses. -/
def usesOf (steps : List RecencyStep) : List PageId := steps.filterMap (·.used?)

/-- The last of the steps that are about a page. -/
def lastStep? (steps : List RecencyStep) (p : PageId) : Option RecencyStep :=
  (steps.filter (·.page = p)).getLast?

/-- The list after some steps, from the empty one. -/
def listed (steps : List RecencyStep) : List PageId := steps.foldl (fun ps s => (s.onList ps).1) []

section History

variable {steps : List RecencyStep} {s : RecencyStep} {p : PageId}

theorem listed_concat (steps : List RecencyStep) (s : RecencyStep) :
    listed (steps ++ [s]) = (s.onList (listed steps)).1 := List.foldl_concat _ _ _ _

theorem usesOf_touch (steps : List RecencyStep) (p : PageId) :
    usesOf (steps ++ [.touch p]) = usesOf steps ++ [p] := List.filterMap_append

theorem usesOf_forget (steps : List RecencyStep) (p : PageId) :
    usesOf (steps ++ [.forget p]) = usesOf steps := by
  unfold usesOf
  rw [List.filterMap_append]
  exact List.append_nil _

theorem lastStep?_concat (steps : List RecencyStep) (s : RecencyStep) (p : PageId) :
    lastStep? (steps ++ [s]) p = if s.page = p then some s else lastStep? steps p := by
  unfold lastStep?
  rw [List.filter_append]
  by_cases hp : s.page = p <;> simp [hp]

theorem nodup_listed (steps : List RecencyStep) : (listed steps).Nodup := by
  induction steps using List.reverseRecOn with
  | nil => exact List.nodup_nil
  | append_singleton steps s ih =>
    rw [listed_concat]
    cases s with
    | touch p =>
      refine List.nodup_append.2 ⟨ih.erase p, List.nodup_singleton p, ?_⟩
      intro q hq q' hq'
      rw [List.mem_singleton.1 hq']
      exact (ih.mem_erase_iff.1 hq).1
    | forget p => exact ih.erase p

/-- The pages that were used and have not been forgotten since. -/
theorem mem_listed (steps : List RecencyStep) (p : PageId) :
    p ∈ listed steps ↔ lastStep? steps p = some (.touch p) := by
  induction steps using List.reverseRecOn with
  | nil => simp [listed, lastStep?]
  | append_singleton steps s ih =>
    have hnodup := nodup_listed steps
    rw [listed_concat, lastStep?_concat]
    cases s with
    | touch q =>
      show p ∈ (listed steps).erase q ++ [q] ↔ (if q = p then _ else _) = _
      rw [List.mem_append, List.mem_singleton, hnodup.mem_erase_iff, ih]
      by_cases hp : q = p
      · simp [hp]
      · simp [hp, Ne.symm hp]
    | forget q =>
      show p ∈ (listed steps).erase q ↔ (if q = p then _ else _) = _
      rw [hnodup.mem_erase_iff, ih]
      by_cases hp : q = p
      · simp [hp]
      · simp [hp, Ne.symm hp]

end History

namespace Recency

variable {r : Recency} {ps : List PageId} {p : PageId}

/-- The order after some steps, from the empty one. -/
def after (steps : List RecencyStep) : Recency := steps.foldl (fun r s => (s.act r).1) {}

theorem after_concat (steps : List RecencyStep) (s : RecencyStep) :
    after (steps ++ [s]) = (s.act (after steps)).1 := List.foldl_concat _ _ _ _

/-- The order in its two maps, with its stamps, is that of a list. -/
structure Mirrors (r : Recency) (ps : List PageId) : Prop where
  paired : r.Paired
  victims : r.victims = ps

theorem mirrors_empty : Mirrors {} [] := ⟨paired_empty, rfl⟩

theorem Mirrors.contains (h : r.Mirrors ps) (p : PageId) : r.contains p = decide (p ∈ ps) := by
  rw [Bool.eq_iff_iff, ← h.paired.mem_victims, h.victims, decide_eq_true_iff]

theorem Mirrors.size (h : r.Mirrors ps) : r.size = ps.length := by
  have hperm : r.victims.Perm r.stamps.keys := by
    rw [List.perm_ext_iff_of_nodup h.paired.nodup_victims Std.TreeMap.nodup_keys]
    intro p
    rw [h.paired.mem_victims, Std.TreeMap.mem_keys]
    rfl
  rw [← h.victims, hperm.length_eq, Std.TreeMap.length_keys]
  rfl

theorem Mirrors.isEmpty (h : r.Mirrors ps) : r.isEmpty = ps.isEmpty := by
  have hsize : r.stamps.size = ps.length := h.size
  unfold Recency.isEmpty
  rw [Std.TreeMap.isEmpty_eq_size_eq_zero, hsize, Bool.eq_iff_iff, beq_iff_eq, List.isEmpty_iff,
    List.length_eq_zero_iff]

/-- Every step is answered from the list, and leaves the order of the list that it leaves. -/
theorem Mirrors.act (h : r.Mirrors ps) (s : RecencyStep) :
    (s.act r).1.Mirrors (s.onList ps).1 ∧ (s.act r).2 = (s.onList ps).2 := by
  cases s with
  | touch p =>
    refine ⟨⟨h.paired.touch p, ?_⟩, rfl⟩
    show (r.touch p).victims = ps.erase p ++ [p]
    rw [h.paired.victims_touch, h.victims]
  | forget p =>
    refine ⟨⟨h.paired.remove p, ?_⟩, ?_⟩
    · show (r.remove p).victims = ps.erase p
      rw [h.paired.victims_remove, h.victims]
    · show some r.stamps[p]?.isSome = some (decide (p ∈ ps))
      rw [← h.contains, contains_eq]

theorem mirrors_after (steps : List RecencyStep) : (after steps).Mirrors (listed steps) := by
  induction steps using List.reverseRecOn with
  | nil => exact mirrors_empty
  | append_singleton steps s ih =>
    rw [after_concat, listed_concat]
    exact (ih.act s).1

/-- The clock counts the uses. -/
theorem clock_after (steps : List RecencyStep) : (after steps).clock = (usesOf steps).length := by
  induction steps using List.reverseRecOn with
  | nil => rfl
  | append_singleton steps s ih =>
    rw [after_concat]
    cases s with
    | touch p =>
      rw [usesOf_touch, List.length_append, ← ih]
      rfl
    | forget p =>
      rw [usesOf_forget, ← ih]
      exact clock_remove _ _

theorem recalls_after (steps : List RecencyStep) : (after steps).Recalls (usesOf steps) := by
  induction steps using List.reverseRecOn with
  | nil => exact recalls_empty _
  | append_singleton steps s ih =>
    rw [after_concat]
    cases s with
    | touch p =>
      rw [usesOf_touch]
      exact ih.touch (mirrors_after steps).paired p
    | forget p =>
      rw [usesOf_forget]
      exact ih.remove p

/-- After any steps the order gives the list that moves a used page to the end and takes a forgotten
one out: just the pages used and not forgotten since, each once, in the order of their last uses.
What is asked next is answered from the list. The two maps are inverse to each other, every stamp is
below the clock, and the clock is the number of uses, so it fits in 64 bits if there were fewer than
`2 ^ 64` of them. -/
theorem refines_list (steps : List RecencyStep) :
    (after steps).victims = listed steps ∧
    ((listed steps).Nodup ∧ (listed steps).Pairwise (UsedSince (usesOf steps)) ∧
      ∀ p, p ∈ listed steps ↔ lastStep? steps p = some (.touch p)) ∧
    (∀ p, (after steps).contains p = decide (p ∈ listed steps)) ∧
    (after steps).size = (listed steps).length ∧
    (after steps).isEmpty = (listed steps).isEmpty ∧
    (∀ s : RecencyStep, (s.act (after steps)).2 = (s.onList (listed steps)).2) ∧
    (∀ (p : PageId) (n : Nat),
      (after steps).stamps[p]? = some n ↔ (after steps).order[n]? = some p) ∧
    (∀ (p : PageId) (n : Nat), (after steps).stamps[p]? = some n → n < (after steps).clock) ∧
    (after steps).clock = (usesOf steps).length := by
  have h := mirrors_after steps
  have hsorted : (listed steps).Pairwise (UsedSince (usesOf steps)) := by
    rw [← h.victims]
    refine h.paired.victims_sorted.imp ?_
    rintro p q ⟨m, n, hm, hn, hlt⟩
    exact recalls_after steps p q m n hm hn hlt
  exact ⟨h.victims, ⟨nodup_listed steps, hsorted, mem_listed steps⟩, h.contains, h.size, h.isEmpty,
    fun s => (h.act s).2, h.paired.iff, h.paired.past, clock_after steps⟩

end Recency
end PageStore

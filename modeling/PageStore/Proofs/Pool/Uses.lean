import PageStore.Proofs.Pool.Recency

/-!
# PageStore.Proofs.Pool.Uses

The recency order against the history of uses. An order `Recalls` a history if a page with an older
stamp was last used before a page with a newer one. A use and a removal keep it so. The first page
of the victims that passes a test is then, of all pages that pass, the one whose last use lies
farthest back (`Paired.find?_oldest`, `Recalls.of_find?`).
-/

namespace PageStore

/-- Page `q` was used after the last use of `p`. -/
def UsedSince (uses : List PageId) (p q : PageId) : Prop :=
  ∃ earlier later, uses = earlier ++ later ∧ p ∉ later ∧ q ∈ later

theorem usedSince_last {uses : List PageId} {p q : PageId} (h : p ≠ q) :
    UsedSince (uses ++ [q]) p q :=
  ⟨uses, [q], rfl, by simpa using h, List.mem_singleton_self q⟩

theorem UsedSince.concat {uses : List PageId} {p q r : PageId} (h : UsedSince uses p q)
    (hr : p ≠ r) : UsedSince (uses ++ [r]) p q := by
  obtain ⟨earlier, later, rfl, hp, hq⟩ := h
  refine ⟨earlier, later ++ [r], List.append_assoc _ _ _, ?_, List.mem_append_left _ hq⟩
  rw [List.mem_append, List.mem_singleton]
  rintro (hin | rfl)
  · exact hp hin
  · exact hr rfl

namespace Recency

variable {r r' : Recency} {p q v : PageId} {uses : List PageId}

/-- An older stamp is the trace of an older use. -/
def Recalls (r : Recency) (uses : List PageId) : Prop :=
  ∀ (p q : PageId) (m n : Nat),
    r.stamps[p]? = some m → r.stamps[q]? = some n → m < n → UsedSince uses p q

theorem recalls_empty (uses : List PageId) : Recalls {} uses := by
  intro p q m n hp
  simp at hp

theorem Recalls.touch (h : r.Recalls uses) (hr : r.Paired) (p : PageId) :
    (r.touch p).Recalls (uses ++ [p]) := by
  intro a b m n ha hb hlt
  rw [stamps_touch] at ha hb
  have hpa : a ≠ p := by
    rintro rfl
    rw [if_pos rfl] at ha
    cases ha
    by_cases hba : b = a
    · rw [if_pos hba] at hb
      cases hb
      exact Nat.lt_irrefl _ hlt
    · rw [if_neg hba] at hb
      exact absurd (hr.past b n hb) (Nat.lt_asymm hlt)
  rw [if_neg hpa] at ha
  by_cases hbp : b = p
  · rw [hbp]
    exact usedSince_last hpa
  · rw [if_neg hbp] at hb
    exact (h a b m n ha hb hlt).concat hpa

theorem Recalls.remove (h : r.Recalls uses) (p : PageId) : (r.remove p).Recalls uses := by
  intro a b m n ha hb
  rw [stamps_remove] at ha hb
  by_cases hap : a = p
  · rw [if_pos hap] at ha
    cases ha
  · by_cases hbp : b = p
    · rw [if_pos hbp] at hb
      cases hb
    · rw [if_neg hap] at ha
      rw [if_neg hbp] at hb
      exact h a b m n ha hb

/-- The victims are listed in the order of their stamps. -/
theorem Paired.victims_sorted (h : r.Paired) :
    r.victims.Pairwise fun p q => ∃ m n : Nat,
      r.stamps[p]? = some m ∧ r.stamps[q]? = some n ∧ m < n := by
  unfold victims
  rw [values_eq, List.pairwise_map]
  refine (Std.TreeMap.ordered_keys_toList (t := r.order)).imp_of_mem ?_
  rintro ⟨m, p⟩ ⟨n, q⟩ hp hq hlt
  refine ⟨m, n, ?_, ?_, Nat.compare_eq_lt.1 hlt⟩
  · exact (h.iff p m).2 (Std.TreeMap.mem_toList_iff_getElem?_eq_some.1 hp)
  · exact (h.iff q n).2 (Std.TreeMap.mem_toList_iff_getElem?_eq_some.1 hq)

/-- The first victim that passes a test has the oldest stamp of all that pass. -/
theorem Paired.find?_oldest (h : r.Paired) {test : PageId → Bool}
    (hv : r.victims.find? test = some v) (hq : q ∈ r.victims) (htest : test q = true)
    (hne : q ≠ v) :
    ∃ m n : Nat, r.stamps[v]? = some m ∧ r.stamps[q]? = some n ∧ m < n := by
  obtain ⟨-, before, after, hsplit, hbefore⟩ := List.find?_eq_some_iff_append.1 hv
  have hsorted := h.victims_sorted
  rw [hsplit] at hq hsorted
  rcases List.mem_append.1 hq with hin | hin
  · have hfails := hbefore q hin
    rw [htest] at hfails
    cases hfails
  · rcases List.mem_cons.1 hin with rfl | hin
    · exact absurd rfl hne
    · exact (List.pairwise_cons.1 (List.pairwise_append.1 hsorted).2.1).1 q hin

theorem Recalls.of_find? (h : r.Recalls uses) (hr : r.Paired) {test : PageId → Bool}
    (hv : r.victims.find? test = some v) (hq : q ∈ r.victims) (htest : test q = true)
    (hne : q ≠ v) : UsedSince uses v q := by
  obtain ⟨m, n, hm, hn, hlt⟩ := hr.find?_oldest hv hq htest hne
  exact h v q m n hm hn hlt

/-- The order is as it was, or one page has been taken out of it. -/
def Trimmed (r r' : Recency) : Prop := r' = r ∨ ∃ p, r' = r.remove p

theorem Trimmed.paired (ht : Trimmed r r') (h : r.Paired) : r'.Paired := by
  rcases ht with rfl | ⟨p, rfl⟩
  · exact h
  · exact h.remove p

theorem Trimmed.recalls (ht : Trimmed r r') (h : r.Recalls uses) : r'.Recalls uses := by
  rcases ht with rfl | ⟨p, rfl⟩
  · exact h
  · exact h.remove p

end Recency
end PageStore

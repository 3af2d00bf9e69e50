import Mathlib.Data.List.Dedup
import Mathlib.Data.List.DropRight
import PageStore.Proofs.Pool.Uses

/-!
# PageStore.Proofs.Pool.Recent

The pages used last, as a list. `recent n uses` has the last `n` of the distinct pages of a history,
in the order of their last uses; what is left out of it was used before (`recent_since`). One use
more either moves its page to the end, or puts it there, and lets the first one go if there are `n`
already.

The victims of a recency order change in the same way: a use moves its page to the end
(`Paired.victims_touch`), and a removal takes one out (`Paired.victims_remove`).
-/

namespace PageStore

variable {uses : List PageId} {p q : PageId} {n : Nat}

/-- The last `n` of the distinct pages, in the order of their last uses. -/
def recent (n : Nat) (uses : List PageId) : List PageId := uses.dedup.rtake n

theorem length_recent (n : Nat) (uses : List PageId) :
    (recent n uses).length = min n uses.dedup.length := by
  unfold recent List.rtake
  rw [List.length_drop]
  omega

/-- There are `n` of them unless nothing is left out. -/
theorem dedup_eq_append (n : Nat) (uses : List PageId) :
    ∃ before, uses.dedup = before ++ recent n uses ∧
      ((recent n uses).length = n ∨ before = [] ∧ (recent n uses).length < n) := by
  refine ⟨uses.dedup.take (uses.dedup.length - n), (List.take_append_drop _ _).symm, ?_⟩
  rw [length_recent]
  by_cases hlen : n ≤ uses.dedup.length
  · exact .inl (Nat.min_eq_left hlen)
  · right
    rw [Nat.sub_eq_zero_of_le (by omega), List.take_zero]
    exact ⟨rfl, by omega⟩

theorem mem_of_recent (h : p ∈ recent n uses) : p ∈ uses :=
  List.mem_dedup.1 (List.mem_of_mem_drop h)

/-- One use more moves its page to the end. -/
theorem dedup_concat (uses : List PageId) (p : PageId) :
    (uses ++ [p]).dedup = uses.dedup.erase p ++ [p] := by
  induction uses with
  | nil => rfl
  | cons q rest ih =>
    rw [List.cons_append]
    by_cases hq : q ∈ rest
    · rw [List.dedup_cons_of_mem hq, List.dedup_cons_of_mem (List.mem_append_left _ hq), ih]
    · by_cases hqp : q = p
      · subst hqp
        have hout : q ∉ rest.dedup := by
          rwa [List.mem_dedup]
        rw [List.dedup_cons_of_mem (by simp), ih, List.dedup_cons_of_notMem hq,
          List.erase_cons_head, List.erase_of_not_mem hout]
      · have hnew : q ∉ rest ++ [p] := by
          simp [hq, hqp]
        rw [List.dedup_cons_of_notMem hnew, ih, List.dedup_cons_of_notMem hq,
          List.erase_cons_tail (by simpa using hqp), List.cons_append]

/-- The distinct pages are listed in the order of their last uses. -/
theorem dedup_sorted (uses : List PageId) : uses.dedup.Pairwise (UsedSince uses) := by
  induction uses using List.reverseRecOn with
  | nil => simp
  | append_singleton uses r ih =>
    have hother : ∀ p ∈ uses.dedup.erase r, p ≠ r := by
      rintro p hp rfl
      exact List.Nodup.not_mem_erase (List.nodup_dedup uses) hp
    rw [dedup_concat, List.pairwise_append]
    refine ⟨?_, List.pairwise_singleton _ _, ?_⟩
    · refine (ih.sublist List.erase_sublist).imp_of_mem ?_
      intro p q hp _ hsince
      exact hsince.concat (hother p hp)
    · intro p hp q hq
      rw [List.mem_singleton] at hq
      subst hq
      exact usedSince_last (hother p hp)

/-- What is not among the pages used last was used before all of them. -/
theorem recent_since (hp : p ∈ recent n uses) (hq : q ∈ uses) (hout : q ∉ recent n uses) :
    UsedSince uses q p := by
  have hsorted := dedup_sorted uses
  obtain ⟨before, hsplit, -⟩ := dedup_eq_append n uses
  rw [← List.mem_dedup] at hq
  rw [hsplit] at hq hsorted
  refine (List.pairwise_append.1 hsorted).2.2 q ?_ p hp
  exact (List.mem_append.1 hq).resolve_right hout

theorem rtake_append_self {α : Type} (a : List α) {b : List α} {k : Nat} (h : b.length = k) :
    (a ++ b).rtake k = b := by
  unfold List.rtake
  rw [List.length_append, h, Nat.add_sub_cancel]
  exact List.drop_left

theorem rtake_of_length_le {α : Type} {a : List α} {k : Nat} (h : a.length ≤ k) :
    a.rtake k = a := by
  unfold List.rtake
  rw [Nat.sub_eq_zero_of_le h, List.drop_zero]

theorem recent_succ_concat (n : Nat) (uses : List PageId) (p : PageId) :
    recent (n + 1) (uses ++ [p]) = (uses.dedup.erase p).rtake n ++ [p] := by
  unfold recent
  rw [dedup_concat, List.rtake_concat_succ]

/-- A use of one of these pages moves it to the end. -/
theorem recent_of_mem (hp : p ∈ recent n uses) :
    recent n (uses ++ [p]) = (recent n uses).erase p ++ [p] := by
  obtain ⟨before, hsplit, hlen⟩ := dedup_eq_append n uses
  have hpos := List.length_pos_of_mem hp
  have herase := List.length_erase_of_mem hp
  have hout : p ∉ before := by
    have hnodup := List.nodup_dedup uses
    rw [hsplit] at hnodup
    intro hin
    exact (List.nodup_append.1 hnodup).2.2 p hin p hp rfl
  obtain ⟨k, rfl⟩ : ∃ k, n = k + 1 := ⟨n - 1, by omega⟩
  rw [recent_succ_concat, hsplit, List.erase_append_right _ hout]
  rcases hlen with hfull | ⟨rfl, hshort⟩
  · rw [rtake_append_self _ (by omega)]
  · rw [List.nil_append, rtake_of_length_le (by omega)]

/-- A use of another page adds it, if there is room. -/
theorem recent_of_short (hp : p ∉ recent n uses) (hshort : (recent n uses).length < n) :
    recent n (uses ++ [p]) = recent n uses ++ [p] := by
  obtain ⟨before, hsplit, hlen⟩ := dedup_eq_append n uses
  obtain ⟨k, rfl⟩ : ∃ k, n = k + 1 := ⟨n - 1, by omega⟩
  rcases hlen with hfull | ⟨rfl, -⟩
  · omega
  · rw [recent_succ_concat, hsplit, List.nil_append, List.erase_of_not_mem hp,
      rtake_of_length_le (by omega)]

/-- If there is none, the page used least recently goes. -/
theorem recent_of_full {v : PageId} {rest : List PageId} (hfirst : recent n uses = v :: rest)
    (hp : p ∉ recent n uses) (hfull : n ≤ (recent n uses).length) :
    recent n (uses ++ [p]) = rest ++ [p] := by
  obtain ⟨before, hsplit, hlen⟩ := dedup_eq_append n uses
  have hrest : rest.length + 1 = n := by
    have hle := length_recent n uses
    rw [hfirst, List.length_cons] at hle hfull
    omega
  obtain ⟨left, hleft⟩ : ∃ left, uses.dedup.erase p = left ++ recent n uses := by
    rw [hsplit]
    by_cases hin : p ∈ before
    · exact ⟨before.erase p, List.erase_append_left _ hin⟩
    · exact ⟨before, List.erase_of_not_mem (by simp [hin, hp])⟩
  obtain rfl := hrest
  rw [recent_succ_concat, hleft, hfirst, List.append_cons left v rest, rtake_append_self _ rfl]

namespace Recency

variable {r : Recency}

/-- A list of just the pages that have a stamp, in the order of their stamps, has the victims. -/
theorem Paired.victims_eq (h : r.Paired) {ps : List PageId} (hnodup : ps.Nodup)
    (hmem : ∀ p, p ∈ ps ↔ r.contains p = true)
    (hsorted : ps.Pairwise fun p q => ∃ m n : Nat,
      r.stamps[p]? = some m ∧ r.stamps[q]? = some n ∧ m < n) : r.victims = ps := by
  have hperm : r.victims.Perm ps := by
    rw [List.perm_ext_iff_of_nodup h.nodup_victims hnodup]
    intro p
    rw [h.mem_victims, hmem]
  refine List.Perm.eq_of_pairwise ?_ h.victims_sorted hsorted hperm
  rintro p q - - ⟨m, n, hm, hn, hlt⟩ ⟨n', m', hn', hm', hlt'⟩
  rw [hn] at hn'
  rw [hm] at hm'
  cases hn'
  cases hm'
  omega

theorem Paired.victims_remove (h : r.Paired) (p : PageId) :
    (r.remove p).victims = r.victims.erase p := by
  have hnodup := h.nodup_victims
  refine (h.remove p).victims_eq (hnodup.erase p) ?_ ?_
  · intro q
    rw [hnodup.mem_erase_iff, h.mem_victims, contains_remove]
    by_cases hq : q = p <;> simp [hq]
  · refine (h.victims_sorted.sublist List.erase_sublist).imp_of_mem ?_
    rintro a b ha hb ⟨m, n, hm, hn, hlt⟩
    refine ⟨m, n, ?_, ?_, hlt⟩
    · rwa [stamps_remove, if_neg (hnodup.mem_erase_iff.1 ha).1]
    · rwa [stamps_remove, if_neg (hnodup.mem_erase_iff.1 hb).1]

theorem Paired.victims_touch (h : r.Paired) (p : PageId) :
    (r.touch p).victims = r.victims.erase p ++ [p] := by
  have hnodup := h.nodup_victims
  have hother : ∀ q ∈ r.victims.erase p, q ≠ p := by
    intro q hq
    exact (hnodup.mem_erase_iff.1 hq).1
  refine (h.touch p).victims_eq ?_ ?_ ?_
  · rw [List.nodup_append]
    refine ⟨hnodup.erase p, List.nodup_singleton p, ?_⟩
    intro q hq q' hq'
    rw [List.mem_singleton.1 hq']
    exact hother q hq
  · intro q
    rw [List.mem_append, hnodup.mem_erase_iff, h.mem_victims, contains_touch]
    by_cases hq : q = p <;> simp [hq]
  · rw [List.pairwise_append]
    refine ⟨?_, List.pairwise_singleton _ _, ?_⟩
    · refine (h.victims_sorted.sublist List.erase_sublist).imp_of_mem ?_
      rintro a b ha hb ⟨m, n, hm, hn, hlt⟩
      refine ⟨m, n, ?_, ?_, hlt⟩
      · rwa [stamps_touch, if_neg (hother a ha)]
      · rwa [stamps_touch, if_neg (hother b hb)]
    · intro a ha b hb
      rw [List.mem_singleton.1 hb]
      have hin := h.mem_victims.1 (List.mem_of_mem_erase ha)
      rw [contains_eq, Option.isSome_iff_exists] at hin
      obtain ⟨m, hm⟩ := hin
      refine ⟨m, r.clock, ?_, ?_, h.past a m hm⟩
      · rwa [stamps_touch, if_neg (hother a ha)]
      · rw [stamps_touch, if_pos rfl]

end Recency
end PageStore

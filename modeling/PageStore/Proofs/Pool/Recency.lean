import PageStore.Pool.Recency

/-!
# PageStore.Proofs.Pool.Recency

The two maps of a recency order. In a `Paired` order the pages and their stamps are paired one to
one, and every stamp is in the past, so a new stamp is nobody's. A use and a removal keep an order
paired, and the pages listed for eviction are then just the pages that have a stamp
(`Paired.mem_victims`), each of them once (`Paired.nodup_victims`).
-/

namespace PageStore

section Values

variable {α β : Type} {cmp : α → α → Ordering} {m : Std.TreeMap α β cmp} {b : β}

theorem values_eq (m : Std.TreeMap α β cmp) : m.values = m.toList.map (·.2) := by
  change m.foldr (fun _ b l => b :: l) [] = _
  rw [Std.TreeMap.foldr_eq_foldr_toList, List.map_eq_foldr]

variable [Std.TransCmp cmp] [Std.LawfulEqCmp cmp]

theorem mem_values : b ∈ m.values ↔ ∃ a : α, m[a]? = some b := by
  rw [values_eq, List.mem_map]
  constructor
  · rintro ⟨⟨a, b⟩, hin, rfl⟩
    exact ⟨a, Std.TreeMap.mem_toList_iff_getElem?_eq_some.1 hin⟩
  · rintro ⟨a, ha⟩
    exact ⟨(a, b), Std.TreeMap.mem_toList_iff_getElem?_eq_some.2 ha, rfl⟩

/-- A map that never gives two keys the same value lists every value once. -/
theorem nodup_values (h : ∀ (a a' : α) (b : β), m[a]? = some b → m[a']? = some b → a = a') :
    m.values.Nodup := by
  rw [values_eq, List.Nodup, List.pairwise_map]
  refine (Std.TreeMap.distinct_keys_toList (t := m)).imp_of_mem ?_
  rintro ⟨a, b⟩ ⟨a', b'⟩ ha ha' hne rfl
  refine hne ?_
  rw [h a a' b (Std.TreeMap.mem_toList_iff_getElem?_eq_some.1 ha)
    (Std.TreeMap.mem_toList_iff_getElem?_eq_some.1 ha')]
  exact Std.ReflCmp.compare_self

end Values

namespace Recency

variable {r : Recency} {p q : PageId} {n : Nat}

/-- Pages and stamps are paired one to one, and every stamp is in the past. -/
structure Paired (r : Recency) : Prop where
  iff : ∀ (p : PageId) (n : Nat), r.stamps[p]? = some n ↔ r.order[n]? = some p
  past : ∀ (p : PageId) (n : Nat), r.stamps[p]? = some n → n < r.clock

theorem paired_empty : Paired {} := by
  refine ⟨fun p n => ?_, fun p n h => ?_⟩
  · simp
  · simp at h

theorem stamps_touch (r : Recency) (p q : PageId) :
    (r.touch p).stamps[q]? = if q = p then some r.clock else r.stamps[q]? := by
  unfold touch
  dsimp only
  rw [Std.TreeMap.getElem?_insert]
  by_cases hq : q = p
  · simp [hq]
  · have hq' : p ≠ q := fun e => hq e.symm
    simp [hq, hq']

theorem stamps_remove (r : Recency) (p q : PageId) :
    (r.remove p).stamps[q]? = if q = p then none else r.stamps[q]? := by
  unfold remove
  by_cases hq : q = p
  · subst hq
    rw [if_pos rfl]
    cases h : r.stamps[q]? with
    | none => exact h
    | some n => simp
  · have hq' : p ≠ q := fun e => hq e.symm
    rw [if_neg hq]
    cases h : r.stamps[p]? with
    | none => rfl
    | some n => simp [Std.TreeMap.getElem?_erase, hq']

theorem clock_remove (r : Recency) (p : PageId) : (r.remove p).clock = r.clock := by
  unfold remove
  cases r.stamps[p]? <;> rfl

theorem contains_eq (r : Recency) (p : PageId) : r.contains p = r.stamps[p]?.isSome :=
  Std.TreeMap.contains_eq_isSome_getElem?

theorem contains_touch (r : Recency) (p q : PageId) :
    (r.touch p).contains q = if q = p then true else r.contains q := by
  rw [contains_eq, stamps_touch, contains_eq]
  by_cases hq : q = p
  · rw [if_pos hq, if_pos hq]
    rfl
  · rw [if_neg hq, if_neg hq]

theorem contains_remove (r : Recency) (p q : PageId) :
    (r.remove p).contains q = if q = p then false else r.contains q := by
  rw [contains_eq, stamps_remove, contains_eq]
  by_cases hq : q = p
  · rw [if_pos hq, if_pos hq]
    rfl
  · rw [if_neg hq, if_neg hq]

/-- What is left of the order once the stamp of one page has been taken out. -/
theorem Paired.order_erase (h : r.Paired) (hp : r.stamps[p]? = some n) (k : Nat) :
    (r.order.erase n)[k]? = some q ↔ q ≠ p ∧ r.stamps[q]? = some k := by
  rw [Std.TreeMap.getElem?_erase, h.iff]
  by_cases hk : n = k
  · subst hk
    have hn := (h.iff p n).1 hp
    simp only [Std.ReflCmp.compare_self, if_true]
    constructor
    · exact fun e => by cases e
    · rintro ⟨hq, e⟩
      rw [hn] at e
      cases e
      exact absurd rfl hq
  · have hq : r.order[k]? = some q → q ≠ p := by
      rintro e rfl
      rw [← h.iff, hp] at e
      cases e
      exact hk rfl
    rw [if_neg (by simpa using hk)]
    exact ⟨fun e => ⟨hq e, e⟩, And.right⟩

theorem Paired.remove (h : r.Paired) (p : PageId) : (r.remove p).Paired := by
  refine ⟨fun q k => ?_, fun q k hq => ?_⟩
  · rw [stamps_remove]
    cases hp : r.stamps[p]? with
    | none =>
      have hsame : r.remove p = r := by
        unfold Recency.remove
        rw [hp]
      rw [hsame, ← h.iff]
      by_cases hq : q = p
      · rw [if_pos hq, hq, hp]
      · rw [if_neg hq]
    | some n =>
      have horder : (r.remove p).order = r.order.erase n := by
        unfold Recency.remove
        rw [hp]
      rw [horder, h.order_erase hp]
      by_cases hq : q = p
      · simp [hq]
      · simp [hq]
  · rw [stamps_remove] at hq
    by_cases hqp : q = p
    · rw [if_pos hqp] at hq
      cases hq
    · rw [if_neg hqp] at hq
      rw [clock_remove]
      exact h.past q k hq

/-- A use stamps its page anew, in an order that no longer has the page. -/
theorem order_touch (r : Recency) (p : PageId) (k : Nat) :
    (r.touch p).order[k]? = if k = r.clock then some p else (r.remove p).order[k]? := by
  unfold touch Recency.remove
  cases hp : r.stamps[p]? <;>
  · dsimp only
    rw [Std.TreeMap.getElem?_insert]
    by_cases hk : k = r.clock
    · simp [hk]
    · have hk' : r.clock ≠ k := fun e => hk e.symm
      simp [hk, hk']

theorem Paired.touch (h : r.Paired) (p : PageId) : (r.touch p).Paired := by
  have hclock : (r.touch p).clock = r.clock + 1 := rfl
  refine ⟨fun q k => ?_, fun q k hq => ?_⟩
  · rw [stamps_touch, order_touch]
    by_cases hq : q = p
    · subst hq
      rw [if_pos rfl]
      by_cases hk : k = r.clock
      · simp [hk]
      · have hk' : r.clock ≠ k := fun e => hk e.symm
        rw [if_neg hk, ← (h.remove q).iff, stamps_remove, if_pos rfl]
        simp [hk']
    · rw [if_neg hq]
      by_cases hk : k = r.clock
      · subst hk
        rw [if_pos rfl]
        constructor
        · exact fun e => absurd (h.past q _ e) (Nat.lt_irrefl _)
        · exact fun e => absurd (Option.some.inj e).symm hq
      · rw [if_neg hk, ← (h.remove p).iff, stamps_remove, if_neg hq]
  · rw [stamps_touch] at hq
    rw [hclock]
    by_cases hqp : q = p
    · rw [if_pos hqp] at hq
      cases hq
      exact Nat.lt_succ_self _
    · rw [if_neg hqp] at hq
      exact Nat.lt_succ_of_lt (h.past q k hq)

/-- Just the pages that have a stamp are listed for eviction. -/
theorem Paired.mem_victims (h : r.Paired) : p ∈ r.victims ↔ r.contains p = true := by
  unfold victims
  rw [mem_values, contains_eq, Option.isSome_iff_exists]
  constructor
  · rintro ⟨n, hn⟩
    exact ⟨n, (h.iff p n).2 hn⟩
  · rintro ⟨n, hn⟩
    exact ⟨n, (h.iff p n).1 hn⟩

theorem Paired.nodup_victims (h : r.Paired) : r.victims.Nodup := by
  refine nodup_values fun n k p hn hk => ?_
  rw [← h.iff] at hn hk
  rw [hn] at hk
  exact Option.some.inj hk

end Recency
end PageStore

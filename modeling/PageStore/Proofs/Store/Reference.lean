import PageStore.Proofs.Store.Content
import PageStore.Store.Call

/-!
# PageStore.Proofs.Store.Reference

A store without pages, files and memory: a map from records to tuples. `Reference.after` says what an
answer makes of it, and `Reference.Lists` what a list of its tuples in the order of their records is.
The tuples of a page are such a list (`Page.lists`), and those of pages one after the other make up a
longer one (`Lists.page`).
-/

namespace PageStore

/-- Records of one table in the order of their pages, and of their slots in a page. -/
def RecordId.Before (a b : RecordId) : Prop :=
  a.page.no < b.page.no ∨ a.page.no = b.page.no ∧ a.slot < b.slot

/-- Tuples by their records. -/
abbrev Reference := RecordId → Option Tuple

namespace Reference

variable {m : Reference} {P Q R : RecordId → Prop} {xs ys us : List Tuple} {tb : TableId} {n : Nat}

/-- A tuple that was inserted is at its record in normal form, and a record whose tuple was deleted
is empty. Other answers change nothing. -/
def after (m : Reference) : Call → Answer → Reference
  | .insert _ tuple _ _, .inserted tuple' (.ok _) =>
    match tuple'.record with
    | some r => Function.update m r (some (tuple.readBack r))
    | none => m
  | .delete tuple _, .deleted (.ok _) =>
    match tuple.record with
    | some r => Function.update m r none
    | none => m
  | _, _ => m

/-- The tuples of the map at the records of a kind, each once, with its record, and in order. -/
def Lists (m : Reference) (P : RecordId → Prop) (xs : List Tuple) : Prop :=
  ∃ rs : List RecordId, rs.Pairwise RecordId.Before ∧ (∀ r, r ∈ rs ↔ P r ∧ (m r).isSome = true) ∧
    xs.map some = rs.map m ∧ xs.map (·.record) = rs.map some

theorem lists_nil (h : ∀ r, P r → m r = none) : m.Lists P [] := by
  refine ⟨[], .nil, ?_, rfl, rfl⟩
  intro r
  constructor
  · intro hr
    cases hr
  · rintro ⟨hP, hr⟩
    rw [h r hP] at hr
    cases hr

theorem Lists.congr (h : m.Lists P xs) (hPQ : ∀ r, (m r).isSome = true → (P r ↔ Q r)) :
    m.Lists Q xs := by
  obtain ⟨rs, hsorted, hmem, htuples⟩ := h
  refine ⟨rs, hsorted, ?_, htuples⟩
  intro r
  rw [hmem]
  exact and_congr_left (hPQ r)

theorem Lists.append (h : m.Lists P xs) (h' : m.Lists Q ys)
    (hbefore : ∀ a b, P a → Q b → a.Before b) (hR : ∀ r, R r ↔ P r ∨ Q r) :
    m.Lists R (xs ++ ys) := by
  obtain ⟨rs, hsorted, hmem, htuples, hrecords⟩ := h
  obtain ⟨rs', hsorted', hmem', htuples', hrecords'⟩ := h'
  refine ⟨rs ++ rs', List.pairwise_append.2 ⟨hsorted, hsorted', ?_⟩, ?_, ?_, ?_⟩
  · intro a ha b hb
    exact hbefore a b ((hmem a).1 ha).1 ((hmem' b).1 hb).1
  · intro r
    rw [List.mem_append, hmem, hmem', hR, or_and_right]
  · rw [List.map_append, List.map_append, htuples, htuples']
  · rw [List.map_append, List.map_append, hrecords, hrecords']

/-- The records in the first pages of a table. -/
def Below (tb : TableId) (n : Nat) (r : RecordId) : Prop := r.page.table = tb ∧ r.page.no < n

theorem lists_start (m : Reference) (tb : TableId) : m.Lists (Below tb 0) [] := by
  apply lists_nil
  intro r h
  exact absurd h.2 (Nat.not_lt_zero _)

theorem Lists.page (h : m.Lists (Below tb n) xs) (hpage : m.Lists (·.page = ⟨tb, n⟩) us) :
    m.Lists (Below tb (n + 1)) (xs ++ us) := by
  apply h.append hpage
  · intro a b ha hb
    refine .inl ?_
    rw [hb]
    exact ha.2
  · rintro ⟨⟨table, no⟩, slot⟩
    simp only [Below, PageId.mk.injEq]
    rw [Nat.lt_succ_iff_lt_or_eq, and_or_left]

/-- Where no page follows that has a tuple, the tuples of the first pages are those of the table. -/
theorem Lists.whole (h : m.Lists (Below tb n) xs)
    (hend : ∀ r, r.page.table = tb → n ≤ r.page.no → m r = none) :
    m.Lists (·.page.table = tb) xs := by
  apply h.congr
  intro r hr
  refine ⟨And.left, fun htb => ⟨htb, ?_⟩⟩
  by_contra hno
  rw [hend r htb (Nat.not_lt.1 hno)] at hr
  cases hr

end Reference

namespace Page

variable {p : Page} {m : Reference} {us : List Tuple}

/-- What a page gives are the tuples of a map that has its content. -/
theorem lists (h : p.tuples = .ok us) (hm : ∀ slot, m ⟨p.id, slot⟩ = p.content slot) :
    m.Lists (·.page = p.id) us := by
  have htuples := tuples_eq_ok h
  refine ⟨p.usedSlots.map (⟨p.id, ·⟩), ?_, ?_, ?_, ?_⟩
  · exact List.pairwise_map.2 (p.usedSlots_sorted.imp fun hlt => .inr ⟨rfl, hlt⟩)
  · rintro ⟨q, slot⟩
    simp only [List.mem_map, RecordId.mk.injEq, mem_usedSlots]
    constructor
    · rintro ⟨slot', hused, rfl, rfl⟩
      rw [hm, ← isUsed_eq_isSome]
      exact ⟨rfl, hused⟩
    · rintro ⟨rfl, hsome⟩
      rw [hm, ← isUsed_eq_isSome] at hsome
      exact ⟨slot, hsome, rfl, rfl⟩
  · rw [htuples, List.map_map]
    exact List.map_congr_left fun slot _ => (hm slot).symm
  · calc
      us.map (·.record) = (us.map some).map fun u? => u?.bind (·.record) := by
        rw [List.map_map]
        rfl
      _ = p.usedSlots.map fun slot => (p.content slot).bind (·.record) := by
        rw [htuples, List.map_map]
        rfl
      _ = (p.usedSlots.map (⟨p.id, ·⟩)).map some := by
        rw [List.map_map]
        refine List.map_congr_left fun slot hslot => ?_
        rw [mem_usedSlots, isUsed_eq_isSome] at hslot
        obtain ⟨u, hu⟩ := Option.isSome_iff_exists.1 hslot
        rw [hu]
        exact record_of_content hu

end Page
end PageStore

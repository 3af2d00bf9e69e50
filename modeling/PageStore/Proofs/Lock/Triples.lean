import Mathlib.Data.List.Basic
import Mathlib.Data.List.Induction
import Mathlib.Data.Set.Basic
import PageStore.Proofs.Lock.Edges

/-!
# PageStore.Proofs.Lock.Triples

The wait-for graph as a set of triples: who waits, for which page, and for whom. A graph keeps one
record for each waiter; its records say the same as a set of triples would that every operation
changes by a plain union or difference (`GraphStep.onEdges`). `edges_act` says so of one operation,
whatever the graph, and `edges_after` of every sequence of them.

The records stay in good form as well: none is without holders, and none names its own waiter as a
holder (`Kept`). So there is a record just for those that wait for somebody.
-/

namespace PageStore

/-- An edge: who waits, for which page, and for whom. -/
abbrev WaitEdge := TxnId × PageId × TxnId

/-- What is done to a wait-for graph. -/
inductive GraphStep where
  | setWaits (waiter : TxnId) (page : PageId) (holders : List TxnId)
  | clearWaits (waiter : TxnId)
  | releasePage (page : PageId) (holder : TxnId)
  | removeTransaction (t : TxnId)
  deriving DecidableEq

namespace GraphStep

/-- The graph after a step. -/
def act (g : WaitGraph) : GraphStep → WaitGraph
  | setWaits w p hs => g.setWaits w p hs
  | clearWaits w => g.clearWaits w
  | releasePage p h => g.releasePage p h
  | removeTransaction t => g.removeTransaction t

/-- What the step does to a set of edges. -/
def onEdges (es : Set WaitEdge) : GraphStep → Set WaitEdge
  | setWaits w p hs => es \ {e | e.1 = w} ∪ {e | ∃ h ∈ hs, h ≠ w ∧ e = (w, p, h)}
  | clearWaits w => es \ {e | e.1 = w}
  | releasePage p h => es \ {e | ∃ x, e = (x, p, h)}
  | removeTransaction t => es \ {e | e.1 = t ∨ e.2.2 = t}

end GraphStep

namespace WaitGraph

variable {g : WaitGraph} {w t : TxnId} {p : PageId} {x : Waiting}

/-- The recorded edges. -/
def edges (g : WaitGraph) : Set WaitEdge := {e | g.Edge e.1 e.2.1 e.2.2}

theorem edges_empty : edges {} = ∅ := by
  ext ⟨w, p, h⟩
  exact iff_of_false (not_edge_empty w p h) (Set.notMem_empty _)

/-- One step changes the recorded edges as it changes a set of edges. -/
theorem edges_act (g : WaitGraph) (s : GraphStep) : (s.act g).edges = s.onEdges g.edges := by
  ext ⟨x, q, k⟩
  cases s with
  | setWaits w p hs =>
    show (g.setWaits w p hs).Edge x q k ↔
      (g.Edge x q k ∧ ¬ x = w) ∨ ∃ h ∈ hs, h ≠ w ∧ (x, q, k) = (w, p, h)
    rw [edge_setWaits]
    constructor
    · rintro (⟨rfl, rfl, hk, hne⟩ | ⟨hx, he⟩)
      · exact .inr ⟨k, hk, hne, rfl⟩
      · exact .inl ⟨he, hx⟩
    · rintro (⟨he, hx⟩ | ⟨h, hh, hne, he⟩)
      · exact .inr ⟨hx, he⟩
      · cases he
        exact .inl ⟨rfl, rfl, hh, hne⟩
  | clearWaits w =>
    show (g.clearWaits w).Edge x q k ↔ g.Edge x q k ∧ ¬ x = w
    rw [edge_clearWaits]
    exact and_comm
  | releasePage p h =>
    show (g.releasePage p h).Edge x q k ↔ g.Edge x q k ∧ ¬ ∃ y, (x, q, k) = (y, p, h)
    rw [edge_releasePage]
    refine and_congr_right fun _ => not_congr ?_
    constructor
    · rintro ⟨rfl, rfl⟩
      exact ⟨x, rfl⟩
    · rintro ⟨y, hy⟩
      cases hy
      exact ⟨rfl, rfl⟩
  | removeTransaction t =>
    show (g.removeTransaction t).Edge x q k ↔ g.Edge x q k ∧ ¬ (x = t ∨ k = t)
    rw [edge_removeTransaction, not_or]

/-! ## The records -/

/-- Every record has holders, and none of them is the waiter itself. -/
def Kept (g : WaitGraph) : Prop :=
  ∀ (w : TxnId) (x : Waiting), g.waits[w]? = some x → x.holders ≠ [] ∧ w ∉ x.holders

theorem kept_empty : Kept {} := by
  intro w x hx
  simp at hx

theorem Kept.clearWaits (h : g.Kept) (w : TxnId) : (g.clearWaits w).Kept := by
  intro y x hx
  unfold WaitGraph.clearWaits at hx
  rw [Std.TreeMap.getElem?_erase] at hx
  split at hx
  · cases hx
  · exact h y x hx

theorem Kept.setWaits (h : g.Kept) (w : TxnId) (p : PageId) (hs : List TxnId) :
    (g.setWaits w p hs).Kept := by
  have hnot : w ∉ (hs.filter (· ≠ w)).eraseDups := by
    rw [List.mem_eraseDups, List.mem_filter]
    simp
  unfold WaitGraph.setWaits
  generalize (hs.filter (· ≠ w)).eraseDups = left at hnot
  cases left with
  | nil => exact h.clearWaits w
  | cons a rest =>
    intro y x hx
    change (g.waits.insert w ⟨p, a :: rest⟩)[y]? = some x at hx
    rw [Std.TreeMap.getElem?_insert] at hx
    split at hx
    · rename_i hy
      cases hx
      rw [← Std.LawfulEqCmp.eq_of_compare hy]
      exact ⟨List.cons_ne_nil a rest, hnot⟩
    · exact h y x hx

theorem Kept.dropHolder (h : g.Kept) (t : TxnId) (sel : Waiting → Bool) :
    (g.dropHolder t sel).Kept := by
  intro y x hx
  unfold WaitGraph.dropHolder at hx
  rw [Std.TreeMap.getElem?_filterMap'] at hx
  obtain ⟨z, hz, hx⟩ := Option.bind_eq_some_iff.1 hx
  have hsub : (if sel z then z.holders.filter (· ≠ t) else z.holders) ⊆ z.holders := by
    split
    · exact List.filter_subset_self _
    · exact List.Subset.refl _
  generalize (if sel z then z.holders.filter (· ≠ t) else z.holders) = left at hx hsub
  -- a record whose last holder is taken out of it is not kept
  cases left with
  | nil => cases hx
  | cons a rest =>
    cases hx
    exact ⟨List.cons_ne_nil a rest, fun hin => (h y z hz).2 (hsub hin)⟩

theorem Kept.act (h : g.Kept) (s : GraphStep) : (s.act g).Kept := by
  cases s with
  | setWaits w p hs => exact h.setWaits w p hs
  | clearWaits w => exact h.clearWaits w
  | releasePage p t => exact h.dropHolder t _
  | removeTransaction t => exact (h.clearWaits t).dropHolder t _

/-- The edges of a waiter are those of its record: to its holders, and all for its page. -/
theorem edge_of_record (hx : g.waits[w]? = some x) {q : PageId} {k : TxnId} :
    g.Edge w q k ↔ q = x.page ∧ k ∈ x.holders := by
  unfold Edge
  rw [hx]
  constructor
  · rintro ⟨y, hy, rfl, hk⟩
    cases hy
    exact ⟨rfl, hk⟩
  · rintro ⟨rfl, hk⟩
    exact ⟨x, rfl, rfl, hk⟩

/-- There is a record just for those that wait for somebody. -/
theorem Kept.mem_iff (h : g.Kept) : w ∈ g.waits ↔ ∃ q k, g.Edge w q k := by
  rw [Std.TreeMap.mem_iff_isSome_getElem?, Option.isSome_iff_exists]
  constructor
  · rintro ⟨x, hx⟩
    obtain ⟨k, hk⟩ := List.exists_mem_of_ne_nil _ (h w x hx).1
    exact ⟨x.page, k, (edge_of_record hx).2 ⟨rfl, hk⟩⟩
  · rintro ⟨q, k, x, hx, -, -⟩
    exact ⟨x, hx⟩

/-! ## Any sequence of steps -/

/-- The graph after some steps, from the empty one. -/
def after (steps : List GraphStep) : WaitGraph := steps.foldl GraphStep.act {}

theorem after_concat (steps : List GraphStep) (s : GraphStep) :
    after (steps ++ [s]) = s.act (after steps) := List.foldl_concat ..

theorem kept_after (steps : List GraphStep) : (after steps).Kept := by
  induction steps using List.reverseRecOn with
  | nil => exact kept_empty
  | append_singleton steps s ih =>
    rw [after_concat]
    exact ih.act s

theorem edges_after (steps : List GraphStep) :
    (after steps).edges = steps.foldl GraphStep.onEdges ∅ := by
  induction steps using List.reverseRecOn with
  | nil => exact edges_empty
  | append_singleton steps s ih =>
    rw [after_concat, edges_act, ih, List.foldl_concat]

/-- After any steps the recorded edges are the set that these steps make of the empty set, and the
next step changes them as it changes a set. Whoever has a record has an edge, all edges of a waiter
are for the page of its record, to the holders in it, and nobody waits for itself. -/
theorem edges_evolve (steps : List GraphStep) :
    (after steps).edges = steps.foldl GraphStep.onEdges ∅ ∧
    (∀ s : GraphStep, (s.act (after steps)).edges = s.onEdges (after steps).edges) ∧
    (∀ w, w ∈ (after steps).waits ↔ ∃ q k, (w, q, k) ∈ (after steps).edges) ∧
    (∀ (w : TxnId) (x : Waiting), (after steps).waits[w]? = some x → x.holders ≠ [] ∧
      ∀ q k, (w, q, k) ∈ (after steps).edges ↔ q = x.page ∧ k ∈ x.holders) ∧
    ∀ w q k, (w, q, k) ∈ (after steps).edges → k ≠ w := by
  have hkept := kept_after steps
  refine ⟨edges_after steps, edges_act (after steps), fun w => hkept.mem_iff, ?_, ?_⟩
  · intro w x hx
    exact ⟨(hkept w x hx).1, fun q k => edge_of_record hx⟩
  · rintro w q k ⟨x, hx, -, hk⟩ rfl
    exact (hkept k x hx).2 hk

end WaitGraph
end PageStore

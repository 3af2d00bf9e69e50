import Mathlib.Logic.Relation
import PageStore.Lock.WaitGraph

/-!
# PageStore.Proofs.Lock.Edges

The wait-for graph as a set of edges, and the search in it.

* `Edge g w p h`: `w` waits for page `p`, and `h` is noted as a holder of it. The lemmas
  `edge_setWaits`, `edge_clearWaits`, `edge_releasePage` and `edge_removeTransaction` say which
  edges each operation leaves.
* `hasCycleThrough_iff`: the search finds a cycle exactly if the edges lead from the waiter back
  to it. Whatever the search has not met yet is reached by a path through waiters that it may still
  expand (`Via`), and every level it goes down takes one of these waiters away.
-/

namespace PageStore
namespace WaitGraph

open Relation

/-- `w` waits for page `p`, and `h` is noted as one of its holders. -/
def Edge (g : WaitGraph) (w : TxnId) (p : PageId) (h : TxnId) : Prop :=
  ∃ x, g.waits[w]? = some x ∧ x.page = p ∧ h ∈ x.holders

/-- `w` waits for `h`, on whatever page. -/
def Waits (g : WaitGraph) (w h : TxnId) : Prop := h ∈ g.holdersOf w

theorem waits_iff {g : WaitGraph} {w h : TxnId} : g.Waits w h ↔ ∃ p, g.Edge w p h := by
  unfold Waits holdersOf Edge
  cases hw : g.waits[w]? with
  | none => simp
  | some x =>
    constructor
    · intro hh
      exact ⟨x.page, x, rfl, rfl, hh⟩
    · rintro ⟨p, y, hy, _, hh⟩
      cases hy
      exact hh

theorem not_edge_empty (w : TxnId) (p : PageId) (h : TxnId) : ¬ Edge {} w p h := by
  rintro ⟨x, hx, _⟩
  simp at hx

theorem edge_setWaits {g : WaitGraph} {w : TxnId} {p : PageId} {hs : List TxnId} {x : TxnId}
    {q : PageId} {h : TxnId} :
    (g.setWaits w p hs).Edge x q h ↔
      (x = w ∧ q = p ∧ h ∈ hs ∧ h ≠ w) ∨ (x ≠ w ∧ g.Edge x q h) := by
  unfold setWaits
  have hmem : ∀ h, h ∈ (hs.filter (· ≠ w)).eraseDups ↔ h ∈ hs ∧ h ≠ w := by
    intro h
    rw [List.mem_eraseDups, List.mem_filter]
    simp
  generalize (hs.filter (· ≠ w)).eraseDups = left at hmem
  dsimp only
  by_cases hx : x = w
  · subst hx
    cases left with
    | nil =>
      have hno : ∀ h, ¬ (h ∈ hs ∧ h ≠ x) := fun h hh => by simpa using (hmem h).2 hh
      simp only [List.isEmpty_nil, if_true]
      constructor
      · rintro ⟨y, hy, _⟩
        simp at hy
      · rintro (⟨_, _, hh⟩ | ⟨hne, _⟩)
        · exact absurd hh (hno h)
        · exact absurd rfl hne
    | cons a rest =>
      simp only [List.isEmpty_cons, Bool.false_eq_true, if_false]
      constructor
      · rintro ⟨y, hy, hp, hh⟩
        simp only [Std.TreeMap.getElem?_insert_self, Option.some.injEq] at hy
        subst hy
        exact .inl ⟨trivial, hp.symm, (hmem h).1 hh⟩
      · rintro (⟨_, rfl, hh⟩ | ⟨hne, _⟩)
        · exact ⟨⟨q, a :: rest⟩, by simp, rfl, (hmem h).2 hh⟩
        · exact absurd rfl hne
  · have hx' : w ≠ x := fun e => hx e.symm
    unfold Edge
    split <;> simp [hx, hx', Std.TreeMap.getElem?_insert, Std.TreeMap.getElem?_erase]

theorem edge_clearWaits {g : WaitGraph} {w x : TxnId} {q : PageId} {h : TxnId} :
    (g.clearWaits w).Edge x q h ↔ x ≠ w ∧ g.Edge x q h := by
  unfold clearWaits Edge
  rw [Std.TreeMap.getElem?_erase]
  by_cases hx : x = w
  · subst hx
    simp
  · have hx' : w ≠ x := fun e => hx e.symm
    simp [hx, hx']

theorem edge_dropHolder {g : WaitGraph} {t : TxnId} (sel : PageId → Bool) {x : TxnId} {q : PageId}
    {h : TxnId} :
    (g.dropHolder t fun w => sel w.page).Edge x q h ↔
      g.Edge x q h ∧ ¬ (sel q = true ∧ h = t) := by
  have hmem : ∀ w : Waiting,
      h ∈ (if sel w.page then w.holders.filter (· ≠ t) else w.holders) ↔
        h ∈ w.holders ∧ ¬ (sel w.page = true ∧ h = t) := by
    intro w
    by_cases hs : sel w.page = true <;> simp [hs]
  unfold dropHolder Edge
  simp only [Std.TreeMap.getElem?_filterMap']
  constructor
  · rintro ⟨y, hy, rfl, hh⟩
    obtain ⟨w, hw, hleft⟩ := Option.bind_eq_some_iff.1 hy
    have hw' := hmem w
    generalize (if sel w.page then w.holders.filter (· ≠ t) else w.holders) = left at hleft hw'
    cases left with
    | nil => cases hleft
    | cons a rest =>
      cases hleft
      obtain ⟨hin, hno⟩ := hw'.1 hh
      exact ⟨⟨w, hw, rfl, hin⟩, hno⟩
  · rintro ⟨⟨w, hw, rfl, hh⟩, hno⟩
    have hin := (hmem w).2 ⟨hh, hno⟩
    generalize hl : (if sel w.page then w.holders.filter (· ≠ t) else w.holders) = left at hin
    refine ⟨{ w with holders := left }, ?_, rfl, hin⟩
    cases left with
    | nil => exact absurd hin List.not_mem_nil
    | cons a rest => rw [hw, Option.bind_some, hl]; rfl

theorem edge_releasePage {g : WaitGraph} {p : PageId} {t x : TxnId} {q : PageId} {h : TxnId} :
    (g.releasePage p t).Edge x q h ↔ g.Edge x q h ∧ ¬ (q = p ∧ h = t) := by
  have := edge_dropHolder (g := g) (t := t) (fun q => q = p) (x := x) (q := q) (h := h)
  simpa [releasePage] using this

theorem edge_removeTransaction {g : WaitGraph} {t x : TxnId} {q : PageId} {h : TxnId} :
    (g.removeTransaction t).Edge x q h ↔ g.Edge x q h ∧ x ≠ t ∧ h ≠ t := by
  have := edge_dropHolder (g := g.clearWaits t) (t := t) (fun _ => true) (x := x) (q := q) (h := h)
  rw [removeTransaction, this, edge_clearWaits]
  simp only [true_and]
  constructor
  · rintro ⟨⟨hx, he⟩, hh⟩
    exact ⟨he, hx, hh⟩
  · rintro ⟨he, hx, hh⟩
    exact ⟨⟨hx, he⟩, hh⟩

/-! ## The search -/

/-- A path to `goal` that leaves only waiters of `opened`. -/
def Via (g : WaitGraph) (opened : List TxnId) (x goal : TxnId) : Prop :=
  ReflTransGen (fun a b => a ∈ opened ∧ g.Waits a b) x goal

theorem meets_sound {g : WaitGraph} {goal : TxnId} {n : Nat} :
    ∀ {opened level : List TxnId}, g.meets goal n opened level = true →
      ∃ x ∈ level, ReflTransGen g.Waits x goal := by
  induction n with
  | zero =>
    intro opened level h
    simp only [meets, List.contains_iff_mem] at h
    exact ⟨goal, h, .refl⟩
  | succ n ih =>
    intro opened level h
    simp only [meets, Bool.or_eq_true, List.contains_iff_mem] at h
    rcases h with h | h
    · exact ⟨goal, h, .refl⟩
    · obtain ⟨y, hy, hpath⟩ := ih h
      obtain ⟨x, hx, hxy⟩ := List.mem_flatMap.1 hy
      obtain ⟨_, hlevel⟩ := List.mem_filter.1 hx
      exact ⟨x, by simpa using hlevel, .head hxy hpath⟩

/-- The part of a path behind the last waiter of a level: it starts on the next level and leaves
only waiters that are not on this one. Without such a waiter the path itself is one of these. -/
theorem via_beyond {g : WaitGraph} {goal : TxnId} {opened : List TxnId} (level : List TxnId)
    {x : TxnId} (h : g.Via opened x goal) :
    g.Via (opened.filter (!level.contains ·)) x goal ∨
      ∃ y ∈ (opened.filter (level.contains ·)).flatMap g.holdersOf,
        g.Via (opened.filter (!level.contains ·)) y goal := by
  induction h using ReflTransGen.head_induction_on with
  | refl => exact .inl .refl
  | @head a b hab _ ih =>
    rcases ih with hb | hy
    · by_cases ha : a ∈ level
      · have hnext : b ∈ (opened.filter (level.contains ·)).flatMap g.holdersOf :=
          List.mem_flatMap.2 ⟨a, List.mem_filter.2 ⟨hab.1, by simpa using ha⟩, hab.2⟩
        exact .inr ⟨b, hnext, hb⟩
      · have hleft : a ∈ opened.filter (!level.contains ·) :=
          List.mem_filter.2 ⟨hab.1, by simpa using ha⟩
        exact .inl (.head ⟨hleft, hab.2⟩ hb)
    · exact .inr hy

/-- The search is complete if it may go down as often as there are waiters left to expand: each
level that does not hold the goal takes one of them away. -/
theorem meets_complete {g : WaitGraph} {goal : TxnId} {n : Nat} :
    ∀ {opened level : List TxnId} {x : TxnId}, opened.length ≤ n → x ∈ level →
      g.Via opened x goal → g.meets goal n opened level = true := by
  induction n with
  | zero =>
    intro opened level x hn hx hpath
    have : opened = [] := List.eq_nil_of_length_eq_zero (by omega)
    subst this
    rcases ReflTransGen.cases_head hpath with rfl | ⟨_, ⟨h, _⟩, _⟩
    · simpa [meets] using hx
    · exact absurd h List.not_mem_nil
  | succ n ih =>
    intro opened level x hn hx hpath
    simp only [meets, Bool.or_eq_true, List.contains_iff_mem]
    by_cases hgoal : goal ∈ level
    · exact .inl hgoal
    · right
      rcases ReflTransGen.cases_head hpath with rfl | ⟨_, ⟨hopen, _⟩, _⟩
      · exact absurd hx hgoal
      · have hless : (opened.filter (!level.contains ·)).length < opened.length := by
          refine List.length_filter_lt_length_iff_exists.2 ⟨x, hopen, ?_⟩
          simpa using hx
        rcases via_beyond level hpath with hstay | ⟨y, hy, hbeyond⟩
        · rcases ReflTransGen.cases_head hstay with rfl | ⟨_, ⟨h, _⟩, _⟩
          · exact absurd hx hgoal
          · have := (List.mem_filter.1 h).2
            simp [hx] at this
        · exact ih (by omega) hy hbeyond

theorem mem_keys_of_waits {g : WaitGraph} {w h : TxnId} (hw : g.Waits w h) : w ∈ g.waits.keys := by
  obtain ⟨p, x, hx, _⟩ := waits_iff.1 hw
  rw [Std.TreeMap.mem_keys, Std.TreeMap.mem_iff_isSome_getElem?, hx]
  rfl

/-- The search finds a cycle exactly if the edges lead from the waiter back to it. -/
theorem hasCycleThrough_iff {g : WaitGraph} {t : TxnId} :
    g.hasCycleThrough t = true ↔ TransGen g.Waits t t := by
  unfold hasCycleThrough
  constructor
  · intro h
    obtain ⟨x, hx, hpath⟩ := meets_sound h
    exact .head' hx hpath
  · intro h
    obtain ⟨x, hx, hpath⟩ := TransGen.head'_iff.1 h
    have hvia : g.Via g.waits.keys x t :=
      ReflTransGen.mono (fun a b hab => ⟨mem_keys_of_waits hab, hab⟩) _ _ hpath
    exact meets_complete (Nat.le_of_eq Std.TreeMap.length_keys) hx hvia

end WaitGraph
end PageStore

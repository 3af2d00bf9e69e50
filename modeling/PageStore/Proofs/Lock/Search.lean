import PageStore.Proofs.Lock.Edges

/-!
# PageStore.Proofs.Lock.Search

The search for a cycle with a queue. It looks at one transaction after the other, answers as soon as
it meets the one it started from, and puts the holders of every other at the end of the queue, in
whatever order they come, the first time it meets it. `Round` is one round of it.

* Every round follows one edge and does not come back to it (`rounds_le`), so the search ends, and
  cycles that it cannot leave do not keep it.
* What has been queued is waited for (`Met`), and from the queue a path leads on to the goal if one
  ever did (`Leads`), so the answer is right.

`search_is_exact` puts both together: whatever the orders, the search answers what
`hasCycleThrough` answers.
-/

namespace PageStore
namespace WaitGraph

open Relation

/-- A search under way: the transactions that it has followed up, and those it still has to look
at. -/
structure Search where
  visited : List TxnId
  queue : List TxnId

def Search.answer? (goal : TxnId) (a : Search) : Option Bool :=
  match a.queue with
  | [] => some false
  | t :: _ => if t = goal then some true else none

/-- One round: the next transaction is not the goal. If it is new its holders join the queue. -/
inductive Round (g : WaitGraph) (goal : TxnId) : Search → Search → Prop where
  | again {visited rest : List TxnId} {t : TxnId} : t ≠ goal → t ∈ visited →
      Round g goal ⟨visited, t :: rest⟩ ⟨visited, rest⟩
  | expand {visited rest next : List TxnId} {t : TxnId} : t ≠ goal → t ∉ visited →
      next.Perm (g.holdersOf t) → Round g goal ⟨visited, t :: rest⟩ ⟨t :: visited, rest ++ next⟩

inductive Rounds (g : WaitGraph) (goal : TxnId) (a : Search) : Nat → Search → Prop where
  | none : Rounds g goal a 0 a
  | more {n : Nat} {b c : Search} : Rounds g goal a n b → Round g goal b c →
      Rounds g goal a (n + 1) c

variable {g : WaitGraph} {goal w t : TxnId} {a b c : Search} {n : Nat}

theorem Rounds.trans {k : Nat} (h : Rounds g goal a n b) (h' : Rounds g goal b k c) :
    Rounds g goal a (n + k) c := by
  induction h' with
  | none => exact h
  | more _ hround ih => exact .more ih hround

theorem round_of_not_over (h : a.answer? goal = none) : ∃ b, Round g goal a b := by
  obtain ⟨visited, queue⟩ := a
  unfold Search.answer? at h
  cases queue with
  | nil => cases h
  | cons t rest =>
    have ht : t ≠ goal := by
      rintro rfl
      simp at h
    by_cases hv : t ∈ visited
    · exact ⟨_, .again ht hv⟩
    · exact ⟨_, .expand ht hv (.refl _)⟩

/-! ## The edges to follow -/

/-- The waiters that have not been followed up. -/
def opened (g : WaitGraph) (visited : List TxnId) : List TxnId :=
  g.waits.keys.filter (!visited.contains ·)

theorem mem_opened {visited : List TxnId} :
    t ∈ g.opened visited ↔ t ∈ g.waits.keys ∧ t ∉ visited := by
  unfold opened
  rw [List.mem_filter, Bool.not_eq_true', ← Bool.not_eq_true, List.contains_iff_mem]

theorem opened_cons (g : WaitGraph) (t : TxnId) (visited : List TxnId) :
    g.opened (t :: visited) = (g.opened visited).filter fun x => !([t].contains x) := by
  unfold opened
  rw [List.filter_filter]
  refine List.filter_congr ?_
  intro x _
  simp

/-- The edges that a search has queued, and those that it may still queue. -/
def Search.edgesLeft (g : WaitGraph) (a : Search) : Nat :=
  a.queue.length + ((g.opened a.visited).flatMap g.holdersOf).length

/-- To follow a transaction up takes its edges away from those that may still be queued. -/
theorem length_holdersOf_add_le {visited : List TxnId} (ht : t ∉ visited) :
    (g.holdersOf t).length + ((g.opened (t :: visited)).flatMap g.holdersOf).length ≤
      ((g.opened visited).flatMap g.holdersOf).length := by
  by_cases hw : t ∈ g.waits.keys
  · have hin : t ∈ (g.opened visited).filter ([t].contains ·) :=
      List.mem_filter.2 ⟨mem_opened.2 ⟨hw, ht⟩, by simp⟩
    have hperm := List.filter_append_perm ([t].contains ·) (g.opened visited)
    have hlen := (hperm.flatMap_right g.holdersOf).length_eq
    rw [List.flatMap_append, List.length_append] at hlen
    have hown : (g.holdersOf t).length ≤
        (((g.opened visited).filter ([t].contains ·)).flatMap g.holdersOf).length := by
      rw [List.flatMap_def]
      exact (List.sublist_flatten_of_mem (List.mem_map_of_mem hin)).length_le
    rw [opened_cons]
    omega
  · have hnone : g.holdersOf t = [] := by
      refine List.eq_nil_iff_forall_not_mem.2 ?_
      intro h hh
      exact hw (mem_keys_of_waits hh)
    have hsame : g.opened (t :: visited) = g.opened visited := by
      rw [opened_cons]
      refine List.filter_eq_self.2 ?_
      intro x hx
      have hne : x ≠ t := by
        rintro rfl
        exact hw (mem_opened.1 hx).1
      simp [hne]
    rw [hnone, hsame]
    simp

theorem round_lt (h : Round g goal a b) : b.edgesLeft g < a.edgesLeft g := by
  cases h with
  | again _ _ =>
    unfold Search.edgesLeft
    simp only [List.length_cons]
    omega
  | @expand visited rest next t _ hv hnext =>
    have hleft := length_holdersOf_add_le (g := g) hv
    have hlen := hnext.length_eq
    unfold Search.edgesLeft
    simp only [List.length_cons, List.length_append]
    omega

/-- There are no more rounds than edges to follow. -/
theorem rounds_le (h : Rounds g goal a n b) : n + b.edgesLeft g ≤ a.edgesLeft g := by
  induction h with
  | none => omega
  | more _ hround ih =>
    have := round_lt hround
    omega

theorem search_ends (g : WaitGraph) (goal : TxnId) (a : Search) :
    ∃ n b r, Rounds g goal a n b ∧ b.answer? goal = some r := by
  induction hk : a.edgesLeft g using Nat.strongRecOn generalizing a with
  | ind k ih =>
    cases ha : a.answer? goal with
    | some r => exact ⟨0, a, r, .none, ha⟩
    | none =>
      obtain ⟨b, hround⟩ := round_of_not_over (g := g) ha
      obtain ⟨n, c, r, hrounds, hc⟩ := ih _ (hk ▸ round_lt hround) b rfl
      exact ⟨1 + n, c, r, (Rounds.more .none hround).trans hrounds, hc⟩

/-! ## What is met, and what is still to be met -/

/-- All that is queued is waited for, directly or through others. -/
def Met (g : WaitGraph) (w : TxnId) (a : Search) : Prop := ∀ x ∈ a.queue, TransGen g.Waits w x

/-- From the queue a path leads to the goal through waiters that have not been followed up. -/
def Leads (g : WaitGraph) (goal : TxnId) (a : Search) : Prop :=
  ∃ x ∈ a.queue, g.Via (g.opened a.visited) x goal

theorem Met.round (h : Met g w a) (hround : Round g goal a b) : Met g w b := by
  cases hround with
  | again _ _ =>
    intro x hx
    exact h x (List.mem_cons_of_mem _ hx)
  | expand _ _ hnext =>
    intro x hx
    rcases List.mem_append.1 hx with hx | hx
    · exact h x (List.mem_cons_of_mem _ hx)
    · exact .tail (h _ List.mem_cons_self) (hnext.mem_iff.1 hx)

theorem Met.rounds (h : Met g w a) (hrounds : Rounds g goal a n b) : Met g w b := by
  induction hrounds with
  | none => exact h
  | more _ hround ih => exact ih.round hround

/-- A path to the goal does not begin at what has been followed up. -/
theorem Via.not_mem {visited : List TxnId} (h : g.Via (g.opened visited) t goal) (ht : t ≠ goal) :
    t ∉ visited := by
  rcases ReflTransGen.cases_head h with rfl | ⟨_, ⟨hopen, _⟩, _⟩
  · exact absurd rfl ht
  · exact (mem_opened.1 hopen).2

theorem Leads.round (h : Leads g goal a) (hround : Round g goal a b) : Leads g goal b := by
  obtain ⟨x, hx, hpath⟩ := h
  cases hround with
  | again ht hv =>
    rcases List.mem_cons.1 hx with rfl | hx
    · exact absurd hv (hpath.not_mem ht)
    · exact ⟨x, hx, hpath⟩
  | @expand visited rest next t ht hv hnext =>
    rcases via_beyond [t] hpath with hstay | ⟨y, hy, hbeyond⟩
    · rw [← opened_cons] at hstay
      rcases List.mem_cons.1 hx with rfl | hx
      · exact absurd List.mem_cons_self (hstay.not_mem ht)
      · exact ⟨x, List.mem_append_left _ hx, hstay⟩
    · obtain ⟨u, hu, hyu⟩ := List.mem_flatMap.1 hy
      have hut : u = t := by simpa using (List.mem_filter.1 hu).2
      subst hut
      rw [← opened_cons] at hbeyond
      exact ⟨y, List.mem_append_right _ (hnext.mem_iff.2 hyu), hbeyond⟩

theorem Leads.rounds (h : Leads g goal a) (hrounds : Rounds g goal a n b) : Leads g goal b := by
  induction hrounds with
  | none => exact h
  | more _ hround ih => exact ih.round hround

variable {start : List TxnId}

theorem met_start (h : start.Perm (g.holdersOf w)) : Met g w ⟨[], start⟩ := by
  intro x hx
  exact .single (h.mem_iff.1 hx)

theorem leads_start (h : start.Perm (g.holdersOf w)) (hcycle : TransGen g.Waits w w) :
    Leads g w ⟨[], start⟩ := by
  obtain ⟨x, hx, hpath⟩ := TransGen.head'_iff.1 hcycle
  refine ⟨x, h.mem_iff.2 hx, ?_⟩
  refine ReflTransGen.mono ?_ _ _ hpath
  intro y z hyz
  exact ⟨mem_opened.2 ⟨mem_keys_of_waits hyz, List.not_mem_nil⟩, hyz⟩

theorem answer_exact (h : start.Perm (g.holdersOf w)) (hrounds : Rounds g w ⟨[], start⟩ n b) {r : Bool}
    (hr : b.answer? w = some r) : r = true ↔ TransGen g.Waits w w := by
  obtain ⟨visited, queue⟩ := b
  unfold Search.answer? at hr
  cases queue with
  | nil =>
    have hr : false = r := Option.some.inj hr
    subst hr
    constructor
    · intro hfalse
      cases hfalse
    · intro hcycle
      obtain ⟨x, hx, _⟩ := (leads_start h hcycle).rounds hrounds
      exact absurd hx List.not_mem_nil
  | cons t rest =>
    dsimp only at hr
    by_cases ht : t = w
    · subst ht
      rw [if_pos rfl] at hr
      have hr : true = r := Option.some.inj hr
      subst hr
      exact iff_of_true rfl ((met_start h).rounds hrounds t List.mem_cons_self)
    · rw [if_neg ht] at hr
      cases hr

/-- The search finds a cycle exactly if a path of one edge or more leads from the waiter back to it.
With a queue, in whatever order holders come, it follows each edge once, those of the waiter that it
started from at most twice, has a round to go as long as it has not answered, and gives the same
answer. -/
theorem search_is_exact (h : start.Perm (g.holdersOf w)) :
    (g.hasCycleThrough w = true ↔ TransGen g.Waits w w) ∧
    (∃ n b, Rounds g w ⟨[], start⟩ n b ∧ b.answer? w = some (g.hasCycleThrough w)) ∧
    ∀ n b, Rounds g w ⟨[], start⟩ n b →
      n ≤ start.length + (g.waits.keys.flatMap g.holdersOf).length ∧
      (b.answer? w = none → ∃ c, Round g w b c) ∧
      ∀ r, b.answer? w = some r → r = g.hasCycleThrough w := by
  have hsame : ∀ n b r, Rounds g w ⟨[], start⟩ n b → b.answer? w = some r →
      r = g.hasCycleThrough w := by
    intro n b r hrounds hr
    rw [Bool.eq_iff_iff, hasCycleThrough_iff]
    exact answer_exact h hrounds hr
  refine ⟨hasCycleThrough_iff, ?_, ?_⟩
  · obtain ⟨n, b, r, hrounds, hr⟩ := search_ends g w ⟨[], start⟩
    exact ⟨n, b, hrounds, hsame n b r hrounds hr ▸ hr⟩
  · intro n b hrounds
    refine ⟨?_, round_of_not_over, fun r => hsame n b r hrounds⟩
    have hle := rounds_le hrounds
    have hall : g.opened [] = g.waits.keys := List.filter_eq_self.2 fun _ _ => rfl
    have hstart : Search.edgesLeft g ⟨[], start⟩ =
        start.length + (g.waits.keys.flatMap g.holdersOf).length := by
      rw [← hall]
      rfl
    omega

/-- Two transactions wait for each other, and a third one for both, which nobody waits for. -/
def besideCycle : WaitGraph :=
  ((setWaits {} ⟨1⟩ ⟨⟨0⟩, 0⟩ [⟨2⟩, ⟨3⟩]).setWaits ⟨2⟩ ⟨⟨0⟩, 1⟩ [⟨3⟩]).setWaits ⟨3⟩ ⟨⟨0⟩, 2⟩ [⟨2⟩]

/-- The search that starts outside of a cycle goes into it and ends without having come back. -/
theorem besideCycle_exact :
    [⟨3⟩, ⟨2⟩].Perm (besideCycle.holdersOf ⟨1⟩) ∧ ¬ TransGen besideCycle.Waits ⟨1⟩ ⟨1⟩ ∧
    [⟨3⟩].Perm (besideCycle.holdersOf ⟨2⟩) ∧ TransGen besideCycle.Waits ⟨2⟩ ⟨2⟩ ∧
    ∃ n b, Rounds besideCycle ⟨1⟩ ⟨[], [⟨3⟩, ⟨2⟩]⟩ n b ∧ b.answer? ⟨1⟩ = some false := by
  have hout : [⟨3⟩, ⟨2⟩].Perm (besideCycle.holdersOf ⟨1⟩) := by decide +kernel
  have hin : [⟨3⟩].Perm (besideCycle.holdersOf ⟨2⟩) := by decide +kernel
  have hfalse : besideCycle.hasCycleThrough ⟨1⟩ = false := by decide +kernel
  have htrue : besideCycle.hasCycleThrough ⟨2⟩ = true := by decide +kernel
  obtain ⟨hcycle, hends, _⟩ := search_is_exact hout
  rw [hfalse] at hcycle hends
  refine ⟨hout, ?_, hin, (search_is_exact hin).1.1 htrue, hends⟩
  intro hback
  cases hcycle.2 hback

end WaitGraph
end PageStore

import PageStore.Proofs.Lock.Exclusion

/-!
# PageStore.Proofs.Lock.Index

The index of the pages that each transaction holds agrees with the locks: a transaction's pages are
listed in page order, each once, and they are those that it holds. `Listed` says so of one
transaction, and every call keeps it (`Listed.act`), since a call changes the modes and the list of
its own transaction only.

A transaction that gives up all its pages takes its list out of the index first and then gives up
page after page. While other threads take steps in between, the pages that are left to be given up
are kept beside the locks (`Parting`), and what a transaction holds is listed or left. It makes no
other call until nothing is left.
-/

namespace PageStore

/-- The transaction that acts. -/
def LockAction.txn : LockAction → TxnId
  | .request t _ _ => t
  | .retry s => s.txn
  | .expire s => s.txn
  | .release _ t => t
  | .releaseAll t => t

def LockStep.txn : LockStep → TxnId
  | .action a => a.txn
  | .disown t => t
  | .drop t _ => t
  | .unlink t => t

theorem LockAction.txn_of_tries {a : LockAction} {t : TxnId} {p : PageId} {m : LockMode}
    (h : a.tries = some (t, p, m)) : a.txn = t := by
  cases a with
  | request u q k => cases h; rfl
  | retry s => cases h; rfl
  | expire s => cases h; rfl
  | release q u => cases h
  | releaseAll u => cases h

namespace LockManager

variable {l : LockManager} {t u : TxnId} {p q : PageId} {m : LockMode} {a : LockAction}

/-! ## What a call does to the others -/

theorem modeOf_take_of_ne (h : ∀ p, (l.holders p).Sound) {s : LockStep} (hu : u ≠ s.txn) :
    (l.take s).modeOf q u = l.modeOf q u := by
  cases s with
  | action a =>
    rcases a.tries_cases with ⟨t, p, m, ha⟩ | ⟨p, t, rfl⟩ | ⟨t, rfl⟩
    · have ht : u ≠ t := LockAction.txn_of_tries ha ▸ hu
      rw [take, modeOf_act_of_tries ha, modeOf_attempt, if_neg fun hc => ht hc.2.2]
    · simp only [take, act]
      rw [modeOf_release h, if_neg fun hc => hu hc.2]
    · simp only [take, act]
      rw [modeOf_releaseAll h, if_neg fun hc => hu hc.2]
  | disown t => rfl
  | drop t p =>
    simp only [take]
    rw [modeOf_drop h, if_neg fun hc => hu hc.2]
  | unlink t => rfl

theorem pagesOf_attempt_of_ne (hu : u ≠ t) : (l.attempt t p m).1.pagesOf u = l.pagesOf u := by
  rcases attempt_cases l t p m with ⟨_, e⟩ | ⟨_, ⟨_, _, e⟩ | ⟨_, ⟨_, e⟩ | ⟨_, _, e⟩ | ⟨_, _, e⟩⟩⟩ <;>
    rw [e]
  · rw [pagesOf_insert, if_neg hu]
  all_goals rfl

theorem pagesOf_release_of_ne (hu : u ≠ t) : (l.release p t).1.pagesOf u = l.pagesOf u := by
  rcases release_cases l p t with ⟨_, e⟩ | ⟨_, _, e⟩ <;> rw [e]
  unfold unindex
  dsimp only
  split
  · rw [pagesOf_erase, if_neg hu]
  · rw [pagesOf_insert, if_neg hu]

theorem pagesOf_act_of_ne (hu : u ≠ a.txn) : (l.act a).pagesOf u = l.pagesOf u := by
  rcases a.tries_cases with ⟨t, p, m, ha⟩ | ⟨p, t, rfl⟩ | ⟨t, rfl⟩
  · have ht : u ≠ t := LockAction.txn_of_tries ha ▸ hu
    have hsame : (l.act a).pagesOf u = (l.attempt t p m).1.pagesOf u := by
      unfold pagesOf
      rw [(locks_of_tries ha).2]
    rw [hsame, pagesOf_attempt_of_ne ht]
  · exact pagesOf_release_of_ne hu
  · exact pagesOf_erase.trans (if_neg hu)

theorem mem_pagesOf_act_of_ne (hu : u ≠ a.txn) : q ∈ (l.act a).pagesOf u ↔ q ∈ l.pagesOf u := by
  rw [pagesOf_act_of_ne hu]

theorem Listed.act (h : l.Listed u) (hs : ∀ p, (l.holders p).Sound) (a : LockAction) :
    (l.act a).Listed u := by
  rcases a.tries_cases with ⟨t, p, m, ha⟩ | ⟨p, t, rfl⟩ | ⟨t, rfl⟩
  · obtain ⟨htable, hheld⟩ := locks_of_tries (l := l) ha
    have hlisted := h.attempt (t := t) (p := p) (m := m)
    unfold Listed pagesOf modeOf LockManager.holders at hlisted ⊢
    rw [htable, hheld]
    exact hlisted
  · exact h.release hs
  · exact h.releaseAll hs

theorem lockedPages_sorted (l : LockManager) (t : TxnId) :
    (l.lockedPages t).Pairwise fun p q => compare p q = .lt :=
  Std.TreeSet.ordered_toList

theorem lockedPages_eq_nil_iff : l.lockedPages t = [] ↔ ∀ q, q ∉ l.pagesOf t := by
  rw [List.eq_nil_iff_forall_not_mem]
  exact forall_congr' fun q => not_congr mem_lockedPages

end LockManager

/-! ## Giving up all pages, with other threads in between -/

/-- The locks, and the pages that are left of those that transactions are giving up. -/
structure Parting where
  locks : LockManager
  left : List (TxnId × PageId) := []

namespace Parting

open LockManager

variable {x : Parting} {t u : TxnId} {p q : PageId} {s : LockStep}

def take (x : Parting) (s : LockStep) : Parting where
  locks := x.locks.take s
  left := match s with
    | .disown t => (x.locks.lockedPages t).map (t, ·) ++ x.left
    | .drop t p => x.left.filter (· ≠ (t, p))
    | _ => x.left

/-- A transaction that is giving up all its pages makes no other call until nothing is left. -/
def Allows (x : Parting) : LockStep → Prop
  | .drop t p => (t, p) ∈ x.left
  | s => ∀ r ∈ x.left, r.1 ≠ s.txn

instance : DecidablePred x.Allows
  | .action a => inferInstanceAs (Decidable (∀ r ∈ x.left, r.1 ≠ a.txn))
  | .disown t => inferInstanceAs (Decidable (∀ r ∈ x.left, r.1 ≠ t))
  | .drop t p => inferInstanceAs (Decidable ((t, p) ∈ x.left))
  | .unlink t => inferInstanceAs (Decidable (∀ r ∈ x.left, r.1 ≠ t))

/-- The states that the threads can come to. -/
inductive Run (c : LockConfig) : Parting → Prop where
  | start : Run c { locks := { config := c } }
  | take {x : Parting} (s : LockStep) : Run c x → x.Allows s → Run c (x.take s)

/-- What a transaction holds is listed, or left to be given up, but not some of both. -/
structure Indexed (x : Parting) : Prop where
  holders : ∀ p, (x.locks.holders p).Sound
  held : ∀ t p, p ∈ x.locks.pagesOf t ∨ (t, p) ∈ x.left ↔ (x.locks.modeOf p t).isSome
  apart : ∀ t p, (t, p) ∈ x.left → ∀ q, q ∉ x.locks.pagesOf t

theorem Indexed.listed (h : x.Indexed) (ht : ∀ r ∈ x.left, r.1 ≠ t) : x.locks.Listed t := by
  intro p
  rw [← h.held]
  exact (or_iff_left fun hl => ht _ hl rfl).symm

theorem Indexed.action (h : x.Indexed) {a : LockAction} (ha : ∀ r ∈ x.left, r.1 ≠ a.txn) :
    (x.take (.action a)).Indexed where
  holders := holders_take h.holders (.action a)
  held t p := by
    by_cases ht : t = a.txn
    · subst ht
      exact (or_iff_left fun hl => ha _ hl rfl).trans ((h.listed ha).act h.holders a p)
    · have hmode := modeOf_take_of_ne (s := .action a) (q := p) h.holders ht
      simp only [take, LockManager.take] at hmode ⊢
      rw [hmode, mem_pagesOf_act_of_ne ht]
      exact h.held t p
  apart t p hl q := by
    have ht : t ≠ a.txn := ha _ hl
    exact mt (mem_pagesOf_act_of_ne ht).1 (h.apart t p hl q)

theorem mem_left_disown :
    (u, p) ∈ (x.take (.disown t)).left ↔
      (u = t ∧ p ∈ x.locks.pagesOf t) ∨ (u, p) ∈ x.left := by
  simp only [take, List.mem_append, List.mem_map, Prod.mk.injEq]
  refine or_congr_left ⟨?_, ?_⟩
  · rintro ⟨q, hq, rfl, rfl⟩
    exact ⟨rfl, mem_lockedPages.1 hq⟩
  · rintro ⟨rfl, hp⟩
    exact ⟨p, mem_lockedPages.2 hp, rfl, rfl⟩

theorem pagesOf_disown :
    (x.take (.disown t)).locks.pagesOf u = if u = t then ∅ else x.locks.pagesOf u :=
  pagesOf_erase

theorem Indexed.disown (h : x.Indexed) (hx : ∀ r ∈ x.left, r.1 ≠ t) :
    (x.take (.disown t)).Indexed where
  holders := h.holders
  held u p := by
    rw [mem_left_disown, pagesOf_disown]
    change _ ↔ (x.locks.modeOf p u).isSome
    rw [← h.held]
    by_cases hu : u = t
    · subst hu
      have hno : (u, p) ∉ x.left := fun hl => hx _ hl rfl
      simp [hno]
    · simp [hu]
  apart u p hl q := by
    rw [pagesOf_disown]
    by_cases hu : u = t
    · simp [hu]
    · rw [if_neg hu]
      rcases mem_left_disown.1 hl with ⟨hut, _⟩ | hl
      · exact absurd hut hu
      · exact h.apart u p hl q

theorem mem_left_drop :
    (u, q) ∈ (x.take (.drop t p)).left ↔ (u, q) ∈ x.left ∧ ¬ (q = p ∧ u = t) := by
  simp only [take, List.mem_filter, decide_eq_true_eq, ne_eq, Prod.mk.injEq, and_comm (a := u = t)]

theorem Indexed.drop (h : x.Indexed) (hx : (t, p) ∈ x.left) : (x.take (.drop t p)).Indexed where
  holders := holders_drop h.holders
  held u q := by
    rw [mem_left_drop]
    change q ∈ x.locks.pagesOf u ∨ _ ↔ ((LockManager.drop t x.locks p).modeOf q u).isSome
    rw [modeOf_drop h.holders]
    by_cases hqu : q = p ∧ u = t
    · obtain ⟨rfl, rfl⟩ := hqu
      simp [h.apart _ _ hx q]
    · simp only [hqu, not_false_eq_true, and_true, if_false]
      exact h.held u q
  apart u q hl := h.apart u q (mem_left_drop.1 hl).1

/-- Who gives up the last page that is left holds none. -/
theorem Indexed.modeOf_last (h : x.Indexed) (hx : (t, p) ∈ x.left)
    (hlast : ∀ q, (t, q) ∈ x.left → q = p) : (x.take (.drop t p)).locks.modeOf q t = none := by
  rw [← Option.not_isSome_iff_eq_none, ← (h.drop hx).held, mem_left_drop]
  rintro (hq | ⟨hl, hne⟩)
  · exact h.apart t p hx q hq
  · exact hne ⟨hlast q hl, rfl⟩

theorem Indexed.take (h : x.Indexed) (hs : x.Allows s) : (x.take s).Indexed := by
  cases s with
  | action a => exact h.action hs
  | disown t => exact h.disown hs
  | drop t p => exact h.drop hs
  | unlink t => exact ⟨h.holders, h.held, h.apart⟩

theorem Run.indexed {c : LockConfig} (h : Run c x) : x.Indexed := by
  induction h with
  | start =>
    have hstart := sound_start c
    refine ⟨hstart.holders, fun t p => ?_, fun t p hl => absurd hl List.not_mem_nil⟩
    exact (or_iff_left List.not_mem_nil).trans (hstart.indexed t p)
  | take s _ hs ih => exact ih.take hs

end Parting

namespace LockManager

theorem Sound.after {l : LockManager} (h : l.Sound) (actions : List LockAction) :
    (l.after (actions.map .action)).Sound := by
  induction actions generalizing l with
  | nil => exact h
  | cons a rest ih => exact ih (h.act a)

/-- Wherever whole calls have led, a transaction's pages are listed in strictly increasing order and
are those that it holds; so giving up all of them leaves it none, and everyone else what they held.
If other threads take steps while it gives up one page after the other, what it holds is listed or
left to be given up, and none of it is listed while some is left. It holds none when the last one is
given up, and nobody's modes are changed by a step of another transaction. -/
theorem index_agrees (c : LockConfig) :
    (∀ actions : List LockAction,
      (∀ t p, p ∈ (reached c (actions.map .action)).lockedPages t ↔
        (reached c (actions.map .action)).modeOf p t ≠ none) ∧
      (∀ t, ((reached c (actions.map .action)).lockedPages t).Pairwise fun p q =>
        compare p q = .lt) ∧
      ∀ t p u, ((reached c (actions.map .action)).releaseAll t).modeOf p u =
        if u = t then none else (reached c (actions.map .action)).modeOf p u) ∧
    ∀ x, Parting.Run c x →
      (∀ t p, p ∈ x.locks.lockedPages t ∨ (t, p) ∈ x.left ↔ x.locks.modeOf p t ≠ none) ∧
      (∀ t, (x.locks.lockedPages t).Pairwise fun p q => compare p q = .lt) ∧
      (∀ t p, (t, p) ∈ x.left → x.locks.lockedPages t = [] ∧
        ((∀ q, (t, q) ∈ x.left → q = p) → ∀ q, (x.take (.drop t p)).locks.modeOf q t = none)) ∧
      ∀ s p u, u ≠ s.txn → (x.take s).locks.modeOf p u = x.locks.modeOf p u := by
  refine ⟨fun actions => ?_, fun x hx => ?_⟩
  · have hsound : (reached c (actions.map .action)).Sound := (sound_start c).after actions
    refine ⟨fun t p => ?_, fun t => lockedPages_sorted _ t, fun t p u => hsound.modeOf_releaseAll⟩
    rw [mem_lockedPages, hsound.indexed, Option.isSome_iff_ne_none]
  · have h := hx.indexed
    refine ⟨fun t p => ?_, fun t => lockedPages_sorted _ t, fun t p hl => ⟨?_, fun hlast q => ?_⟩,
      fun s p u hu => modeOf_take_of_ne h.holders hu⟩
    · rw [mem_lockedPages, h.held, Option.isSome_iff_ne_none]
    · exact lockedPages_eq_nil_iff.2 (h.apart t p hl)
    · exact h.modeOf_last hl hlast

/-- A transaction is raised on one of its two pages and then gives up all of them. Another one comes
in before the last page. -/
def parting : Parting :=
  [.action (.request ⟨1⟩ ⟨⟨0⟩, 1⟩ .shared), .action (.request ⟨1⟩ ⟨⟨0⟩, 0⟩ .shared),
    .action (.request ⟨1⟩ ⟨⟨0⟩, 1⟩ .exclusive), .disown ⟨1⟩, .drop ⟨1⟩ ⟨⟨0⟩, 0⟩,
    .action (.request ⟨2⟩ ⟨⟨0⟩, 0⟩ .exclusive)].foldl Parting.take { locks := {} }

theorem run_parting : Parting.Run {} parting :=
  .take _ (.take _ (.take _ (.take _ (.take _ (.take _ .start (by decide +kernel))
    (by decide +kernel)) (by decide +kernel)) (by decide +kernel)) (by decide +kernel))
    (by decide +kernel)

/-- The last page goes with its exclusive lock, and the other transaction keeps what it was granted. -/
theorem parting_ends :
    ((⟨1⟩ : TxnId), (⟨⟨0⟩, 1⟩ : PageId)) ∈ parting.left ∧
      (∀ q, (parting.take (.drop ⟨1⟩ ⟨⟨0⟩, 1⟩)).locks.modeOf q ⟨1⟩ = none) ∧
      (parting.take (.drop ⟨1⟩ ⟨⟨0⟩, 1⟩)).locks.modeOf ⟨⟨0⟩, 0⟩ ⟨2⟩ =
        parting.locks.modeOf ⟨⟨0⟩, 0⟩ ⟨2⟩ := by
  have hleft : parting.left = [(⟨1⟩, ⟨⟨0⟩, 1⟩)] := by decide +kernel
  obtain ⟨_, _, hlast, hother⟩ := (index_agrees {}).2 parting run_parting
  refine ⟨by rw [hleft]; exact List.mem_singleton_self _, ?_, hother _ _ _ (by decide)⟩
  refine (hlast _ _ (by rw [hleft]; exact List.mem_singleton_self _)).2 fun q hq => ?_
  rw [hleft, List.mem_singleton] at hq
  exact congrArg Prod.snd hq

end LockManager
end PageStore

import PageStore.Lock.Manager
import Mathlib.Data.List.Nodup

/-!
# PageStore.Proofs.Lock.Modes

What the operations of the lock manager do to the mode in which each transaction holds each page.

* `Holders.Sound`: an exclusive holder is alone and no shared holder is listed twice.
  `LockManager.Sound` adds that the index of each transaction lists the pages it holds. Every
  operation keeps it.
* `attempt_granted_iff`: an attempt is granted exactly if no other transaction holds the page in a
  mode that is incompatible with it (`Free`).
* `modeOf_attempt`, `modeOf_release`, `modeOf_releaseAll`: the modes afterwards. A transaction's
  modes are changed by its own operations alone.
-/

namespace PageStore

namespace LockMode

variable {a b c : LockMode}

theorem covers_trans (hab : a.covers b = true) (hbc : b.covers c = true) : a.covers c = true := by
  cases a <;> cases b <;> cases c <;> simp_all [covers]

theorem eq_exclusive_of_covers (h : a.covers .exclusive = true) : a = .exclusive := by
  cases a with
  | shared => cases h
  | exclusive => rfl

end LockMode

namespace Holders

/-- An exclusive holder is alone, and shared holders are listed once. -/
structure Sound (h : Holders) : Prop where
  alone : ∀ t, h.exclusive = some t → h.shared = []
  once : h.shared.Nodup

variable {h h' : Holders} {t u : TxnId} {m : LockMode}

theorem sound_none : Sound {} := ⟨fun _ _ => rfl, List.nodup_nil⟩

@[simp] theorem modeOf_none (t : TxnId) : modeOf {} t = none := by simp [modeOf]

theorem modeOf_exclusive_iff : h.modeOf t = some .exclusive ↔ h.exclusive = some t := by
  unfold modeOf
  split <;> simp_all

theorem modeOf_isSome_iff : (h.modeOf t).isSome ↔ h.exclusive = some t ∨ t ∈ h.shared := by
  unfold modeOf
  split
  · simp_all
  · split <;> simp_all

theorem modeOf_eq_none_iff : h.modeOf t = none ↔ h.exclusive ≠ some t ∧ t ∉ h.shared := by
  rw [← Option.not_isSome_iff_eq_none, modeOf_isSome_iff, not_or]

theorem modeOf_of_shared (ht : t ∈ h.shared) (hx : h.exclusive ≠ some t) :
    h.modeOf t = some .shared := by
  simp [modeOf, ht, hx]

theorem mem_blockers : u ∈ h.blockers t ↔ u ≠ t ∧ (h.modeOf u).isSome := by
  unfold blockers
  rw [List.mem_filter, List.mem_append, Option.mem_toList, modeOf_isSome_iff]
  simp only [decide_eq_true_eq]
  exact And.comm

theorem Sound.eq_of_exclusive (hs : h.Sound) (ht : h.modeOf t = some .exclusive)
    (hu : (h.modeOf u).isSome) : u = t := by
  rw [modeOf_exclusive_iff] at ht
  rw [modeOf_isSome_iff, ht, hs.alone t ht] at hu
  rcases hu with hu | hu
  · exact (Option.some.inj hu).symm
  · exact absurd hu List.not_mem_nil

/-- No other transaction is in the way of a request. -/
def Free (h : Holders) (t : TxnId) (m : LockMode) : Prop :=
  ∀ u k, u ≠ t → h.modeOf u = some k → k.compatible m = true

theorem Sound.free_of_covers (hs : h.Sound) (hc : (h.modeOf t).any (·.covers m) = true) :
    h.Free t m := by
  intro u k hne hu
  cases ht : h.modeOf t with
  | none => rw [ht] at hc; cases hc
  | some j =>
    rw [ht] at hc
    cases j with
    | exclusive => exact absurd (hs.eq_of_exclusive ht (by rw [hu]; rfl)) hne
    | shared =>
      cases m with
      | exclusive => cases hc
      | shared =>
        cases k with
        | shared => rfl
        | exclusive => exact absurd (hs.eq_of_exclusive hu (by rw [ht]; rfl)) (Ne.symm hne)

theorem grant?_shared_eq_some (hg : h.grant? t .shared = some h') :
    h.exclusive = none ∧
      h' = { h with shared := if t ∈ h.shared then h.shared else h.shared ++ [t] } := by
  unfold grant? at hg
  cases hx : h.exclusive with
  | none =>
    simp only [hx, Option.isSome_none, Bool.false_eq_true, if_false, Option.some.injEq] at hg
    exact ⟨rfl, hg.symm⟩
  | some u => simp [hx] at hg

theorem grant?_exclusive_eq_some (hg : h.grant? t .exclusive = some h') :
    h.exclusive = none ∧ (h.shared = [] ∨ h.shared = [t]) ∧
      h' = { exclusive := some t, shared := [] } := by
  unfold grant? at hg
  cases hx : h.exclusive with
  | none =>
    simp only [hx, Option.isSome_none, Bool.false_eq_true, if_false] at hg
    by_cases hsh : h.shared = [] ∨ h.shared = [t]
    · rw [if_pos hsh, Option.some.injEq] at hg
      exact ⟨rfl, hsh, hg.symm⟩
    · rw [if_neg hsh] at hg
      cases hg
  | some u => simp [hx] at hg

theorem not_compatible_exclusive (k : LockMode) : k.compatible .exclusive = false := by
  cases k <;> rfl

theorem Free.exclusive_eq_none (hf : h.Free t m)
    (hc : (h.modeOf t).any (·.covers m) = false) : h.exclusive = none := by
  cases he : h.exclusive with
  | none => rfl
  | some u =>
    have hu : h.modeOf u = some .exclusive := modeOf_exclusive_iff.2 he
    by_cases hne : u = t
    · subst hne
      rw [hu] at hc
      cases m <;> cases hc
    · cases hf u .exclusive hne hu

theorem Free.shared_eq (hf : h.Free t .exclusive) (hs : h.Sound) (hx : h.exclusive = none) :
    h.shared = [] ∨ h.shared = [t] := by
  have hall : ∀ u ∈ h.shared, u = t := by
    intro u hu
    by_contra hne
    have := hf u .shared hne (modeOf_of_shared hu (by rw [hx]; simp))
    cases this
  match hl : h.shared, hs.once with
  | [], _ => exact .inl rfl
  | [u], _ => exact .inr (by rw [hall u (by rw [hl]; simp)])
  | u :: v :: rest, hnd =>
    have hu := hall u (by rw [hl]; simp)
    have hv := hall v (by rw [hl]; simp)
    simp [hu, hv] at hnd

/-- A request that the held mode does not cover is granted exactly if nobody is in its way. -/
theorem Sound.grant?_isSome_iff (hs : h.Sound) (hc : (h.modeOf t).any (·.covers m) = false) :
    (h.grant? t m).isSome ↔ h.Free t m := by
  constructor
  · intro hg u k hne hu
    obtain ⟨h', hg⟩ := Option.isSome_iff_exists.1 hg
    cases m with
    | shared =>
      obtain ⟨hx, _⟩ := grant?_shared_eq_some hg
      cases k with
      | shared => rfl
      | exclusive =>
        rw [modeOf_exclusive_iff, hx] at hu
        cases hu
    | exclusive =>
      obtain ⟨hx, hsh, _⟩ := grant?_exclusive_eq_some hg
      have hin := modeOf_isSome_iff.1 (by rw [hu]; rfl)
      rw [hx] at hin
      rcases hsh with hsh | hsh <;> simp [hsh, hne] at hin
  · intro hf
    have hx := hf.exclusive_eq_none hc
    cases m with
    | shared => simp [grant?, hx]
    | exclusive => simp [grant?, hx, hf.shared_eq hs hx]

theorem modeOf_grant (hg : h.grant? t m = some h') (u : TxnId) :
    h'.modeOf u = if u = t then some m else h.modeOf u := by
  cases m with
  | shared =>
    obtain ⟨hx, rfl⟩ := grant?_shared_eq_some hg
    by_cases hu : u = t
    · subst hu
      by_cases hin : u ∈ h.shared <;> simp [modeOf, hx, hin]
    · by_cases hin : t ∈ h.shared <;> simp [modeOf, hx, hin, hu]
  | exclusive =>
    obtain ⟨hx, hsh, rfl⟩ := grant?_exclusive_eq_some hg
    by_cases hu : u = t
    · simp [modeOf, hu]
    · have hu' : t ≠ u := fun e => hu e.symm
      rcases hsh with hsh | hsh <;> simp [modeOf, hx, hsh, hu, hu']

theorem Sound.grant (hs : h.Sound) (hg : h.grant? t m = some h') : h'.Sound := by
  cases m with
  | shared =>
    obtain ⟨hx, rfl⟩ := grant?_shared_eq_some hg
    refine ⟨fun u he => ?_, ?_⟩
    · rw [hx] at he
      cases he
    · dsimp only
      by_cases hin : t ∈ h.shared
      · rw [if_pos hin]
        exact hs.once
      · rw [if_neg hin]
        refine List.nodup_append.2 ⟨hs.once, List.nodup_singleton t, fun a ha b hb e => ?_⟩
        rw [List.mem_singleton] at hb
        rw [e, hb] at ha
        exact hin ha
  | exclusive =>
    obtain ⟨_, _, rfl⟩ := grant?_exclusive_eq_some hg
    exact ⟨fun _ _ => rfl, List.nodup_nil⟩

theorem release?_eq_some (hr : h.release? t = some h') :
    (h.exclusive = some t ∧ h' = { h with exclusive := none }) ∨
      (h.exclusive ≠ some t ∧ t ∈ h.shared ∧ h' = { h with shared := h.shared.erase t }) := by
  unfold release? at hr
  by_cases hx : h.exclusive = some t
  · rw [if_pos hx, Option.some.injEq] at hr
    exact .inl ⟨hx, hr.symm⟩
  · rw [if_neg hx] at hr
    by_cases hin : t ∈ h.shared
    · rw [if_pos hin, Option.some.injEq] at hr
      exact .inr ⟨hx, hin, hr.symm⟩
    · rw [if_neg hin] at hr
      cases hr

theorem release?_eq_none_iff : h.release? t = none ↔ h.modeOf t = none := by
  rw [modeOf_eq_none_iff]
  unfold release?
  split
  · simp_all
  · split <;> simp_all

theorem Sound.modeOf_release (hs : h.Sound) (hr : h.release? t = some h') (u : TxnId) :
    h'.modeOf u = if u = t then none else h.modeOf u := by
  rcases release?_eq_some hr with ⟨hx, rfl⟩ | ⟨hx, _, rfl⟩
  · have hsh := hs.alone t hx
    by_cases hu : u = t
    · simp [modeOf, hu, hsh]
    · have hu' : t ≠ u := fun e => hu e.symm
      simp [modeOf, hx, hsh, hu, hu']
  · by_cases hu : u = t
    · subst hu
      simp [modeOf, hx, hs.once.mem_erase_iff]
    · simp [modeOf, hs.once.mem_erase_iff, hu]

theorem Sound.release (hs : h.Sound) (hr : h.release? t = some h') : h'.Sound := by
  rcases release?_eq_some hr with ⟨hx, rfl⟩ | ⟨_, hin, rfl⟩
  · refine ⟨fun u e => ?_, hs.once⟩
    cases e
  · refine ⟨fun u he => ?_, hs.once.erase t⟩
    rw [hs.alone u he] at hin
    exact absurd hin List.not_mem_nil

end Holders

namespace LockManager

/-- Sound holders of every page, and an index that lists the pages of each transaction. -/
structure Sound (l : LockManager) : Prop where
  holders : ∀ p, (l.holders p).Sound
  indexed : ∀ t p, p ∈ l.pagesOf t ↔ (l.modeOf p t).isSome

/-- The index of a transaction lists the pages that it holds. -/
def Listed (l : LockManager) (t : TxnId) : Prop :=
  ∀ p, p ∈ l.pagesOf t ↔ (l.modeOf p t).isSome

variable {l : LockManager} {t u : TxnId} {p q : PageId} {m : LockMode}

/-- No other transaction is in the way of a request for a page. -/
def Free (l : LockManager) (p : PageId) (t : TxnId) (m : LockMode) : Prop :=
  (l.holders p).Free t m

theorem free_iff :
    l.Free p t m ↔ ∀ u k, u ≠ t → l.modeOf p u = some k → k.compatible m = true := Iff.rfl

theorem holders_insert {c : LockConfig} {h : Holders} {held : Std.TreeMap TxnId (Std.TreeSet PageId)}
    {g : WaitGraph} {ss : List Sleeper} :
    holders ⟨c, l.table.insert p h, held, g, ss⟩ q = if q = p then h else l.holders q := by
  unfold holders
  rw [Std.TreeMap.getD_insert]
  by_cases hq : q = p
  · simp [hq]
  · have hq' : p ≠ q := fun e => hq e.symm
    simp [hq, hq']

theorem pagesOf_insert {c : LockConfig} {table : Std.TreeMap PageId Holders}
    {pages : Std.TreeSet PageId} {g : WaitGraph} {ss : List Sleeper} :
    pagesOf ⟨c, table, l.held.insert t pages, g, ss⟩ u = if u = t then pages else l.pagesOf u := by
  unfold pagesOf
  rw [Std.TreeMap.getD_insert]
  by_cases hu : u = t
  · simp [hu]
  · have hu' : t ≠ u := fun e => hu e.symm
    simp [hu, hu']

theorem pagesOf_erase {c : LockConfig} {table : Std.TreeMap PageId Holders} {g : WaitGraph}
    {ss : List Sleeper} :
    pagesOf ⟨c, table, l.held.erase t, g, ss⟩ u = if u = t then ∅ else l.pagesOf u := by
  unfold pagesOf
  rw [Std.TreeMap.getD_erase]
  by_cases hu : u = t
  · simp [hu]
  · have hu' : t ≠ u := fun e => hu e.symm
    simp [hu, hu']

theorem sound_start (c : LockConfig) : Sound { config := c } where
  holders p := by
    have : holders { config := c } p = {} := by simp [holders]
    rw [this]
    exact Holders.sound_none
  indexed t p := by simp [pagesOf, modeOf, holders]

theorem modeOf_start (c : LockConfig) (p : PageId) (t : TxnId) :
    modeOf { config := c } p t = none := by
  simp [modeOf, holders]

/-- Who holds a page exclusively is its only holder. -/
theorem Sound.eq_of_exclusive (h : l.Sound) (ht : l.modeOf p t = some .exclusive)
    (hu : l.modeOf p u ≠ none) : u = t :=
  (h.holders p).eq_of_exclusive ht (Option.isSome_iff_ne_none.2 hu)

/-! ## Attempts -/

theorem attempt_cases (l : LockManager) (t : TxnId) (p : PageId) (m : LockMode) :
    ((l.modeOf p t).any (·.covers m) = true ∧ l.attempt t p m = (l, .granted)) ∨
    (l.modeOf p t).any (·.covers m) = false ∧
      ((∃ h, (l.holders p).grant? t m = some h ∧
        l.attempt t p m =
          ({ l with
              table := l.table.insert p h
              held := l.held.insert t ((l.pagesOf t).insert p) }, .granted)) ∨
      (l.holders p).grant? t m = none ∧
        ((l.config.detectDeadlocks = false ∧ l.attempt t p m = (l, .asleep)) ∨
        (l.config.detectDeadlocks = true ∧
          (l.graph.setWaits t p ((l.holders p).blockers t)).hasCycleThrough t = true ∧
          l.attempt t p m =
            ({ l with graph := (l.graph.setWaits t p ((l.holders p).blockers t)).clearWaits t },
              .refused)) ∨
        (l.config.detectDeadlocks = true ∧
          (l.graph.setWaits t p ((l.holders p).blockers t)).hasCycleThrough t = false ∧
          l.attempt t p m =
            ({ l with graph := l.graph.setWaits t p ((l.holders p).blockers t) }, .asleep)))) := by
  unfold attempt modeOf
  by_cases hc : ((l.holders p).modeOf t).any (·.covers m) = true
  · left
    exact ⟨hc, by simp only [hc, if_true]⟩
  · right
    have hc' : ((l.holders p).modeOf t).any (·.covers m) = false := by simpa using hc
    refine ⟨hc', ?_⟩
    simp only [hc', Bool.false_eq_true, if_false]
    cases hg : (l.holders p).grant? t m with
    | some h => exact .inl ⟨h, rfl, rfl⟩
    | none =>
      refine .inr ⟨rfl, ?_⟩
      cases hd : l.config.detectDeadlocks with
      | false => exact .inl ⟨rfl, rfl⟩
      | true =>
        right
        cases hy : (l.graph.setWaits t p ((l.holders p).blockers t)).hasCycleThrough t with
        | true => exact .inl ⟨rfl, rfl, by simp⟩
        | false => exact .inr ⟨rfl, rfl, by simp⟩

@[simp] theorem attempt_config : (l.attempt t p m).1.config = l.config := by
  rcases attempt_cases l t p m with ⟨_, e⟩ | ⟨_, ⟨_, _, e⟩ | ⟨_, ⟨_, e⟩ | ⟨_, _, e⟩ | ⟨_, _, e⟩⟩⟩ <;>
    rw [e]

@[simp] theorem attempt_sleepers : (l.attempt t p m).1.sleepers = l.sleepers := by
  rcases attempt_cases l t p m with ⟨_, e⟩ | ⟨_, ⟨_, _, e⟩ | ⟨_, ⟨_, e⟩ | ⟨_, _, e⟩ | ⟨_, _, e⟩⟩⟩ <;>
    rw [e]

/-- An attempt is granted exactly if no other transaction is in the way. -/
theorem attempt_granted_iff (hs : (l.holders p).Sound) :
    (l.attempt t p m).2 = .granted ↔ l.Free p t m := by
  rcases attempt_cases l t p m with ⟨hc, e⟩ | ⟨hc, ⟨h', hg, e⟩ | ⟨hg, hrest⟩⟩
  · rw [e]
    exact iff_of_true rfl (hs.free_of_covers hc)
  · rw [e]
    exact iff_of_true rfl ((hs.grant?_isSome_iff hc).1 (by rw [hg]; rfl))
  · have hno : ¬ l.Free p t m := by
      intro hf
      have := (hs.grant?_isSome_iff hc).2 hf
      rw [hg] at this
      cases this
    rcases hrest with ⟨_, e⟩ | ⟨_, _, e⟩ | ⟨_, _, e⟩ <;> rw [e] <;> exact iff_of_false (by simp) hno

theorem Sound.attempt_granted_iff (h : l.Sound) :
    (l.attempt t p m).2 = .granted ↔ l.Free p t m :=
  LockManager.attempt_granted_iff (h.holders p)

theorem max_of_covers {a b : LockMode} (h : a.covers b = true) : a.max b = a := by
  cases a <;> cases b <;> first | rfl | cases h

theorem max_of_not_covers {a b : LockMode} (h : a.covers b = false) : a.max b = b := by
  cases a <;> cases b <;> first | rfl | cases h

/-- The mode of a transaction that is granted another one. -/
def raised (held : Option LockMode) (m : LockMode) : LockMode := held.elim m (·.max m)

theorem raised_covers (held : Option LockMode) (m : LockMode) :
    (raised held m).covers m = true := by
  cases held with
  | none => exact m.covers_self
  | some k => exact (LockMode.covers_max k m).2

theorem raised_eq_self {held : Option LockMode} {m : LockMode}
    (h : held.any (·.covers m) = true) : some (raised held m) = held := by
  cases held with
  | none => cases h
  | some k => exact congrArg some (max_of_covers h)

theorem raised_eq_requested {held : Option LockMode} {m : LockMode}
    (h : held.any (·.covers m) = false) : raised held m = m := by
  cases held with
  | none => rfl
  | some k => exact max_of_not_covers h

/-- The modes after an attempt: only a grant changes one, to the stronger of the old mode and the
requested one. -/
theorem modeOf_attempt :
    (l.attempt t p m).1.modeOf q u =
      if (l.attempt t p m).2 = .granted ∧ q = p ∧ u = t then some (raised (l.modeOf p t) m)
      else l.modeOf q u := by
  rcases attempt_cases l t p m with ⟨hc, e⟩ | ⟨hc, ⟨h', hg, e⟩ | ⟨hg, hrest⟩⟩
  · rw [e, raised_eq_self hc]
    by_cases hqu : q = p ∧ u = t
    · obtain ⟨rfl, rfl⟩ := hqu
      simp
    · simp [hqu]
  · rw [e, raised_eq_requested hc]
    unfold modeOf
    rw [holders_insert]
    by_cases hq : q = p
    · subst hq
      rw [if_pos rfl, Holders.modeOf_grant hg]
      simp
    · simp [hq]
  · rcases hrest with ⟨_, e⟩ | ⟨_, _, e⟩ | ⟨_, _, e⟩ <;> rw [e] <;> simp [modeOf, holders]

theorem holders_attempt (h : ∀ p, (l.holders p).Sound) (q : PageId) :
    ((l.attempt t p m).1.holders q).Sound := by
  rcases attempt_cases l t p m with ⟨_, e⟩ | ⟨_, ⟨h', hg, e⟩ | ⟨_, hrest⟩⟩
  · rw [e]
    exact h q
  · rw [e, holders_insert]
    by_cases hq : q = p
    · rw [if_pos hq]
      exact (h p).grant hg
    · rw [if_neg hq]
      exact h q
  · rcases hrest with ⟨_, e⟩ | ⟨_, _, e⟩ | ⟨_, _, e⟩ <;> rw [e] <;> exact h q

theorem Listed.attempt (h : l.Listed u) : (l.attempt t p m).1.Listed u := by
  intro q
  rcases attempt_cases l t p m with ⟨_, e⟩ | ⟨_, ⟨h', hg, e⟩ | ⟨_, hrest⟩⟩
  · rw [e]
    exact h q
  · have hmode := modeOf_attempt (l := l) (t := t) (p := p) (m := m) (q := q) (u := u)
    rw [e] at hmode ⊢
    rw [hmode, pagesOf_insert]
    by_cases hu : u = t
    · subst hu
      rw [if_pos rfl, Std.TreeSet.mem_insert]
      by_cases hq : q = p
      · simp [hq]
      · have hq' : p ≠ q := fun e => hq e.symm
        simp [hq, hq', h q]
    · simp [hu, h q]
  · rcases hrest with ⟨_, e⟩ | ⟨_, _, e⟩ | ⟨_, _, e⟩ <;> rw [e] <;> exact h q

theorem Sound.attempt (h : l.Sound) : (l.attempt t p m).1.Sound :=
  ⟨holders_attempt h.holders, fun u => Listed.attempt (h.indexed u)⟩

/-! ## Giving up pages -/

theorem mem_unindex (l : LockManager) (p : PageId) (t u : TxnId) (q : PageId) :
    q ∈ (l.unindex p t).getD u ∅ ↔ q ∈ l.pagesOf u ∧ ¬ (u = t ∧ q = p) := by
  have hmem : ∀ q, q ∈ (l.pagesOf t).erase p ↔ q ≠ p ∧ q ∈ l.pagesOf t := by
    intro q
    rw [Std.TreeSet.mem_erase]
    simp only [ne_eq, Std.LawfulEqCmp.compare_eq_iff_eq, eq_comm (a := p)]
  unfold unindex
  dsimp only
  generalize (l.pagesOf t).erase p = left at hmem
  by_cases hu : u = t
  · subst hu
    cases he : left.isEmpty with
    | true =>
      have hno : q ∉ left := by
        exact Std.TreeSet.not_mem_of_isEmpty he
      rw [hmem] at hno
      simp only [if_true, Std.TreeMap.getD_erase_self, Std.TreeSet.not_mem_emptyc, false_iff]
      tauto
    | false =>
      rw [if_neg (by simp), Std.TreeMap.getD_insert_self, hmem]
      tauto
  · have hu' : t ≠ u := fun e => hu e.symm
    split <;> simp [pagesOf, hu, hu', Std.TreeMap.getD_insert, Std.TreeMap.getD_erase]

theorem release_cases (l : LockManager) (p : PageId) (t : TxnId) :
    (l.modeOf p t = none ∧ l.release p t = (l, false)) ∨
    ∃ h, (l.holders p).release? t = some h ∧
      l.release p t =
        ({ l with
            table := l.table.insert p h
            held := l.unindex p t
            graph := if l.config.detectDeadlocks then l.graph.releasePage p t else l.graph
            sleepers := l.sleepers.map (wakeOn p) }, true) := by
  unfold release
  cases hr : (l.holders p).release? t with
  | none => exact .inl ⟨Holders.release?_eq_none_iff.1 hr, rfl⟩
  | some h => exact .inr ⟨h, rfl, rfl⟩

theorem modeOf_release (h : ∀ p, (l.holders p).Sound) :
    (l.release p t).1.modeOf q u = if q = p ∧ u = t then none else l.modeOf q u := by
  rcases release_cases l p t with ⟨hn, e⟩ | ⟨h', hr, e⟩ <;> rw [e]
  · by_cases hqu : q = p ∧ u = t
    · obtain ⟨rfl, rfl⟩ := hqu
      simpa using hn
    · rw [if_neg hqu]
  · unfold modeOf
    rw [holders_insert]
    by_cases hq : q = p
    · subst hq
      rw [if_pos rfl, (h q).modeOf_release hr]
      simp
    · simp [hq]

theorem Sound.modeOf_release (h : l.Sound) :
    (l.release p t).1.modeOf q u = if q = p ∧ u = t then none else l.modeOf q u :=
  LockManager.modeOf_release h.holders

theorem holders_release (h : ∀ p, (l.holders p).Sound) (q : PageId) :
    ((l.release p t).1.holders q).Sound := by
  rcases release_cases l p t with ⟨_, e⟩ | ⟨h', hr, e⟩ <;> rw [e]
  · exact h q
  · rw [holders_insert]
    by_cases hq : q = p
    · rw [if_pos hq]
      exact (h p).release hr
    · rw [if_neg hq]
      exact h q

theorem Listed.release (h : l.Listed u) (hs : ∀ p, (l.holders p).Sound) :
    (l.release p t).1.Listed u := by
  intro q
  rw [LockManager.modeOf_release hs]
  rcases release_cases l p t with ⟨hn, e⟩ | ⟨h', hr, e⟩ <;> rw [e]
  · rw [h q]
    by_cases hqu : q = p ∧ u = t
    · obtain ⟨rfl, rfl⟩ := hqu
      simp [hn]
    · rw [if_neg hqu]
  · refine (mem_unindex l p t u q).trans ?_
    rw [h q]
    by_cases hqu : q = p ∧ u = t
    · simp [hqu]
    · rw [if_neg hqu]
      exact and_iff_left fun hc => hqu hc.symm

theorem Sound.release (h : l.Sound) : (l.release p t).1.Sound :=
  ⟨holders_release h.holders, fun u => Listed.release (h.indexed u) h.holders⟩

/-- Giving up a list of pages: what each step does, done for all of them. -/
theorem foldl_drop (t : TxnId) (ps : List PageId) (l : LockManager) :
    (ps.foldl (drop t) l).config = l.config ∧ (ps.foldl (drop t) l).held = l.held ∧
      (ps.foldl (drop t) l).graph = l.graph ∧
      (ps.foldl (drop t) l).sleepers =
        l.sleepers.map fun s => if s.page ∈ ps then { s with woken := true } else s := by
  induction ps generalizing l with
  | nil => simp
  | cons p rest ih =>
    obtain ⟨hc, hh, hg, hs⟩ := ih (drop t l p)
    refine ⟨hc, hh, hg, ?_⟩
    rw [List.foldl_cons, hs]
    simp only [drop, List.map_map]
    refine List.map_congr_left fun s _ => ?_
    by_cases hp : s.page = p <;> by_cases hr : s.page ∈ rest <;> simp [wakeOn, hp, hr]

theorem modeOf_drop (h : ∀ p, (l.holders p).Sound) :
    (drop t l p).modeOf q u = if q = p ∧ u = t then none else l.modeOf q u := by
  unfold drop modeOf
  rw [holders_insert]
  by_cases hq : q = p
  · subst hq
    rw [if_pos rfl]
    cases hr : (l.holders q).release? t with
    | none =>
      have := Holders.release?_eq_none_iff.1 hr
      by_cases hu : u = t
      · simpa [hu] using this
      · simp [hu]
    | some h' =>
      rw [Option.getD_some, (h q).modeOf_release hr]
      simp
  · simp [hq]

theorem holders_drop (h : ∀ p, (l.holders p).Sound) (q : PageId) :
    ((drop t l p).holders q).Sound := by
  unfold drop
  rw [holders_insert]
  by_cases hq : q = p
  · subst hq
    rw [if_pos rfl]
    cases hr : (l.holders q).release? t with
    | none => exact h q
    | some h' => exact (h q).release hr
  · rw [if_neg hq]
    exact h q

theorem modeOf_foldl_drop (ps : List PageId) :
    ∀ {l : LockManager}, (∀ p, (l.holders p).Sound) →
      (∀ q u, (ps.foldl (drop t) l).modeOf q u =
        if q ∈ ps ∧ u = t then none else l.modeOf q u) ∧
      ∀ p, ((ps.foldl (drop t) l).holders p).Sound := by
  induction ps with
  | nil =>
    intro l h
    exact ⟨fun q u => by simp, h⟩
  | cons p rest ih =>
    intro l h
    obtain ⟨hmode, hsound⟩ := ih (l := drop t l p) (holders_drop h)
    refine ⟨fun q u => ?_, hsound⟩
    rw [List.foldl_cons, hmode, modeOf_drop h]
    by_cases hr : q ∈ rest <;> by_cases hq : q = p <;> by_cases hu : u = t <;> simp [hr, hq, hu]

theorem mem_lockedPages : p ∈ l.lockedPages t ↔ p ∈ l.pagesOf t := by
  unfold lockedPages
  rw [Std.TreeSet.mem_toList]

/-- Giving up all pages gives up those that the index lists. -/
theorem modeOf_releaseAll (hs : ∀ p, (l.holders p).Sound) :
    (l.releaseAll t).modeOf q u =
      if q ∈ l.lockedPages t ∧ u = t then none else l.modeOf q u :=
  (modeOf_foldl_drop (l.lockedPages t) hs).1 q u

theorem Listed.modeOf_releaseAll (h : l.Listed t) (hs : ∀ p, (l.holders p).Sound) :
    (l.releaseAll t).modeOf q u = if u = t then none else l.modeOf q u := by
  rw [LockManager.modeOf_releaseAll hs]
  by_cases hu : u = t
  · subst hu
    have hin : q ∈ l.lockedPages u ↔ (l.modeOf q u).isSome := mem_lockedPages.trans (h q)
    cases hm : l.modeOf q u with
    | none => simp
    | some k => simp [hin, hm]
  · simp [hu]

theorem Sound.modeOf_releaseAll (h : l.Sound) :
    (l.releaseAll t).modeOf q u = if u = t then none else l.modeOf q u :=
  Listed.modeOf_releaseAll (h.indexed t) h.holders

theorem mem_pagesOf_releaseAll : q ∈ (l.releaseAll t).pagesOf u ↔ q ∈ l.pagesOf u ∧ u ≠ t := by
  unfold LockManager.releaseAll
  dsimp only
  rw [pagesOf_erase]
  by_cases hu : u = t <;> simp [hu]

theorem Listed.releaseAll (h : l.Listed u) (hs : ∀ p, (l.holders p).Sound) :
    (l.releaseAll t).Listed u := by
  intro q
  rw [mem_pagesOf_releaseAll]
  by_cases hu : u = t
  · subst hu
    rw [h.modeOf_releaseAll hs]
    simp
  · rw [LockManager.modeOf_releaseAll hs, if_neg fun hc => hu hc.2, h q]
    exact and_iff_left hu

theorem Sound.releaseAll (h : l.Sound) : (l.releaseAll t).Sound :=
  ⟨(modeOf_foldl_drop (t := t) (l.lockedPages t) h.holders).2,
    fun u => Listed.releaseAll (h.indexed u) h.holders⟩

@[simp] theorem releaseAll_config : (l.releaseAll t).config = l.config :=
  (foldl_drop t (l.lockedPages t) l).1

theorem releaseAll_graph :
    (l.releaseAll t).graph =
      if l.config.detectDeadlocks then l.graph.removeTransaction t else l.graph := rfl

theorem releaseAll_sleepers :
    (l.releaseAll t).sleepers =
      l.sleepers.map fun s => if s.page ∈ l.lockedPages t then { s with woken := true } else s :=
  (foldl_drop t (l.lockedPages t) l).2.2.2

end LockManager
end PageStore

import PageStore.Id

/-!
# PageStore.Lock.WaitGraph

Who waits for whom. A blocked transaction waits for one page at a time, so its edges are kept
together with that page: one edge to each transaction that holds it. A waiter without edges is not
kept, and nobody waits for itself.

`hasCycleThrough w` asks whether the edges lead from `w` back to `w`. The search goes level by
level: from the transactions at distance `k` to those at distance `k + 1`, each expanded once. It
ends because every level takes at least one waiter off those still to be expanded.
-/

namespace PageStore

/-- What a blocked transaction waits for: a page, and the transactions holding it. -/
structure Waiting where
  page : PageId
  holders : List TxnId
  deriving DecidableEq, Repr

structure WaitGraph where
  waits : Std.TreeMap TxnId Waiting := ∅

namespace WaitGraph

def holdersOf (g : WaitGraph) (t : TxnId) : List TxnId :=
  match g.waits[t]? with
  | some w => w.holders
  | none => []

/-- Replaces the edges of a waiter. An edge to the waiter itself is left out. -/
def setWaits (g : WaitGraph) (waiter : TxnId) (page : PageId) (holders : List TxnId) : WaitGraph :=
  let holders := (holders.filter (· ≠ waiter)).eraseDups
  if holders.isEmpty then ⟨g.waits.erase waiter⟩ else ⟨g.waits.insert waiter ⟨page, holders⟩⟩

def clearWaits (g : WaitGraph) (waiter : TxnId) : WaitGraph := ⟨g.waits.erase waiter⟩

/-- Takes a transaction out of some waiters' holders; a waiter left with none is dropped. -/
def dropHolder (g : WaitGraph) (holder : TxnId) (from? : Waiting → Bool) : WaitGraph :=
  ⟨g.waits.filterMap fun _ w =>
    let holders := if from? w then w.holders.filter (· ≠ holder) else w.holders
    if holders.isEmpty then none else some { w with holders }⟩

def releasePage (g : WaitGraph) (page : PageId) (holder : TxnId) : WaitGraph :=
  g.dropHolder holder fun w => w.page = page

/-- Drops every edge from and to a transaction that has ended. -/
def removeTransaction (g : WaitGraph) (t : TxnId) : WaitGraph :=
  (g.clearWaits t).dropHolder t fun _ => true

/-- Whether `goal` is met from `level`, expanding each waiter of `unvisited` at most once. -/
def meets (g : WaitGraph) (goal : TxnId) :
    (levels : Nat) → (unvisited level : List TxnId) → Bool
  | 0, _, level => level.contains goal
  | n + 1, unvisited, level =>
    level.contains goal ||
      meets g goal n (unvisited.filter (!level.contains ·))
        ((unvisited.filter (level.contains ·)).flatMap g.holdersOf)

def hasCycleThrough (g : WaitGraph) (t : TxnId) : Bool :=
  g.meets t g.waits.size g.waits.keys (g.holdersOf t)

end WaitGraph
end PageStore

import PageStore.Id

/-!
# PageStore.Pool.Recency

The order in which pages were last used. Each use stamps the page with the time of a clock that
only goes forward; `order` lists the stamps with their pages, so the pages in the order of their
stamps are the pages from the least to the most recently used. A page has at most one stamp.

`victims` only lists candidates for eviction. Whether a candidate may go is not decided here.
-/

namespace PageStore

structure Recency where
  /-- The next stamp. -/
  clock : Nat := 0
  /-- The stamp of each page. -/
  stamps : Std.TreeMap PageId Nat := ∅
  /-- The page of each stamp. -/
  order : Std.TreeMap Nat PageId := ∅

namespace Recency

/-- Makes a page the most recently used one. -/
def touch (r : Recency) (p : PageId) : Recency :=
  let order := match r.stamps[p]? with
    | some old => r.order.erase old
    | none => r.order
  { clock := r.clock + 1, stamps := r.stamps.insert p r.clock, order := order.insert r.clock p }

/-- Forgets a page. -/
def remove (r : Recency) (p : PageId) : Recency :=
  match r.stamps[p]? with
  | some stamp => { r with stamps := r.stamps.erase p, order := r.order.erase stamp }
  | none => r

/-- Forgets a page, and says whether there was a stamp of it. -/
def forget (r : Recency) (p : PageId) : Recency × Bool := (r.remove p, r.stamps[p]?.isSome)

def contains (r : Recency) (p : PageId) : Bool := r.stamps.contains p

def size (r : Recency) : Nat := r.stamps.size

def isEmpty (r : Recency) : Bool := r.stamps.isEmpty

/-- The pages from the least to the most recently used. -/
def victims (r : Recency) : List PageId := r.order.values

end Recency
end PageStore

import PageStore.Page.Basic
import PageStore.Pool.Recency

/-!
# PageStore.Pool.Cache

The pages in memory. Every page that is read gets a frame of its own, which is never used again for
another reading. `resident` says which frame is the cache's copy of a page; whoever got hold of a
frame keeps it even after the page has left the cache. Membership and recency change together.
-/

namespace PageStore

/-- The number of a frame. -/
abbrev FrameId := Nat

structure PoolStats where
  hits : Nat := 0
  misses : Nat := 0
  evictions : Nat := 0
  deriving DecidableEq, Repr

/-- An order in which to go through some frames. -/
structure Walk where
  order : List FrameId → List FrameId
  perm : ∀ fs, (order fs).Perm fs

def Walk.asTheyCome : Walk := ⟨id, fun fs => .refl fs⟩

structure Cache where
  resident : Std.TreeMap PageId FrameId := ∅
  frames : Array Page := #[]
  recency : Recency := {}
  stats : PoolStats := {}

namespace Cache

/-- The page in a frame. -/
def frame? (c : Cache) (f : FrameId) : Option Page := c.frames[f]?

/-- The cache's copy of a page, with its frame. -/
def copy? (c : Cache) (p : PageId) : Option (FrameId × Page) :=
  c.resident[p]?.bind fun f => (c.frame? f).map fun page => (f, page)

/-- The cache's copy of a page. -/
def page? (c : Cache) (p : PageId) : Option Page := (c.copy? p).map Prod.snd

def size (c : Cache) : Nat := c.resident.size

def contains (c : Cache) (p : PageId) : Bool := c.resident.contains p

/-- The cached pages in page order. -/
def pages (c : Cache) : List PageId := c.resident.keys

/-- The frames of the cached pages that satisfy a test, in page order. -/
def framesWhere (c : Cache) (test : Page → Bool) : List FrameId :=
  c.resident.values.filter fun f => (c.frame? f).any test

def setFrame (c : Cache) (f : FrameId) (page : Page) : Cache :=
  { c with frames := c.frames.setIfInBounds f page }

/-- Puts a page into a new frame, outside the cache. -/
def load (c : Cache) (page : Page) : Cache × FrameId :=
  ({ c with frames := c.frames.push page }, c.frames.size)

/-- Makes a page the most recently used one. -/
def touch (c : Cache) (p : PageId) : Cache := { c with recency := c.recency.touch p }

/-- Makes a frame the cache's copy of a page. -/
def keep (c : Cache) (p : PageId) (f : FrameId) : Cache :=
  { c with resident := c.resident.insert p f, recency := c.recency.touch p }

/-- Takes a page out of the cache. -/
def drop (c : Cache) (p : PageId) : Cache :=
  { c with resident := c.resident.erase p, recency := c.recency.remove p }

def countHit (c : Cache) : Cache := { c with stats.hits := c.stats.hits + 1 }

def countMiss (c : Cache) : Cache := { c with stats.misses := c.stats.misses + 1 }

def countEviction (c : Cache) : Cache := { c with stats.evictions := c.stats.evictions + 1 }

end Cache
end PageStore

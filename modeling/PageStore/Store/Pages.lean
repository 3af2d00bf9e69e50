import PageStore.Store.Basic

/-!
# PageStore.Store.Pages

Pages in memory: fetching, eviction, writing back. A page that is not in memory is read from its
file, and if the pool is full the least recently used page that may go makes room. A page may go
unless it is dirty and the transaction that dirtied it still holds its lock; a dirty page that goes
is written first. So what a live transaction changed reaches a file only when it is asked to.
-/

namespace PageStore.Store

/-- Writes a frame's page back if it is dirty, and says whether it was. -/
def flushFrame (s : Store) (f : FrameId) : Result Bool :=
  match s.frame? f with
  | none => (s, .ok false)
  | some page =>
    if !page.isDirty then (s, .ok false)
    else andThen (s.writePage page) fun s _ => (s.setFrame f (page.mark none), .ok true)

def flushFrames (s : Store) : List FrameId → Result Unit
  | [] => (s, .ok ())
  | f :: rest => andThen (s.flushFrame f) fun s _ => flushFrames s rest

def flushPage (s : Store) (p : PageId) : Result Bool :=
  match s.cache.resident[p]? with
  | none => (s, .ok false)
  | some f => s.flushFrame f

def flushAll (s : Store) : Result Unit := s.flushFrames (s.framesWhere (·.isDirty))

def flushOf (s : Store) (t : TxnId) : Result Unit :=
  s.flushFrames (s.framesWhere (·.dirtier = some t))

def mayLeave (s : Store) (p : PageId) : Bool :=
  match s.cache.page? p with
  | none => false
  | some page =>
    match page.dirtier with
    | none => true
    | some t => !s.locks.holds p t

/-- Takes the least recently used page that may go out of the cache. -/
def evict (s : Store) : Result Unit :=
  match s.cache.recency.victims.find? s.mayLeave with
  | none => (s, .error (.poolFull s.config.capacity))
  | some p =>
    andThen (s.flushPage p) fun s _ =>
      ({ s with cache := (s.cache.drop p).countEviction }, .ok ())

def makeRoom (s : Store) : Result Unit :=
  if s.config.capacity ≤ s.cache.size then s.evict else (s, .ok ())

/-- A page and its frame. The page is read if it is not in memory. Its lock must be held. -/
def fetch (s : Store) (p : PageId) : Result (FrameId × Page) :=
  match s.cache.copy? p with
  | some found => ({ s with cache := (s.cache.touch p).countHit }, .ok found)
  | none =>
    let s := { s with cache := s.cache.countMiss }
    andThen s.makeRoom fun s _ =>
      andThen (s.readPage p) fun s page =>
        let (cache, f) := s.cache.load page
        ({ s with cache := cache.keep p f }, .ok (f, page))

/-- Marks a frame's page as dirtied by a transaction, and makes sure that the cache holds this
frame and no other copy of the page. -/
def markDirty (s : Store) (t : TxnId) (f : FrameId) : Result Unit :=
  match s.frame? f with
  | none => (s, .ok ())
  | some page =>
    let s := s.setFrame f (page.mark (some t))
    match s.cache.resident[page.id]? with
    | some g =>
      if g = f then ({ s with cache := s.cache.touch page.id }, .ok ())
      else ({ s with cache := s.cache.keep page.id f }, .ok ())
    | none =>
      andThen s.makeRoom fun s _ => ({ s with cache := s.cache.keep page.id f }, .ok ())

/-- Drops a page from the cache without writing it back, and says whether it was there. -/
def discard (s : Store) (p : PageId) : Store × Bool :=
  ({ s with cache := s.cache.drop p }, s.cache.contains p)

end PageStore.Store

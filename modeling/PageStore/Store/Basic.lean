import PageStore.Catalog
import PageStore.Lock.Manager
import PageStore.Pool.Cache

/-!
# PageStore.Store.Basic

The state of a store: the volume with its files, the registered tables, the page locks and the
pages in memory. An operation returns the state it leaves behind whether it succeeds or fails,
because a failing operation may have read, evicted or written pages before it failed.
`Store.andThen` chains operations: the first failure ends the chain and keeps the state.
-/

namespace PageStore

structure Store where
  config : PoolConfig
  volume : Volume
  catalog : Catalog := {}
  locks : LockManager
  cache : Cache := {}
  /-- The order in which the cached pages come when they are gone through. Nobody chooses it. -/
  walk : Walk := .asTheyCome

namespace Store

/-- What an operation leaves behind and gives back. -/
abbrev Result (α : Type) := Store × Except Error α

def andThen (r : Result α) (f : Store → α → Result β) : Result β :=
  match r with
  | (s, .error e) => (s, .error e)
  | (s, .ok a) => f s a

@[simp] theorem andThen_ok (s : Store) (a : α) (f : Store → α → Result β) :
    andThen (s, .ok a) f = f s a := rfl

@[simp] theorem andThen_error (s : Store) (e : Error) (f : Store → α → Result β) :
    andThen (s, .error e) f = (s, .error e) := rfl

def start (config : PoolConfig) (volume : Volume) : Store :=
  { config, volume, locks := { config := config.lock } }

/-- A store on a volume, if its pool can be made. -/
def start? (config : PoolConfig) (volume : Volume) : Option Store :=
  if config.capacity ≤ largestCapacity then some (start config volume) else none

/-- The store is dropped without writing anything back, and a new one is made on its files. -/
def restart (s : Store) : Store := start s.config s.volume

def table (s : Store) (id : TableId) : Except Error Table :=
  match s.catalog.table? id with
  | some t => .ok t
  | none => .error (.tableNotFound id)

def tableId (s : Store) (name : String) : Except Error TableId :=
  match s.catalog.idOf? name with
  | some id => .ok id
  | none => .error (.tableNameNotFound name)

def tableName (s : Store) (id : TableId) : Except Error String :=
  match s.catalog.nameOf? id with
  | some name => .ok name
  | none => .error (.tableNotFound id)

/-- How many pages a table's file has. -/
def pageCount (s : Store) (id : TableId) : Nat :=
  match s.catalog.table? id with
  | some t => t.file.pageCount s.volume
  | none => 0

def countPages (s : Store) (id : TableId) : Except Error Nat :=
  if s.volume.lengthFails then .error (.io .device) else .ok (s.pageCount id)

theorem countPages_eq_ok {s : Store} {id : TableId} {count : Nat} (h : s.countPages id = .ok count) :
    count = s.pageCount id := by
  unfold countPages at h
  split at h <;> cases h
  rfl

/-- Registers a table. A line for the log, if there is one, tells at the end how many pages the table
has. If it cannot be told the call fails, but then the table is registered already. -/
def createTable (s : Store) (name path : String) (schema : Schema) (logged : Bool := false) :
    Result Table :=
  match s.catalog.create s.volume name path schema with
  | .error e => (s, .error e)
  | .ok (t, catalog, volume) =>
    let s := { s with catalog, volume }
    if logged then andThen (s, s.countPages t.id) fun s _ => (s, .ok t) else (s, .ok t)

/-- Reads a page from its file, past the cache. -/
def readPage (s : Store) (p : PageId) : Result Page :=
  match s.table p.table with
  | .error e => (s, .error e)
  | .ok t =>
    let (volume, file, r) := t.file.read s.volume p.no
    let s := { s with volume, catalog := s.catalog.setFile p.table file }
    match r with
    | .error e => (s, .error (.io e))
    | .ok image => (s, Page.ofImage p t.schema image)

/-- Writes a page to its file, past the cache. -/
def writePage (s : Store) (page : Page) : Result Unit :=
  match s.table page.id.table with
  | .error e => (s, .error e)
  | .ok t =>
    let (volume, file, r) := t.file.write s.volume page.id.no page.image
    let s := { s with volume, catalog := s.catalog.setFile page.id.table file }
    match r with
    | .error e => (s, .error (.io e))
    | .ok () => (s, .ok ())

def frame? (s : Store) (f : FrameId) : Option Page := s.cache.frame? f

/-- The frames of the cached pages that satisfy a test. -/
def framesWhere (s : Store) (test : Page → Bool) : List FrameId :=
  s.walk.order (s.cache.framesWhere test)

theorem mem_framesWhere {s : Store} {test : Page → Bool} {f : FrameId} :
    f ∈ s.framesWhere test ↔ f ∈ s.cache.framesWhere test := (s.walk.perm _).mem_iff

def setFrame (s : Store) (f : FrameId) (page : Page) : Store :=
  { s with cache := s.cache.setFrame f page }

end Store
end PageStore

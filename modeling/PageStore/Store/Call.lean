import PageStore.Store.Pages

/-!
# PageStore.Store.Call

Calls that may have to wait for page locks. A call is cut at its waits: what it has done so far is
in the store, what it still has to do is the `Call`. One step (`Store.step`) goes up to the next
page it wants, asks for its lock, and does what it does with the page once the lock is granted. If
the lock is not granted the call is left waiting for that page and goes on by `Store.resume` when
it was woken, or by `Store.expire` when its time is up.

* An insertion walks through the pages that the table had when it began, in order, and takes the
  first free slot. If there is none it appends empty pages until it gets a slot in one.
* A deletion goes to the page its tuple's record names.
* A cursor loads a page when all tuples of the one before have been taken. The number of pages is
  looked up anew each time. After a failure it gives nothing until it is rewound.
-/

namespace PageStore

/-- A position in a table's tuples: the next page to load, and the loaded tuples not yet taken. -/
structure Cursor where
  table : TableId
  nextPage : Nat := 0
  loaded : List Tuple := []
  failed : Bool := false
  deriving DecidableEq

def Cursor.rewind (c : Cursor) : Cursor := { table := c.table }

inductive Placing where
  | starting
  /-- Page `next` is to be looked at, of `count` when the insertion began. -/
  | searching (next count : Nat)
  | appending
  deriving DecidableEq, Repr

inductive Call where
  /-- Only locks a page. -/
  | lock (page : PageId) (mode : LockMode)
  | fetch (page : PageId) (access : Access)
  /-- Inserts a tuple; `marks` says whether the page is marked as dirtied. -/
  | insert (table : TableId) (tuple : Tuple) (marks : Bool) (placing : Placing)
  /-- Deletes a tuple: from the table its record names, marking the page as dirtied, or from a
  given table without marking it. -/
  | delete (tuple : Tuple) (from? : Option TableId)
  /-- Takes the next tuple of a cursor. -/
  | next (cursor : Cursor)
  /-- Takes all tuples from a page on, after those seen already. -/
  | scan (table : TableId) (page : Nat) (seen : List Tuple)
  deriving DecidableEq

inductive Answer where
  | locked (result : Except Error Unit)
  /-- The frame of the page, and the page as it was then. -/
  | fetched (result : Except Error (FrameId × Page))
  /-- The tuple as the call leaves it, and the frame it was put in. -/
  | inserted (tuple : Tuple) (result : Except Error FrameId)
  | deleted (result : Except Error FrameId)
  /-- The cursor as the call leaves it, and the tuple if there is one. -/
  | item (cursor : Cursor) (result : Option (Except Error Tuple))
  | scanned (tuples : List Tuple) (failure : Option Error)

def Call.insertion (table : TableId) (tuple : Tuple) : Call := .insert table tuple true .starting

def Call.wholeScan (table : TableId) : Call := .scan table 0 []

/-- What a call wants next. -/
inductive Aim where
  /-- A page, locked in a mode; and the call as it goes on with it. -/
  | page (page : PageId) (mode : LockMode) (call : Call)
  /-- Nothing from the store just now: the call goes on. -/
  | onward (call : Call)
  | finish (answer : Answer)

inductive Progress where
  | next (call : Call)
  /-- It waits for the lock of a page. -/
  | waiting (page : PageId) (mode : LockMode) (call : Call)
  | done (answer : Answer)

def Call.fail (e : Error) : Call → Answer
  | .lock _ _ => .locked (.error e)
  | .fetch _ _ => .fetched (.error e)
  | .insert _ tuple _ _ => .inserted tuple (.error e)
  | .delete _ _ => .deleted (.error e)
  | .next cursor => .item { cursor with failed := true } (some (.error e))
  | .scan _ _ seen => .scanned seen (some e)

namespace Store

def appendPage (s : Store) (t : Table) : Result PageId :=
  andThen (s, s.countPages t.id) fun s count =>
    let id : PageId := ⟨t.id, count⟩
    match Page.empty id t.schema with
    | .error e => (s, .error e)
    | .ok page => andThen (s.writePage page) fun s _ => (s, .ok id)

def deletionPage (s : Store) (t : Table) (r : RecordId) : Except Error PageId :=
  if r.page.table ≠ t.id then .error (.tableMismatch r t.id)
  else
    match s.countPages t.id with
    | .error e => .error e
    | .ok count => if count ≤ r.page.no then .error (.pageOutOfRange r.page count) else .ok r.page

/-- The page that a deletion goes to. A deletion from a given table needs the table first, one from
the table of the record needs the record first. -/
def deletionTarget (s : Store) (tuple : Tuple) : (from? : Option TableId) → Except Error PageId
  | some id =>
    match s.table id, tuple.record with
    | .error e, _ => .error e
    | .ok _, none => .error .missingRecordId
    | .ok t, some r => s.deletionPage t r
  | none =>
    match tuple.record with
    | none => .error .missingRecordId
    | some r =>
      match s.table r.page.table with
      | .error e => .error e
      | .ok t => s.deletionPage t r

/-- What a call wants next. Only an appending insertion changes the store here. -/
def aim (s : Store) : Call → Store × Aim
  | .lock page mode => (s, .page page mode (.lock page mode))
  | .fetch page access => (s, .page page access.mode (.fetch page access))
  | .insert table tuple marks placing =>
    match s.table table with
    | .error e => (s, .finish (.inserted tuple (.error e)))
    | .ok t =>
      match placing with
      | .starting =>
        if tuple.schema ≠ t.schema then
          (s, .finish (.inserted tuple (.error (.schemaMismatch (.tableSchema t.id)))))
        else
          match s.countPages table with
          | .error e => (s, .finish (.inserted tuple (.error e)))
          | .ok count => (s, .onward (.insert table tuple marks (.searching 0 count)))
      | .searching next count =>
        if next < count then
          (s, .page ⟨table, next⟩ .exclusive (.insert table tuple marks (.searching next count)))
        else (s, .onward (.insert table tuple marks .appending))
      | .appending =>
        match s.appendPage t with
        | (s, .error e) => (s, .finish (.inserted tuple (.error e)))
        | (s, .ok page) => (s, .page page .exclusive (.insert table tuple marks .appending))
  | .delete tuple from? =>
    match s.deletionTarget tuple from? with
    | .error e => (s, .finish (.deleted (.error e)))
    | .ok page => (s, .page page .exclusive (.delete tuple from?))
  | .next cursor =>
    if cursor.failed then (s, .finish (.item cursor none))
    else
      match cursor.loaded with
      | t :: rest => (s, .finish (.item { cursor with loaded := rest } (some (.ok t))))
      | [] =>
        match s.countPages cursor.table with
        | .error e => (s, .finish ((Call.next cursor).fail e))
        | .ok count =>
          if cursor.nextPage < count then
            (s, .page ⟨cursor.table, cursor.nextPage⟩ .shared (.next cursor))
          else (s, .finish (.item cursor none))
  | .scan table page seen =>
    match s.countPages table with
    | .error e => (s, .finish (.scanned seen (some e)))
    | .ok count =>
      if page < count then (s, .page ⟨table, page⟩ .shared (.scan table page seen))
      else (s, .finish (.scanned seen none))

/-- Marks a frame if asked to, and answers. If the frame cannot be kept in the cache the slot is
lost, and the tuple with it. -/
def finishInsert (s : Store) (t : TxnId) (tuple : Tuple) (marks : Bool) (f : FrameId) :
    Store × Progress :=
  if marks then
    match s.markDirty t f with
    | (s, .ok ()) => (s, .done (.inserted tuple (.ok f)))
    | (s, .error e) => (s, .done (.inserted { tuple with record := none } (.error e)))
  else (s, .done (.inserted tuple (.ok f)))

def use (s : Store) (t : TxnId) (f : FrameId) (page : Page) : Call → Store × Progress
  | .lock _ _ => (s, .done (.locked (.ok ())))
  | .fetch _ _ => (s, .done (.fetched (.ok (f, page))))
  | .insert table tuple marks placing =>
    if page.isFull then
      let placing := match placing with
        | .searching next count => .searching (next + 1) count
        | other => other
      (s, .next (.insert table tuple marks placing))
    else
      match page.insert tuple with
      | (page, .error e) => (s.setFrame f page, .done (.inserted tuple (.error e)))
      | (page, .ok tuple) => (s.setFrame f page).finishInsert t tuple marks f
  | .delete tuple from? =>
    match page.delete tuple with
    | .error e => (s, .done (.deleted (.error e)))
    | .ok page =>
      let s := s.setFrame f page
      if from?.isSome then (s, .done (.deleted (.ok f)))
      else
        match s.markDirty t f with
        | (s, .ok ()) => (s, .done (.deleted (.ok f)))
        | (s, .error e) => (s, .done (.deleted (.error e)))
  | .next cursor =>
    match page.tuples with
    | .error e => (s, .done ((Call.next cursor).fail e))
    | .ok tuples =>
      (s, .next (.next { cursor with loaded := tuples, nextPage := cursor.nextPage + 1 }))
  | .scan table no seen =>
    match page.tuples with
    | .error e => (s, .done (.scanned seen (some e)))
    | .ok tuples => (s, .next (.scan table (no + 1) (seen ++ tuples)))

def proceed (s : Store) (t : TxnId) (p : PageId) (c : Call) : Store × Progress :=
  match c with
  | .lock _ _ => (s, .done (.locked (.ok ())))
  | c =>
    match s.fetch p with
    | (s, .error e) => (s, .done (c.fail e))
    | (s, .ok (f, page)) => s.use t f page c

def decided (s : Store) (t : TxnId) (p : PageId) (m : LockMode) (c : Call) :
    LockManager × Verdict → Store × Progress
  | (locks, .granted) => { s with locks }.proceed t p c
  | (locks, .asleep) => ({ s with locks }, .waiting p m c)
  | (locks, .refused) => ({ s with locks }, .done (c.fail (.aborted t)))

def step (s : Store) (t : TxnId) (c : Call) : Store × Progress :=
  match s.aim c with
  | (s, .finish a) => (s, .done a)
  | (s, .onward c) => (s, .next c)
  | (s, .page p m c) => s.decided t p m c (s.locks.request t p m)

def resume (s : Store) (w : Sleeper) (c : Call) : Store × Progress :=
  s.decided w.txn w.page w.mode c (s.locks.retry w)

def expire (s : Store) (w : Sleeper) (c : Call) : Store × Progress :=
  s.decided w.txn w.page w.mode c (s.locks.expire w)

/-- Steps a call until it waits or is done, for at most so many steps. -/
def run (t : TxnId) : (steps : Nat) → Store → Call → Store × Progress
  | 0, s, c => (s, .next c)
  | n + 1, s, c =>
    match s.step t c with
    | (s, .next c) => run t n s c
    | stopped => stopped

/-- The pages of a table that a call can meet lie below this number: they are in the table's file,
or a cached page that is written back extends the file so far. -/
def reach (s : Store) (table : TableId) : Nat :=
  s.cache.pages.foldl (fun n p => max n (p.no + 1)) (s.pageCount table)

/-- As many steps as a call can take. It looks at each page of its table once, and an insertion
appends once more for every cached page that lies past the end of the file. -/
def budget (s : Store) : Call → Nat
  | .insert table _ _ _ | .scan table _ _ => s.reach table + s.cache.size + 4
  | .next cursor => s.reach cursor.table + 2
  | _ => 1

def goOn (t : TxnId) : Store × Progress → Store × Progress
  | (s, .next c) => run t (s.budget c) s c
  | stopped => stopped

def begin (s : Store) (t : TxnId) (c : Call) : Store × Progress := goOn t (s, .next c)

end Store
end PageStore

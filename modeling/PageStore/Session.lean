import PageStore.Store.Call
import PageStore.Store.Transaction

/-!
# PageStore.Session

Several callers at one store. A call in the foreground is waited for; a call in the background that
has to wait for a page lock is set aside, and its caller is told by reports what becomes of it.
Time is a number of nanoseconds. It goes forward when somebody waits, and by one with every call, so
a session is a function of its calls, and of two calls that wait the one begun first runs out of
time first.

A call that is set aside goes on as soon as its page is given up: `settle` lets every woken call go
on, the oldest first. It fails once its time is up. Nothing here gives up a lock, so after `settle`
no set-aside call can go on until one of the callers gives up a page.
-/

namespace PageStore

/-- A call that waits for the lock of a page. -/
structure Waiter where
  page : PageId
  mode : LockMode
  call : Call
  /-- When its time is up; `none` if it may wait for ever. -/
  deadline : Option Nat
  deriving DecidableEq

/-- What the caller of a background call is told. -/
inductive Report where
  /-- The call waits, or has waited to the end of its time. -/
  | waiting
  | answer (a : Answer)

structure Background where
  txn : TxnId
  /-- What it waits for; `none` once it has ended. -/
  waiter : Option Waiter
  /-- Reports not yet fetched, the oldest first. -/
  reports : List Report := []

structure Session where
  store : Store
  now : Nat := 0
  background : List Background := []

namespace Session

def millisecond : Nat := 1000000

def deadline (store : Store) (now : Nat) : Option Nat :=
  store.locks.config.timeoutMs.map fun limit => now + limit * millisecond

/-- The request of a waiting call, as the lock manager keeps it. -/
def sleeper? (store : Store) (t : TxnId) (w : Waiter) : Option Sleeper :=
  store.locks.sleepers.find? fun s => s.txn = t ∧ s.page = w.page ∧ s.mode = w.mode

/-- How a background call stands after it went on. A call that still waits for its page keeps its
deadline and reports nothing; one that now waits for another page has all its time anew. -/
def stands (store : Store) (now : Nat) (b : Background) (w : Waiter) : Progress → Background
  | .done a => { b with waiter := none, reports := b.reports ++ [.answer a] }
  | .waiting page mode call =>
    if page = w.page then { b with waiter := some { w with mode, call } }
    else
      { b with
        waiter := some { page, mode, call, deadline := deadline store now }
        reports := b.reports ++ [.waiting] }
  | .next _ => { b with waiter := none }

def wake (now : Nat) (store : Store) (b : Background) : Store × Background :=
  match b.waiter with
  | none => (store, b)
  | some w =>
    match sleeper? store b.txn w with
    | none => (store, b)
    | some sl =>
      if sl.woken then
        let (store, p) := Store.goOn b.txn (store.resume sl w.call)
        (store, stands store now b w p)
      else (store, b)

/-- Ends a background call's wait if its time is up by `now`. Its caller is told that it has waited
to the end, unless its last try closes a cycle. -/
def timeOut (now : Nat) (store : Store) (b : Background) : Store × Background :=
  match b.waiter with
  | none => (store, b)
  | some w =>
    match w.deadline, sleeper? store b.txn w with
    | some d, some sl =>
      if d ≤ now then
        let told := if store.locks.runsOut sl then [.waiting] else []
        let (store, p) := Store.goOn b.txn (store.expire sl w.call)
        (store, stands store now { b with reports := b.reports ++ told } w p)
      else (store, b)
    | _, _ => (store, b)

def inTurn (f : Store → Background → Store × Background) :
    Store → List Background → Store × List Background
  | store, [] => (store, [])
  | store, b :: rest =>
    let (store, b) := f store b
    let (store, rest) := inTurn f store rest
    (store, b :: rest)

def settle (s : Session) : Session :=
  let (store, background) := inTurn (wake s.now) s.store s.background
  { s with store, background }

def arriveAt (s : Session) (moment : Nat) : Session :=
  let now := max s.now moment
  let (store, background) := inTurn (timeOut now) s.store s.background
  { store, now, background }

def deadlines (s : Session) : List Nat := s.background.filterMap fun b => b.waiter.bind (·.deadline)

def passTime (s : Session) (moment : Nat) : Session :=
  let stops := (s.deadlines.filter fun d => d ≤ moment).mergeSort fun a b => a ≤ b
  (stops ++ [moment]).foldl arriveAt s

def tick (s : Session) : Session := { s with now := s.now + 1 }

def update (s : Session) (f : Store → Store × α) : Session × α :=
  let (store, a) := f s.store
  ({ s with store }.tick.settle, a)

/-- A call that is waited for. There is no answer if it waits for ever. -/
def perform (s : Session) (t : TxnId) (c : Call) : Session × Option Answer :=
  let s := s.tick
  match s.store.begin t c with
  | (store, .done a) => ({ s with store }, some a)
  | (store, .next _) => ({ s with store }, none)
  | (store, .waiting page mode call) =>
    match deadline store s.now with
    | none => ({ s with store }, none)
    | some d =>
      let s := { s with store }.passTime d
      match sleeper? s.store t ⟨page, mode, call, some d⟩ with
      | none => (s, none)
      | some sl =>
        match Store.goOn t (s.store.expire sl call) with
        | (store, .done a) => ({ s with store }, some a)
        | (store, _) => ({ s with store }, none)

/-- Inserts the same tuple several times, up to the first failure: the tuple as it is left, how
often it went in, and the failure. -/
def insertMany (s : Session) (t : TxnId) (table : TableId) : (times : Nat) → Tuple →
    Session × Tuple × Nat × Option Error
  | 0, tuple => (s, tuple, 0, none)
  | n + 1, tuple =>
    match s.perform t (.insertion table tuple) with
    | (s, some (.inserted tuple (.ok _))) =>
      let (s, tuple, done, failure) := s.insertMany t table n tuple
      (s, tuple, done + 1, failure)
    | (s, some (.inserted tuple (.error e))) => (s, tuple, 0, some e)
    | (s, _) => (s, tuple, 0, none)

/-- Takes up to `n` tuples of a cursor. The last item is a failure if there was one, and `none` if
there are no more tuples. -/
def take (s : Session) (t : TxnId) : (n : Nat) → Cursor →
    Session × Cursor × List (Option (Except Error Tuple))
  | 0, c => (s, c, [])
  | n + 1, c =>
    match s.perform t (.next c) with
    | (s, some (.item c (some (.ok tuple)))) =>
      let (s, c, items) := s.take t n c
      (s, c, some (.ok tuple) :: items)
    | (s, some (.item c last)) => (s, c, [last])
    | (s, _) => (s, c, [])

/-- Begins a call in the background: its answer, unless it has to wait. The time of a call that may
not wait at all is up as soon as it has to. -/
def begin (s : Session) (t : TxnId) (c : Call) : Session × Report :=
  let s := s.tick
  match s.store.begin t c with
  | (store, .done a) => ({ s with store }, .answer a)
  | (store, .next _) =>
    ({ s with store, background := s.background ++ [{ txn := t, waiter := none }] }, .waiting)
  | (store, .waiting page mode call) =>
    let w : Waiter := { page, mode, call, deadline := deadline store s.now }
    let background := s.background ++ [{ txn := t, waiter := some w }]
    ({ s with store, background }.passTime s.now, .waiting)

/-- Takes the oldest report of a transaction's background call. With its answer the call is over. -/
def report? (t : TxnId) : List Background → Option (Report × List Background)
  | [] => none
  | b :: rest =>
    if b.txn = t then
      match b.reports with
      | [] => none
      | .answer a :: _ => some (.answer a, rest)
      | r :: reports => some (r, { b with reports } :: rest)
    else (report? t rest).map fun (r, rest) => (r, b :: rest)

def deadlineOf (s : Session) (t : TxnId) : Option Nat :=
  ((s.background.find? (·.txn = t)).bind (·.waiter)).bind (·.deadline)

/-- Fetches the next report of a background call, waiting for it if there is none yet. There is
none if there is no such call, or if it waits for ever. -/
def join (s : Session) (t : TxnId) : Session × Option Report :=
  let s := match report? t s.background, s.deadlineOf t with
    | none, some d => s.passTime d
    | _, _ => s
  match report? t s.background with
  | none => (s, none)
  | some (r, background) => ({ s with background }, some r)

/-- The store is dropped and a new one is made on its files. A call that waits for a lock of the old
store waits to the end of its time, or for ever. -/
def restart (s : Session) : Session :=
  let old := s.passTime (s.deadlines.foldl max s.now)
  { s with
    store := old.store.restart
    background := old.background.map fun b => { b with waiter := none } }

def isQuiet (s : Session) : Bool := s.background.isEmpty

end Session
end PageStore

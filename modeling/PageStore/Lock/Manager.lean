import PageStore.Config
import PageStore.Lock.Holders
import PageStore.Lock.WaitGraph
import Std.Data.TreeSet
import Std.Data.TreeSet.Lemmas

/-!
# PageStore.Lock.Manager

The page locks of a store. A request is granted, or refused because waiting would close a cycle, or
it falls asleep until the page is given up by one of its holders. A sleeper that was woken tries
again (`retry`); one whose time is up tries a last time and is then refused (`expire`). Each of
these is one step, and so is giving up a page (`release`) or all pages (`releaseAll`), which wakes
the sleepers of those pages.

Beside the holders of each page an index keeps the pages of each transaction. A request that is
refused leaves both as they were, and leaves its transaction with no edges in the wait-for graph.
-/

namespace PageStore

/-- A request that is asleep. It tries again once it has been woken. -/
structure Sleeper where
  txn : TxnId
  page : PageId
  mode : LockMode
  woken : Bool := false
  deriving DecidableEq, Repr

inductive Verdict where
  | granted
  /-- It waits. -/
  | asleep
  /-- It is refused, and its transaction has to be rolled back. -/
  | refused
  deriving DecidableEq, Repr

structure LockManager where
  config : LockConfig := {}
  table : Std.TreeMap PageId Holders := ∅
  /-- The pages of each transaction. -/
  held : Std.TreeMap TxnId (Std.TreeSet PageId) := ∅
  graph : WaitGraph := {}
  /-- The requests that wait, in the order in which they came. -/
  sleepers : List Sleeper := []

namespace LockManager

def holders (l : LockManager) (p : PageId) : Holders := l.table.getD p {}

def modeOf (l : LockManager) (p : PageId) (t : TxnId) : Option LockMode := (l.holders p).modeOf t

def holds (l : LockManager) (p : PageId) (t : TxnId) : Bool := (l.modeOf p t).isSome

def pagesOf (l : LockManager) (t : TxnId) : Std.TreeSet PageId := l.held.getD t ∅

def lockedPages (l : LockManager) (t : TxnId) : List PageId := (l.pagesOf t).toList

/-- One attempt to lock a page. A request that the held mode covers is granted without a change.
One that is blocked notes whom it waits for, unless that would close a cycle. -/
def attempt (l : LockManager) (t : TxnId) (p : PageId) (m : LockMode) : LockManager × Verdict :=
  let h := l.holders p
  if (h.modeOf t).any (·.covers m) then (l, .granted)
  else
    match h.grant? t m with
    | some h =>
      ({ l with table := l.table.insert p h, held := l.held.insert t ((l.pagesOf t).insert p) },
        .granted)
    | none =>
      if l.config.detectDeadlocks then
        let graph := l.graph.setWaits t p (h.blockers t)
        if graph.hasCycleThrough t then ({ l with graph := graph.clearWaits t }, .refused)
        else ({ l with graph }, .asleep)
      else (l, .asleep)

/-- The edges of a request that stops waiting are dropped. -/
def stopWaiting (l : LockManager) (t : TxnId) : LockManager :=
  if l.config.detectDeadlocks then { l with graph := l.graph.clearWaits t } else l

def wakeOn (p : PageId) (s : Sleeper) : Sleeper :=
  if s.page = p then { s with woken := true } else s

/-- A new request. If it is blocked it falls asleep. -/
def request (l : LockManager) (t : TxnId) (p : PageId) (m : LockMode) : LockManager × Verdict :=
  match l.attempt t p m with
  | (l, .asleep) => ({ l with sleepers := l.sleepers ++ [⟨t, p, m, false⟩] }, .asleep)
  | other => other

def forget (l : LockManager) (s : Sleeper) : LockManager :=
  { l with sleepers := l.sleepers.erase s }

def retry (l : LockManager) (s : Sleeper) : LockManager × Verdict :=
  match l.attempt s.txn s.page s.mode with
  | (l, .granted) => ((l.forget s).stopWaiting s.txn, .granted)
  | (l, .refused) => (l.forget s, .refused)
  | (l, .asleep) =>
    ({ l with sleepers := l.sleepers.replace s { s with woken := false } }, .asleep)

/-- A sleeper's time is up: it tries a last time. -/
def expire (l : LockManager) (s : Sleeper) : LockManager × Verdict :=
  match l.attempt s.txn s.page s.mode with
  | (l, .granted) => ((l.forget s).stopWaiting s.txn, .granted)
  | (l, _) => ((l.forget s).stopWaiting s.txn, .refused)

/-- Whether a sleeper whose time is up is refused for that alone: its last try is blocked, and does
not close a cycle either. -/
def runsOut (l : LockManager) (s : Sleeper) : Bool :=
  (l.attempt s.txn s.page s.mode).2 = .asleep

/-- Takes a page out of a transaction's index; a transaction without pages has no entry. -/
def unindex (l : LockManager) (p : PageId) (t : TxnId) : Std.TreeMap TxnId (Std.TreeSet PageId) :=
  let pages := (l.pagesOf t).erase p
  if pages.isEmpty then l.held.erase t else l.held.insert t pages

/-- Gives up one page, and says whether it was held. -/
def release (l : LockManager) (p : PageId) (t : TxnId) : LockManager × Bool :=
  match (l.holders p).release? t with
  | none => (l, false)
  | some h =>
    ({ l with
        table := l.table.insert p h
        held := l.unindex p t
        graph := if l.config.detectDeadlocks then l.graph.releasePage p t else l.graph
        sleepers := l.sleepers.map (wakeOn p) }, true)

/-- Gives up a page for a transaction that gives up all of them. -/
def drop (t : TxnId) (l : LockManager) (p : PageId) : LockManager :=
  { l with
    table := l.table.insert p (((l.holders p).release? t).getD (l.holders p))
    sleepers := l.sleepers.map (wakeOn p) }

def releaseAll (l : LockManager) (t : TxnId) : LockManager :=
  let dropped := (l.lockedPages t).foldl (drop t) l
  { dropped with
    held := l.held.erase t
    graph := if l.config.detectDeadlocks then l.graph.removeTransaction t else l.graph }

end LockManager
end PageStore

/-!
# PageStore.Config

Sizes that are fixed for every store, and the settings a store is made with.
-/

namespace PageStore

def pageSize : Nat := 4096

def defaultCapacity : Nat := 50

/-- The most pages that a pool can be made for. Its table has a power of two as its number of places,
of seventeen bytes each, an eighth of them free, and all of it must lie below byte `2 ^ 63`. -/
def largestCapacity : Nat := 7 * 0x80000000000000

def defaultTimeoutMs : Nat := 100

/-- Requests that may be queued for one file before a caller has to wait. -/
def queueDepth : Nat := 128

/-- Which dirty pages a commit writes back. -/
inductive CommitFlush where
  /-- Every dirty page of the pool, whoever dirtied it. -/
  | allDirty
  /-- The pages dirtied by the committing transaction. -/
  | transaction
  deriving DecidableEq, Repr

structure LockConfig where
  /-- How long one request may wait, in milliseconds. `none` waits for ever. -/
  timeoutMs : Option Nat := some defaultTimeoutMs
  /-- Whether a request that closes a cycle of waiting transactions is aborted at once. -/
  detectDeadlocks : Bool := true
  deriving DecidableEq, Repr

structure PoolConfig where
  capacity : Nat := defaultCapacity
  lock : LockConfig := {}
  commitFlush : CommitFlush := .allDirty
  deriving DecidableEq, Repr

end PageStore

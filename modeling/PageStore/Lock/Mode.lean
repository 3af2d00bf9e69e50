import PageStore.Id

/-!
# PageStore.Lock.Mode

The two modes of a page lock. Any number of transactions may share a page; an exclusive holder is
alone. `LockMode.compatible` is the matrix of modes that two different transactions can hold at
once.
-/

namespace PageStore

inductive LockMode where
  | shared
  | exclusive
  deriving DecidableEq, Repr

namespace LockMode

/-- Whether holding one mode satisfies a request for the other. -/
def covers : LockMode → LockMode → Bool
  | .exclusive, _ => true
  | .shared, .shared => true
  | .shared, .exclusive => false

/-- Whether two transactions can hold the same page in these modes. -/
def compatible : LockMode → LockMode → Bool
  | .shared, .shared => true
  | _, _ => false

/-- The stronger of two modes. -/
def max : LockMode → LockMode → LockMode
  | .shared, .shared => .shared
  | _, _ => .exclusive

theorem covers_self (m : LockMode) : m.covers m = true := by cases m <;> rfl

theorem covers_max (a b : LockMode) : (a.max b).covers a = true ∧ (a.max b).covers b = true := by
  cases a <;> cases b <;> decide

end LockMode

/-- The mode in which a page is locked for an access. -/
def Access.mode : Access → LockMode
  | .readOnly => .shared
  | .readWrite => .exclusive

end PageStore

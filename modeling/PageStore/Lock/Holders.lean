import PageStore.Lock.Mode

/-!
# PageStore.Lock.Holders

The holders of one page: an exclusive one, or any number of shared ones. Requests are decided by
the two fields alone: a shared request needs the exclusive place to be free, an exclusive request
needs both to be free, save that the only shared holder may be the one that asks, which is then
raised.
-/

namespace PageStore

structure Holders where
  exclusive : Option TxnId := none
  shared : List TxnId := []
  deriving DecidableEq, Repr

namespace Holders

def modeOf (h : Holders) (t : TxnId) : Option LockMode :=
  if h.exclusive = some t then some .exclusive
  else if t ∈ h.shared then some .shared
  else none

/-- The holders once `t` holds the page in the mode; none if others are in the way. -/
def grant? (h : Holders) (t : TxnId) : LockMode → Option Holders
  | .shared =>
    if h.exclusive.isSome then none
    else some { h with shared := if t ∈ h.shared then h.shared else h.shared ++ [t] }
  | .exclusive =>
    if h.exclusive.isSome then none
    else if h.shared = [] ∨ h.shared = [t] then some { exclusive := some t, shared := [] }
    else none

/-- The transactions other than `t` that hold the page. -/
def blockers (h : Holders) (t : TxnId) : List TxnId :=
  (h.exclusive.toList ++ h.shared).filter (· ≠ t)

/-- The holders without `t`; none if it held nothing. -/
def release? (h : Holders) (t : TxnId) : Option Holders :=
  if h.exclusive = some t then some { h with exclusive := none }
  else if t ∈ h.shared then some { h with shared := h.shared.erase t }
  else none

end Holders
end PageStore

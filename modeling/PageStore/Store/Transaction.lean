import PageStore.Store.Pages

/-!
# PageStore.Store.Transaction

The end of a transaction. A commit writes dirty pages back; an abort reads the pages that the
transaction dirtied anew from their files, in the frames they are in. Both then give up the
transaction's locks. If reading or writing fails the locks are kept.
-/

namespace PageStore.Store

/-- Reads frames' pages anew from their files. -/
def reloadFrames (s : Store) : List FrameId → Result Unit
  | [] => (s, .ok ())
  | f :: rest =>
    match s.frame? f with
    | none => reloadFrames s rest
    | some page =>
      andThen (s.readPage page.id) fun s fresh => reloadFrames (s.setFrame f fresh) rest

/-- Takes back what a transaction changed in memory. -/
def restore (s : Store) (t : TxnId) : Result Unit :=
  s.reloadFrames (s.framesWhere (·.dirtier = some t))

def releaseAll (s : Store) (t : TxnId) : Store := { s with locks := s.locks.releaseAll t }

def commit (s : Store) (t : TxnId) : Result Unit :=
  let flushed := match s.config.commitFlush with
    | .allDirty => s.flushAll
    | .transaction => s.flushOf t
  andThen flushed fun s _ => (s.releaseAll t, .ok ())

def abort (s : Store) (t : TxnId) : Result Unit :=
  andThen (s.restore t) fun s _ => (s.releaseAll t, .ok ())

/-- Gives up one page before the transaction ends, and says whether it was held. -/
def releasePage (s : Store) (t : TxnId) (p : PageId) : Store × Bool :=
  let (locks, held) := s.locks.release p t
  ({ s with locks }, held)

end PageStore.Store

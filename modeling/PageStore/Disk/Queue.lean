import PageStore.Disk.PageFile

/-!
# PageStore.Disk.Queue

The queue of page transfers of one file. Callers put requests at its end; one worker takes them
from its front and carries them out. The worker looks at the closing mark before it takes a request.
Once it has seen the mark it empties the queue and stops, so a request that was accepted is carried
out whether or not anybody waits for its reply.

Each step of the worker is one look at the mark, one look at the queue, or one request carried out,
and callers may come between any two. Between its last look at the queue and its end the worker has
left, but a request would still be taken from a caller; nobody calls any more once the queue is
being closed.

`Drive.serveAll` is the same work without queue and worker: the requests in order, each on the file
as the ones before left it.
-/

namespace PageStore

inductive Request where
  | read (page : Nat)
  | write (page : Nat) (image : Image)
  deriving DecidableEq

inductive Reply where
  | image (result : Except IoFault Image)
  | done (result : Except IoFault Unit)

/-- A page file together with the volume it lies on. -/
structure Drive where
  volume : Volume
  file : PageFile

def Drive.serve (d : Drive) : Request → Drive × Reply
  | .read n =>
    let (volume, file, r) := d.file.read d.volume n
    (⟨volume, file⟩, .image r)
  | .write n im =>
    let (volume, file, r) := d.file.write d.volume n im
    (⟨volume, file⟩, .done r)

def Drive.serveAll (d : Drive) : List Request → Drive × List Reply
  | [] => (d, [])
  | r :: rest =>
    let (d, reply) := d.serve r
    let (d, replies) := d.serveAll rest
    (d, reply :: replies)

namespace Drive

variable (d : Drive)

/-- Requests carried out one after another may be parted anywhere. -/
theorem serveAll_append (rs rs' : List Request) :
    d.serveAll (rs ++ rs') =
      (((d.serveAll rs).1.serveAll rs').1, (d.serveAll rs).2 ++ ((d.serveAll rs).1.serveAll rs').2) := by
  induction rs generalizing d with
  | nil => rfl
  | cons r rest ih => simp only [List.cons_append, serveAll, ih]

theorem serveAll_concat (rs : List Request) (r : Request) :
    d.serveAll (rs ++ [r]) =
      (((d.serveAll rs).1.serve r).1, (d.serveAll rs).2 ++ [((d.serveAll rs).1.serve r).2]) :=
  d.serveAll_append rs [r]

/-- The reply to each request is what the request gives after the ones before it. -/
theorem replies_serveAll (rs : List Request) (i : Nat) :
    (d.serveAll rs).2[i]? = rs[i]?.map fun r => ((d.serveAll (rs.take i)).1.serve r).2 := by
  induction rs generalizing d i with
  | nil => rfl
  | cons r rest ih =>
    cases i with
    | zero => rfl
    | succ i => exact ih (d.serve r).1 i

@[simp] theorem length_serveAll (rs : List Request) : (d.serveAll rs).2.length = rs.length := by
  induction rs generalizing d with
  | nil => rfl
  | cons r rest ih => simp only [serveAll, List.length_cons, ih]

end Drive

/-- What the worker does next. -/
inductive Worker where
  /-- Look at the closing mark. -/
  | checking
  /-- Take a request, or give up waiting for one. -/
  | receiving
  /-- Take what is left, without waiting. -/
  | draining
  /-- Go, since nothing was left. -/
  | leaving
  | stopped
  deriving DecidableEq, Repr

structure Queue where
  drive : Drive
  /-- Requests not yet taken, the oldest first. -/
  pending : List Request := []
  /-- The request that the worker has taken and not yet carried out. -/
  inHand : Option Request := none
  /-- Replies given so far, in order. -/
  replies : List Reply := []
  closing : Bool := false
  worker : Worker := .checking

namespace Queue

/-- Puts a request at the end. There must be room, and the worker must be there. -/
def submit? (q : Queue) (r : Request) : Option Queue :=
  if q.pending.length < queueDepth ∧ q.worker ≠ .stopped then
    some { q with pending := q.pending ++ [r] }
  else none

def carryOut (q : Queue) (r : Request) : Queue :=
  let (drive, reply) := q.drive.serve r
  { q with drive, inHand := none, replies := q.replies ++ [reply] }

def work (q : Queue) : Queue :=
  match q.inHand with
  | some r => q.carryOut r
  | none =>
    match q.worker, q.pending with
    | .checking, _ => { q with worker := if q.closing then .draining else .receiving }
    | .receiving, [] => { q with worker := .checking }
    | .receiving, r :: rest => { q with inHand := some r, pending := rest, worker := .checking }
    | .draining, [] => { q with worker := .leaving }
    | .draining, r :: rest => { q with inHand := some r, pending := rest }
    | .leaving, _ => { q with worker := .stopped }
    | .stopped, _ => q

def close (q : Queue) : Queue := { q with closing := true }

def workFor : (steps : Nat) → Queue → Queue
  | 0, q => q
  | n + 1, q => workFor n q.work

/-- Puts in a request, after letting the worker make room if there is none. -/
def submit (q : Queue) (r : Request) : Queue :=
  match q.submit? r with
  | some q => q
  | none =>
    let q := workFor 3 q
    (q.submit? r).getD q

/-- Puts in all requests before any reply is looked at, and then waits for the replies. -/
def batch (q : Queue) (rs : List Request) : Queue :=
  let q := rs.foldl submit q
  workFor (3 * q.pending.length + 3) q

/-- Puts in all requests and closes the queue at once. -/
def batchAndClose (q : Queue) (rs : List Request) : Queue :=
  let q := (rs.foldl submit q).close
  workFor (2 * q.pending.length + 6) q

end Queue
end PageStore

import PageStore.Disk.Queue

/-!
# PageStore.Proofs.Disk.Traffic

A queue of page transfers with any number of callers, one worker, and the closing of the queue, all
taking their steps in any order.

* `work_cases`: what the worker's next step can be.
* `Traffic.Kept`: what every step keeps. The accepted requests are those carried out, the one in hand
  and those pending, in the order they came in, and the drive and the replies are what `serveAll`
  makes of those carried out.
* `Kept.carried_within`, `Kept.stopped_within`: an upper bound of the worker's steps to a
  request's reply (`stepsTo`), and from the closing mark to the worker's end (`stepsLeft`). Each step
  of the worker brings the bound down, and no other step raises it.
* `batch_eq`, `batchAndClose_eq`: what a batch comes to, whether or not anybody waits for it.
-/

namespace PageStore

namespace Queue

variable {q : Queue} {r : Request} {n : Nat}

/-- The accepted requests that are not carried out, the oldest first. -/
def outstanding (q : Queue) : List Request := q.inHand.toList ++ q.pending

/-- The worker after a look that gave it no request. -/
def turned (q : Queue) : Worker :=
  match q.worker with
  | .checking => if q.closing then .draining else .receiving
  | .receiving => .checking
  | .draining => .leaving
  | .leaving => .stopped
  | .stopped => .stopped

/-- The worker after it took a request: back to the mark, unless it has seen it. -/
def taking (q : Queue) : Worker := if q.worker = .draining then .draining else .checking

/-- The worker carries out what it has in hand, or takes a request, or only looks. -/
theorem work_cases (q : Queue) :
    (∃ r, q.inHand = some r ∧ q.work = q.carryOut r) ∨
      q.inHand = none ∧
        ((∃ r rest, q.pending = r :: rest ∧ (q.worker = .receiving ∨ q.worker = .draining) ∧
            q.work = { q with inHand := some r, pending := rest, worker := q.taking }) ∨
          ((q.worker = .receiving ∨ q.worker = .draining → q.pending = []) ∧
            q.work = { q with worker := q.turned })) := by
  obtain ⟨drive, pending, inHand, replies, closing, worker⟩ := q
  cases inHand with
  | some r => exact .inl ⟨r, rfl, rfl⟩
  | none =>
    refine .inr ⟨rfl, ?_⟩
    cases worker with
    | checking => exact .inr ⟨by simp, rfl⟩
    | receiving =>
      cases pending with
      | nil => exact .inr ⟨fun _ => rfl, rfl⟩
      | cons r rest => exact .inl ⟨r, rest, rfl, .inl rfl, rfl⟩
    | draining =>
      cases pending with
      | nil => exact .inr ⟨fun _ => rfl, rfl⟩
      | cons r rest => exact .inl ⟨r, rest, rfl, .inr rfl, rfl⟩
    | leaving => exact .inr ⟨by simp, rfl⟩
    | stopped => exact .inr ⟨by simp, rfl⟩

theorem carryOut_eq (q : Queue) (r : Request) :
    q.carryOut r =
      { q with
        drive := (q.drive.serve r).1, inHand := none, replies := q.replies ++ [(q.drive.serve r).2] } :=
  rfl

theorem submit?_eq_some {q' : Queue} (h : q.submit? r = some q') :
    q.pending.length < queueDepth ∧ q' = { q with pending := q.pending ++ [r] } := by
  unfold submit? at h
  split at h
  · rename_i hroom
    exact ⟨hroom.1, (Option.some.inj h).symm⟩
  · cases h

theorem submit?_of_room (hroom : q.pending.length < queueDepth) (hworker : q.worker ≠ .stopped) :
    q.submit? r = some { q with pending := q.pending ++ [r] } :=
  if_pos ⟨hroom, hworker⟩

theorem closing_work (q : Queue) : q.work.closing = q.closing := by
  obtain ⟨r, -, hwork⟩ | ⟨-, ⟨r, rest, -, -, hwork⟩ | ⟨-, hwork⟩⟩ := q.work_cases <;> rw [hwork]
  rfl

theorem closing_workFor (n : Nat) (q : Queue) : (workFor n q).closing = q.closing := by
  induction n generalizing q with
  | zero => rfl
  | succ n ih => exact (ih q.work).trans q.closing_work

/-- Three steps of the worker make room in an open queue. -/
theorem pending_workFor_three {rest : List Request} (hopen : q.closing = false)
    (hworker : q.worker = .checking ∨ q.worker = .receiving) (hpending : q.pending = r :: rest) :
    (workFor 3 q).pending = rest := by
  obtain ⟨drive, pending, inHand, replies, closing, worker⟩ := q
  cases hopen
  cases hpending
  cases inHand <;> rcases hworker with h | h <;> cases h <;> rfl

end Queue

/-- One step of a caller, of the worker, or of whoever closes the queue. -/
inductive QueueStep where
  /-- A caller tries to put in a request. Where there is no room it is still waiting afterwards. -/
  | submit (r : Request)
  | work
  | close
  deriving DecidableEq

/-- A queue, and the requests that it accepted so far. -/
structure Traffic where
  queue : Queue
  accepted : List Request := []

namespace Traffic

/-- The queue of a drive, just made. -/
def start (d : Drive) : Traffic := { queue := { drive := d } }

/-- One step. The last of its users closes the queue, so no call comes after that. -/
def take (s : Traffic) : QueueStep → Traffic
  | .submit r =>
    if s.queue.closing then s
    else
      match s.queue.submit? r with
      | some q => { queue := q, accepted := s.accepted ++ [r] }
      | none => s
  | .work => { s with queue := s.queue.work }
  | .close => { s with queue := s.queue.close }

def after (s : Traffic) (steps : List QueueStep) : Traffic := steps.foldl take s

variable {d : Drive} {s : Traffic} {step : QueueStep} {steps more : List QueueStep} {r : Request}

theorem after_append (s : Traffic) (steps more : List QueueStep) :
    s.after (steps ++ more) = (s.after steps).after more := by
  rw [after, after, after, List.foldl_append]

/-- A caller's step either does nothing or puts a request at the end of an open queue that has room. -/
theorem take_submit (s : Traffic) (r : Request) :
    s.take (.submit r) = s ∨
      s.queue.closing = false ∧ s.queue.pending.length < queueDepth ∧
        s.take (.submit r) =
          { queue := { s.queue with pending := s.queue.pending ++ [r] },
            accepted := s.accepted ++ [r] } := by
  simp only [take]
  by_cases hclosing : s.queue.closing = true
  · exact .inl (if_pos hclosing)
  · rw [if_neg hclosing]
    cases hq : s.queue.submit? r with
    | none => exact .inl rfl
    | some q =>
      obtain ⟨hroom, rfl⟩ := Queue.submit?_eq_some hq
      exact .inr ⟨Bool.eq_false_iff.2 hclosing, hroom, rfl⟩

/-! ## What every step keeps -/

structure Kept (d : Drive) (s : Traffic) : Prop where
  /-- The requests carried out, and then the others, are those accepted. -/
  parted : ∃ carried, s.accepted = carried ++ s.queue.outstanding ∧
    d.serveAll carried = (s.queue.drive, s.queue.replies)
  unmarked : s.queue.closing = false → s.queue.worker = .checking ∨ s.queue.worker = .receiving
  emptied : s.queue.worker = .leaving ∨ s.queue.worker = .stopped → s.queue.outstanding = []
  bounded : s.queue.pending.length ≤ queueDepth

namespace Kept

theorem start (d : Drive) : Kept d (.start d) :=
  ⟨⟨[], rfl, rfl⟩, fun _ => .inl rfl, fun _ => rfl, Nat.zero_le _⟩

theorem submit (k : Kept d s) (r : Request) : Kept d (s.take (.submit r)) := by
  obtain hs | ⟨hopen, hroom, hs⟩ := s.take_submit r
  · rwa [hs]
  · obtain ⟨carried, haccepted, hserved⟩ := k.parted
    rw [hs]
    refine ⟨⟨carried, ?_, hserved⟩, k.unmarked, fun hend => ?_, ?_⟩
    · simp only [haccepted, Queue.outstanding, List.append_assoc]
    · -- the worker goes only after the mark, and the queue is open
      rcases k.unmarked hopen with hw | hw <;> simp [hw] at hend
    · rw [List.length_append]
      exact hroom

theorem work (k : Kept d s) : Kept d (s.take .work) := by
  obtain ⟨carried, haccepted, hserved⟩ := k.parted
  show Kept d { s with queue := s.queue.work }
  obtain ⟨r, hhand, hwork⟩ | ⟨hhand, ⟨r, rest, hpending, hworker, hwork⟩ | ⟨hnone, hwork⟩⟩ :=
    s.queue.work_cases
  · -- a request is carried out
    have hout : s.queue.outstanding = r :: s.queue.pending := by rw [Queue.outstanding, hhand]; rfl
    rw [hwork, Queue.carryOut_eq]
    refine ⟨⟨carried ++ [r], ?_, ?_⟩, k.unmarked, fun hend => ?_, k.bounded⟩
    · rw [haccepted, hout, List.append_assoc]
      rfl
    · rw [Drive.serveAll_concat, hserved]
    · have := k.emptied hend
      rw [hout] at this
      cases this
  · -- a request is taken
    have hout : s.queue.outstanding = r :: rest := by rw [Queue.outstanding, hhand, hpending]; rfl
    rw [hwork]
    have hbounded := k.bounded
    rw [hpending] at hbounded
    refine ⟨⟨carried, haccepted.trans (by rw [hout]; rfl), hserved⟩, fun hopen => .inl ?_,
      fun hend => ?_, Nat.le_of_succ_le hbounded⟩
    · rcases k.unmarked hopen with hw | hw <;> simp [Queue.taking, hw]
    · simp only [Queue.taking] at hend
      split at hend <;> simp at hend
  · -- the worker looks at the mark, or finds the queue empty
    rw [hwork]
    refine ⟨⟨carried, haccepted, hserved⟩, fun hopen => ?_, fun hend => ?_, k.bounded⟩
    · simp only at hopen
      rcases k.unmarked hopen with hw | hw <;> simp [Queue.turned, hw, hopen]
    · show s.queue.outstanding = []
      cases hw : s.queue.worker with
      | checking =>
        simp only [Queue.turned, hw] at hend
        split at hend <;> simp at hend
      | receiving => simp [Queue.turned, hw] at hend
      | draining => rw [Queue.outstanding, hhand, hnone (.inr hw)]; rfl
      | leaving => exact k.emptied (.inl hw)
      | stopped => exact k.emptied (.inr hw)

theorem close (k : Kept d s) : Kept d (s.take .close) :=
  ⟨k.parted, fun h => Bool.noConfusion h, k.emptied, k.bounded⟩

theorem take (k : Kept d s) (step : QueueStep) : Kept d (s.take step) := by
  cases step with
  | submit r => exact k.submit r
  | work => exact k.work
  | close => exact k.close

theorem after (k : Kept d s) (steps : List QueueStep) : Kept d (s.after steps) := by
  induction steps generalizing s with
  | nil => exact k
  | cons step rest ih => exact ih (k.take step)

theorem length_accepted (k : Kept d s) :
    s.accepted.length = s.queue.replies.length + s.queue.outstanding.length := by
  obtain ⟨carried, haccepted, hserved⟩ := k.parted
  have hlen := d.length_serveAll carried
  rw [hserved] at hlen
  rw [haccepted, List.length_append, ← hlen]

/-- Where nothing is left, all that was accepted is carried out. -/
theorem served (k : Kept d s) (hout : s.queue.outstanding = []) :
    d.serveAll s.accepted = (s.queue.drive, s.queue.replies) := by
  obtain ⟨carried, haccepted, hserved⟩ := k.parted
  rw [haccepted, hout, List.append_nil, hserved]

end Kept

/-- An open queue with room takes a request. -/
theorem take_submit_of_room (k : Kept d s) (hopen : s.queue.closing = false)
    (hroom : s.queue.pending.length < queueDepth) (r : Request) :
    s.queue.submit? r = some { s.queue with pending := s.queue.pending ++ [r] } ∧
      s.take (.submit r) =
        { queue := { s.queue with pending := s.queue.pending ++ [r] },
          accepted := s.accepted ++ [r] } := by
  have hworker : s.queue.worker ≠ .stopped := by
    rcases k.unmarked hopen with hw | hw <;> simp [hw]
  have hsubmit := Queue.submit?_of_room (r := r) hroom hworker
  refine ⟨hsubmit, ?_⟩
  simp only [take, hopen, hsubmit]
  rfl

/-! ## How long it takes -/

/-- A bound that no step raises and that each step of the worker brings down is used up by as many
steps of the worker, whoever else comes between them. -/
theorem runs_down {P : Traffic → Prop} {bound : Traffic → Nat}
    (hkeep : ∀ s step, P s → P (s.take step))
    (hwork : ∀ s, P s → bound (s.take .work) ≤ bound s - 1)
    (hother : ∀ s step, P s → step ≠ .work → bound (s.take step) ≤ bound s)
    (hs : P s) (hmore : bound s ≤ more.count .work) :
    P (s.after more) ∧ bound (s.after more) = 0 := by
  induction more generalizing s with
  | nil => exact ⟨hs, Nat.le_zero.1 hmore⟩
  | cons step rest ih =>
    refine ih (hkeep s step hs) ?_
    rw [List.count_cons] at hmore
    by_cases hstep : step = .work
    · subst hstep
      have := hwork s hs
      simp only [beq_self_eq_true, if_true] at hmore
      omega
    · have := hother s step hs hstep
      simp only [beq_iff_eq, hstep, if_false] at hmore
      omega

/-- The most steps that the worker needs until it has given `n` replies. -/
def stepsTo (n : Nat) (s : Traffic) : Nat :=
  3 * (n - s.queue.replies.length) -
    match s.queue.inHand, s.queue.worker with
    | some _, _ => 2
    | none, .checking => 0
    | none, _ => 1

theorem stepsTo_work {n : Nat} (k : Kept d s) (hn : n ≤ s.accepted.length) :
    (s.take .work).stepsTo n ≤ s.stepsTo n - 1 := by
  rw [k.length_accepted] at hn
  show stepsTo n { s with queue := s.queue.work } ≤ _
  obtain ⟨r, hhand, hwork⟩ | ⟨hhand, ⟨r, rest, hpending, hworker, hwork⟩ | ⟨hnone, hwork⟩⟩ :=
    s.queue.work_cases
  · -- one reply more
    rw [hwork, Queue.carryOut_eq]
    simp only [stepsTo, hhand, List.length_append, List.length_singleton]
    split <;> omega
  · rw [hwork]
    rcases hworker with hworker | hworker <;>
    · simp only [stepsTo, hhand, hworker]
      omega
  · rw [hwork]
    by_cases hlack : s.queue.replies.length < n
    · -- some request is not carried out, so the worker was about to look at the mark
      have hout : s.queue.outstanding ≠ [] := by
        intro h
        rw [h] at hn
        exact absurd hn (Nat.not_le.2 hlack)
      have hworker : s.queue.worker = .checking := by
        cases hw : s.queue.worker with
        | checking => rfl
        | receiving => exact absurd (by rw [Queue.outstanding, hhand, hnone (.inl hw)]; rfl) hout
        | draining => exact absurd (by rw [Queue.outstanding, hhand, hnone (.inr hw)]; rfl) hout
        | leaving => exact absurd (k.emptied (.inl hw)) hout
        | stopped => exact absurd (k.emptied (.inr hw)) hout
      simp only [stepsTo, hhand, hworker, Queue.turned]
      cases s.queue.closing <;> exact Nat.le_refl _
    · simp only [stepsTo]
      omega

theorem stepsTo_other {n : Nat} (hstep : step ≠ .work) : (s.take step).stepsTo n = s.stepsTo n := by
  cases step with
  | submit r =>
    obtain hs | ⟨-, -, hs⟩ := s.take_submit r
    · rw [hs]
    · rw [hs]
      rfl
  | work => exact absurd rfl hstep
  | close => rfl

/-- What was accepted stays accepted, in its place. -/
theorem accepted_take (s : Traffic) (step : QueueStep) : s.accepted <+: (s.take step).accepted := by
  cases step with
  | submit r =>
    obtain hs | ⟨-, -, hs⟩ := s.take_submit r
    · simp only [hs, List.prefix_rfl]
    · rw [hs]
      exact List.prefix_append _ _
  | work => exact List.prefix_rfl
  | close => exact List.prefix_rfl

theorem accepted_after (s : Traffic) (steps : List QueueStep) :
    s.accepted <+: (s.after steps).accepted := by
  induction steps generalizing s with
  | nil => exact List.prefix_rfl
  | cons step rest ih => exact (s.accepted_take step).trans (ih (s.take step))

/-- The first `n` requests are carried out after so many steps of the worker. -/
theorem Kept.carried_within {n : Nat} (k : Kept d s) (hn : n ≤ s.accepted.length)
    (hmore : s.stepsTo n ≤ more.count .work) : n ≤ (s.after more).queue.replies.length := by
  have h := runs_down (P := fun s => Kept d s ∧ n ≤ s.accepted.length)
    (fun s step h => ⟨h.1.take step, Nat.le_trans h.2 (s.accepted_take step).length_le⟩)
    (fun s h => stepsTo_work h.1 h.2) (fun s step _ hstep => Nat.le_of_eq (stepsTo_other hstep))
    ⟨k, hn⟩ hmore
  have hzero := h.2
  unfold stepsTo at hzero
  split at hzero <;> omega

/-- The most steps that the worker still takes once the mark is set. -/
def stepsLeft (s : Traffic) : Nat :=
  s.queue.inHand.toList.length + 2 * s.queue.pending.length +
    match s.queue.worker with
    | .receiving => 4
    | .checking => 3
    | .draining => 2
    | .leaving => 1
    | .stopped => 0

theorem stepsLeft_work (k : Kept d s) (hclosing : s.queue.closing = true) :
    (s.take .work).stepsLeft ≤ s.stepsLeft - 1 := by
  show stepsLeft { s with queue := s.queue.work } ≤ _
  obtain ⟨r, hhand, hwork⟩ | ⟨hhand, ⟨r, rest, hpending, hworker, hwork⟩ | ⟨hnone, hwork⟩⟩ :=
    s.queue.work_cases
  · rw [hwork, Queue.carryOut_eq]
    simp only [stepsLeft, hhand, Option.toList_some, Option.toList_none, List.length_singleton,
      List.length_nil]
    omega
  · rw [hwork]
    rcases hworker with hworker | hworker <;>
    · simp [stepsLeft, hhand, hpending, hworker, Queue.taking]
      omega
  · rw [hwork]
    cases hw : s.queue.worker with
    | checking => simp [stepsLeft, hw, Queue.turned, hclosing]
    | receiving => simp [stepsLeft, hw, Queue.turned]
    | draining => simp [stepsLeft, hw, Queue.turned]
    | leaving => simp [stepsLeft, hw, Queue.turned]
    | stopped =>
      have hout := k.emptied (.inr hw)
      rw [Queue.outstanding, hhand] at hout
      have hpending : s.queue.pending = [] := hout
      simp [stepsLeft, hw, Queue.turned, hhand, hpending]

theorem closing_take (hclosing : s.queue.closing = true) (step : QueueStep) :
    (s.take step).queue.closing = true := by
  cases step with
  | submit r =>
    obtain hs | ⟨-, -, hs⟩ := s.take_submit r <;>
    · rw [hs]
      exact hclosing
  | work => exact s.queue.closing_work.trans hclosing
  | close => rfl

theorem stepsLeft_other (hclosing : s.queue.closing = true) (hstep : step ≠ .work) :
    (s.take step).stepsLeft = s.stepsLeft := by
  cases step with
  | submit r =>
    obtain hs | ⟨hopen, -⟩ := s.take_submit r
    · rw [hs]
    · rw [hclosing] at hopen
      cases hopen
  | work => exact absurd rfl hstep
  | close => rfl

/-- Once the mark is set the worker stops after so many steps. -/
theorem Kept.stopped_within (k : Kept d s) (hclosing : s.queue.closing = true)
    (hmore : s.stepsLeft ≤ more.count .work) : (s.after more).queue.worker = .stopped := by
  have h := runs_down (P := fun s => Kept d s ∧ s.queue.closing = true)
    (fun s step h => ⟨h.1.take step, closing_take h.2 step⟩)
    (fun s h => stepsLeft_work h.1 h.2)
    (fun s step h hstep => Nat.le_of_eq (stepsLeft_other h.2 hstep)) ⟨k, hclosing⟩ hmore
  have hzero := h.2
  unfold stepsLeft at hzero
  cases hw : (s.after more).queue.worker with
  | stopped => rfl
  | _ => simp [hw] at hzero

/-! ## Requests served in order -/

/-- Any callers, the worker and the closing of a queue, in any order of their steps. The requests
carried out are the oldest of those accepted, each once and in the order they came in, and each is
answered what it gives on the file as the requests before it left it, whether or not those failed.
Every accepted request is answered once the worker has taken so many steps. A queue that is closed
comes to its end, and then no accepted request is left. -/
theorem requests_are_served_in_order (d : Drive) (steps : List QueueStep) :
    let s := (start d).after steps
    (∃ carried, s.accepted = carried ++ s.queue.outstanding ∧
      d.serveAll carried = (s.queue.drive, s.queue.replies)) ∧
    (∀ i r reply, s.accepted[i]? = some r → s.queue.replies[i]? = some reply →
      reply = ((d.serveAll (s.accepted.take i)).1.serve r).2) ∧
    (s.queue.closing = false → s.queue.pending.length < queueDepth →
      ∀ r, (s.take (.submit r)).accepted = s.accepted ++ [r]) ∧
    (∀ more, s.accepted <+: (s.after more).accepted ∧
      ∀ n ≤ s.accepted.length, 3 * (n - s.queue.replies.length) ≤ more.count .work →
        n ≤ (s.after more).queue.replies.length) ∧
    (s.queue.closing = true → ∀ more,
      2 * s.queue.outstanding.length + 4 ≤ more.count .work →
        (s.after more).queue.worker = .stopped) ∧
    (s.queue.worker = .stopped → d.serveAll s.accepted = (s.queue.drive, s.queue.replies)) := by
  intro s
  have k : Kept d s := (Kept.start d).after steps
  obtain ⟨carried, haccepted, hserved⟩ := k.parted
  refine ⟨⟨carried, haccepted, hserved⟩, fun i r reply hr hreply => ?_, fun hopen hroom r => ?_,
    fun more => ⟨s.accepted_after more, fun n hn hmore => ?_⟩, fun hclosing more hmore => ?_,
    fun hstopped => ?_⟩
  · have hi : i < carried.length := by
      obtain ⟨hi, -⟩ := List.getElem?_eq_some_iff.1 hreply
      rwa [← d.length_serveAll carried, hserved]
    have hwhat := d.replies_serveAll carried i
    rw [haccepted, List.getElem?_append_left hi] at hr
    rw [hserved, hreply, hr] at hwhat
    rw [haccepted, List.take_append_of_le_length (Nat.le_of_lt hi)]
    exact Option.some.inj hwhat
  · rw [(take_submit_of_room k hopen hroom r).2]
  · exact k.carried_within hn (Nat.le_trans (Nat.sub_le _ _) hmore)
  · refine k.stopped_within hclosing (Nat.le_trans ?_ hmore)
    simp only [stepsLeft, Queue.outstanding, List.length_append]
    split <;> omega
  · exact k.served (k.emptied (.inr hstopped))

/-- A drive whose file is empty. -/
def bare : Drive := ⟨⟨∅, [], false⟩, { key := "/db/t.dat", path := "/db/t.dat" }⟩

/-- A read that fails and a write. The queue is closed when the worker has taken the read, and
another caller comes too late. -/
def rush : List QueueStep :=
  [.submit (.read 5), .work, .submit (.write 0 .blank), .work, .close, .submit (.read 0)]

/-- Both requests are carried out after the queue was closed, and the third is not accepted. -/
theorem rush_is_served :
    let s := (start bare).after rush
    let s' := s.after (List.replicate 8 .work)
    (s.queue.closing = true ∧
      2 * s.queue.outstanding.length + 4 ≤ (List.replicate 8 QueueStep.work).count .work) ∧
    s.queue.replies = [] ∧
    s'.accepted = [.read 5, .write 0 .blank] ∧ s'.queue.worker = .stopped ∧
    bare.serveAll [.read 5, .write 0 .blank] = (s'.queue.drive, s'.queue.replies) := by
  have hbound : 2 * ((start bare).after rush).queue.outstanding.length + 4 ≤
      (List.replicate 8 QueueStep.work).count .work := by decide
  obtain ⟨-, -, -, -, hend, -⟩ := requests_are_served_in_order bare rush
  obtain ⟨-, -, -, -, -, hserved⟩ :=
    requests_are_served_in_order bare (rush ++ List.replicate 8 .work)
  have hstopped := hend rfl (List.replicate 8 .work) hbound
  rw [after_append] at hserved
  exact ⟨⟨rfl, hbound⟩, rfl, rfl, hstopped, hserved hstopped⟩

/-! ## Batches -/

theorem after_work (s : Traffic) (n : Nat) :
    s.after (List.replicate n .work) = { s with queue := Queue.workFor n s.queue } := by
  induction n generalizing s with
  | zero => rfl
  | succ n ih => exact ih (s.take .work)

/-- Putting in a request is a step of a caller, after some of the worker if there is no room. -/
theorem submit_steps (k : Kept d s) (hopen : s.queue.closing = false) (r : Request) :
    ∃ steps, s.after steps = { queue := s.queue.submit r, accepted := s.accepted ++ [r] } ∧
      (s.queue.submit r).closing = false := by
  by_cases hroom : s.queue.pending.length < queueDepth
  · obtain ⟨hsubmit, htake⟩ := take_submit_of_room k hopen hroom r
    refine ⟨[.submit r], ?_, ?_⟩
    · rw [Queue.submit, hsubmit]
      exact htake
    · rw [Queue.submit, hsubmit]
      exact hopen
  · -- the queue is full
    cases hpending : s.queue.pending with
    | nil =>
      rw [hpending] at hroom
      exact absurd (by decide) hroom
    | cons q rest =>
      have hrest := Queue.pending_workFor_three hopen (k.unmarked hopen) hpending
      have hnone : s.queue.submit? r = none := if_neg fun h => hroom h.1
      have k' := k.after (List.replicate 3 .work)
      rw [after_work] at k'
      have hopen' : (Queue.workFor 3 s.queue).closing = false :=
        (Queue.closing_workFor 3 s.queue).trans hopen
      have hroom' : (Queue.workFor 3 s.queue).pending.length < queueDepth := by
        have hbounded := k.bounded
        rw [hpending] at hbounded
        rw [hrest]
        exact hbounded
      obtain ⟨hsubmit, htake⟩ := take_submit_of_room k' hopen' hroom' r
      have hq : s.queue.submit r =
          { Queue.workFor 3 s.queue with pending := (Queue.workFor 3 s.queue).pending ++ [r] } := by
        simp only [Queue.submit, hnone, hsubmit, Option.getD_some]
      refine ⟨List.replicate 3 .work ++ [.submit r], ?_, ?_⟩
      · rw [after_append, after_work, hq]
        exact htake
      · rw [hq]
        exact hopen'

theorem foldl_submit_steps (k : Kept d s) (hopen : s.queue.closing = false) (rs : List Request) :
    ∃ steps, s.after steps =
      { queue := rs.foldl Queue.submit s.queue, accepted := s.accepted ++ rs } := by
  induction rs generalizing s with
  | nil => exact ⟨[], by simp [after]⟩
  | cons r rest ih =>
    obtain ⟨first, hfirst, hopen'⟩ := submit_steps k hopen r
    have k' := k.after first
    rw [hfirst] at k'
    obtain ⟨others, hothers⟩ := ih k' hopen'
    refine ⟨first ++ others, ?_⟩
    rw [after_append, hfirst, hothers, List.append_assoc]
    rfl

theorem length_outstanding_le (q : Queue) : q.outstanding.length ≤ q.pending.length + 1 := by
  rw [Queue.outstanding, List.length_append, Nat.add_comm]
  refine Nat.add_le_add_left ?_ _
  cases q.inHand <;> simp

/-- The worker alone answers all that was accepted. -/
theorem Kept.finished (k : Kept d s) {n : Nat} (hn : 3 * s.queue.pending.length + 3 ≤ n) :
    d.serveAll s.accepted = ((Queue.workFor n s.queue).drive, (Queue.workFor n s.queue).replies) := by
  have hlen := k.length_accepted
  have hout := length_outstanding_le s.queue
  have hmore : s.stepsTo s.accepted.length ≤ (List.replicate n QueueStep.work).count .work := by
    rw [List.count_replicate_self]
    unfold stepsTo
    omega
  have hreplies := k.carried_within (Nat.le_refl _) hmore
  have k' := k.after (List.replicate n .work)
  rw [after_work] at hreplies k'
  have hlen' : s.accepted.length = _ := k'.length_accepted
  exact k'.served (List.eq_nil_of_length_eq_zero (by omega))

/-- Once the mark is set the worker alone answers all that was accepted, and stops. -/
theorem Kept.ended (k : Kept d s) (hclosing : s.queue.closing = true) {n : Nat}
    (hn : 2 * s.queue.pending.length + 5 ≤ n) :
    (Queue.workFor n s.queue).worker = .stopped ∧
      d.serveAll s.accepted = ((Queue.workFor n s.queue).drive, (Queue.workFor n s.queue).replies) := by
  have hmore : s.stepsLeft ≤ (List.replicate n QueueStep.work).count .work := by
    have hhand : s.queue.inHand.toList.length ≤ 1 := by cases s.queue.inHand <;> simp
    rw [List.count_replicate_self]
    unfold stepsLeft
    split <;> omega
  have hstopped := k.stopped_within hclosing hmore
  have k' := k.after (List.replicate n .work)
  rw [after_work] at hstopped k'
  exact ⟨hstopped, k'.served (k'.emptied (.inr hstopped))⟩

/-- A batch gets the replies that its requests give one after another. -/
theorem batch_eq (d : Drive) (rs : List Request) :
    d.serveAll rs =
      ((Queue.batch { drive := d } rs).drive, (Queue.batch { drive := d } rs).replies) := by
  obtain ⟨steps, hsteps⟩ := foldl_submit_steps (Kept.start d) rfl rs
  have k := (Kept.start d).after steps
  rw [hsteps] at k
  exact k.finished (Nat.le_refl _)

/-- A batch that nobody waits for is carried out all the same, and the worker comes to its end. -/
theorem batchAndClose_eq (d : Drive) (rs : List Request) :
    let q := Queue.batchAndClose { drive := d } rs
    q.worker = .stopped ∧ d.serveAll rs = (q.drive, q.replies) := by
  obtain ⟨steps, hsteps⟩ := foldl_submit_steps (Kept.start d) rfl rs
  have k := (Kept.start d).after steps
  rw [hsteps] at k
  exact k.close.ended rfl (Nat.le_succ _)

end Traffic

end PageStore

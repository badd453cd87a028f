import Mathlib.Data.List.Sort

/-!
# The event log and its stream

Every state change appends a row to `domain_events` in its own transaction.  The row takes its
number from a sequence at once and becomes visible when the transaction commits, so rows can become
visible out of the order of their numbers, and numbers of rolled-back transactions never do.

A subscriber follows the log with a cursor.  Each poll reads a batch above the cursor and moves the
cursor to every row it sends.  The first poll that finds nothing is followed by a second query for
the head of the log, to which the cursor is moved.  Both moves assume that nothing below can still
appear: a row that becomes visible behind the cursor is never sent.
-/

namespace BbzPlatform.EventLog

/-- A row of the log; the body stands for its type and envelope. -/
structure DomainEvent (β : Type) where
  seq : ℤ
  body : β
  deriving DecidableEq

/-- The log: the sequence, the rows of open transactions and the visible rows. -/
structure Log (τ β : Type) where
  next : ℤ
  uncommitted : List (τ × DomainEvent β)
  committed : List (DomainEvent β)

namespace Log

variable {τ β : Type} [DecidableEq τ] (log : Log τ β)

/-- Append a row in a transaction.  The sequence may skip numbers. -/
def appendEvent (tx : τ) (skip : ℕ) (body : β) : Log τ β :=
  { log with
    next := log.next + skip + 1
    uncommitted := log.uncommitted ++ [(tx, ⟨log.next + skip, body⟩)] }

/-- Make the rows of a transaction visible. -/
def commit (tx : τ) : Log τ β :=
  { log with
    uncommitted := log.uncommitted.filter (·.1 ≠ tx)
    committed := log.committed ++ (log.uncommitted.filter (·.1 = tx)).map Prod.snd }

/-- Drop the rows of a transaction. -/
def rollback (tx : τ) : Log τ β :=
  { log with uncommitted := log.uncommitted.filter (·.1 ≠ tx) }

end Log

section Queries

variable {β : Type}

/-- `SELECT coalesce(max(event_seq), 0)`. -/
def headSeq (rows : List (DomainEvent β)) : ℤ := (rows.map (·.seq)).foldr max 0

/-- The rows above a number in the order of their numbers, at most `limit`. -/
def readSince (rows : List (DomainEvent β)) (after : ℤ) (limit : ℕ) : List (DomainEvent β) :=
  ((rows.filter (after < ·.seq)).insertionSort fun a b => a.seq ≤ b.seq).take limit

/-- The rows a poll asks for. -/
def catchupBatch : ℕ := 500

end Queries

/-! ## The feed -/

/-- What the feed yields. -/
inductive Frame (β : Type) where
  | event (row : DomainEvent β)
  | catchUpComplete (head : ℤ)
  | heartbeat
  deriving DecidableEq

/-- Where the feed stands: at the top of its loop, between the rows of a batch, or between an empty
poll and the query for the head. -/
inductive Phase (β : Type) where
  | polling
  | sending (rows : List (DomainEvent β))
  | atHead

/-- The state of `event_feed`. -/
structure Feed (β : Type) where
  last : ℤ
  caughtUp : Bool
  phase : Phase β
  frames : List (Frame β)

namespace Feed

variable {β : Type}

/-- The feed after `after_seq`. -/
def start (after : ℤ) : Feed β := ⟨after, false, .polling, []⟩

/-- One move of the feed: a query, or the next row of the batch. -/
def step (rows : List (DomainEvent β)) (feed : Feed β) : Feed β :=
  match feed.phase with
  | .polling =>
    match readSince rows feed.last catchupBatch with
    | row :: rest => { feed with phase := .sending (row :: rest) }
    | [] =>
      if feed.caughtUp then { feed with frames := feed.frames ++ [.heartbeat] }
      else { feed with phase := .atHead }
  | .sending [] => { feed with phase := .polling }
  | .sending [row] =>
    { feed with last := row.seq, phase := .polling, frames := feed.frames ++ [.event row] }
  | .sending (row :: rest) =>
    { feed with last := row.seq, phase := .sending rest, frames := feed.frames ++ [.event row] }
  | .atHead =>
    let head := max feed.last (headSeq rows)
    ⟨head, true, .polling, feed.frames ++ [.catchUpComplete head, .heartbeat]⟩

def sent (feed : Feed β) : List (DomainEvent β) :=
  feed.frames.filterMap fun
    | .event row => some row
    | _ => none

end Feed

/-- Writers and one subscriber. -/
structure System (τ β : Type) where
  log : Log τ β
  feed : Feed β

/-- A writer takes a step, or the feed does where it may. -/
inductive Step {τ β : Type} [DecidableEq τ] (may : System τ β → Prop) :
    System τ β → System τ β → Prop where
  | append {s : System τ β} (tx : τ) (skip : ℕ) (body : β) :
      Step may s { s with log := s.log.appendEvent tx skip body }
  | commit {s : System τ β} (tx : τ) : Step may s { s with log := s.log.commit tx }
  | rollback {s : System τ β} (tx : τ) : Step may s { s with log := s.log.rollback tx }
  | feed {s : System τ β} (h : may s) :
      Step may s { s with feed := s.feed.step s.log.committed }

variable {τ β : Type} [DecidableEq τ]

abbrev AnyStep : System τ β → System τ β → Prop := Step fun _ => True

/-- Every visible row up to the cursor has been sent exactly once, in particular up to a head the
feed has announced. -/
def Complete (after : ℤ) (s : System τ β) : Prop :=
  ∀ e ∈ s.log.committed, after < e.seq →
    (e.seq ≤ s.feed.last ∨ ∃ head, .catchUpComplete head ∈ s.feed.frames ∧ e.seq ≤ head) →
    (s.feed.sent.map (·.seq)).count e.seq = 1

/-- Nothing can still appear behind the next move of the cursor: a poll returns no row above one
of an open transaction, and since the empty poll no row has become visible. -/
def Settled (after : ℤ) (s : System τ β) : Prop :=
  match s.feed.phase with
  | .polling => ∀ u ∈ s.log.uncommitted, after < u.2.seq →
      ∀ row ∈ readSince s.log.committed s.feed.last catchupBatch, row.seq < u.2.seq
  | .sending _ => True
  | .atHead => ∀ e ∈ s.log.committed, e.seq ≤ s.feed.last

end BbzPlatform.EventLog

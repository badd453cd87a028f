import BbzPlatform.Lib.Turns
import BbzPlatform.Outbox.Repository

/-!
# Dispatchers at work on one outbox

`run_once` claims a batch of due rows in one transaction, which locks them and skips those that are
locked, and keeps only their ids.  Then it processes them one by one, each in a transaction that
locks the row again: it runs the handler, writes the outcome and commits.  Any number of workers do
this on the same table, and each may fail at any point.
-/

namespace BbzPlatform.Outbox

open Turns Function List

/-- Where a worker stands, with the ids of its batch that are left. -/
inductive Phase where
  | idle
  /-- The claim is not committed. -/
  | claiming (ids : List String)
  /-- Between two transactions. -/
  | queued (ids : List String)
  /-- The handler runs, in the transaction that has locked the row. -/
  | running (row : OutboxRow) (rest : List String)
  /-- The handler has ended. -/
  | returned (row : OutboxRow) (outcome : Outcome) (rest : List String)
  /-- The outcome is written but not committed. -/
  | writing (old : OutboxRow) (new : Written) (rest : List String)

namespace Phase

def ids : Phase → List String
  | idle => []
  | claiming ids => ids
  | queued ids => ids
  | running row rest => row.id :: rest
  | returned row _ rest => row.id :: rest
  | writing old _ rest => old.id :: rest

/-- The ids of the rows it has locked. -/
def held : Phase → List String
  | idle => []
  | claiming ids => ids
  | queued _ => []
  | running row _ => [row.id]
  | returned row _ _ => [row.id]
  | writing old _ _ => [old.id]

/-- The row it works on, as it was when it was locked. -/
def row? : Phase → Option OutboxRow
  | running row _ => some row
  | returned row _ _ => some row
  | writing old _ _ => some old
  | _ => none

/-- The row whose handler has returned, until the transaction ends. -/
def delivers : Phase → Option String
  | returned row (.ok _) _ => some row.id
  | writing old new _ => if new.row.status = .dispatched then some old.id else none
  | _ => none

end Phase

inductive Move where
  | wait (duration : ℕ)
  /-- A transaction that began a while ago commits a new row. -/
  | enqueue (id dedupeKey actionType : String) (payload : List (String × Json)) (ago : ℕ)
  | claim (limit : ℕ)
  | release
  /-- Lock the next row and look at it. -/
  | take
  /-- The handler ends. -/
  | handle (outcome : Outcome)
  | record
  | commit
  /-- A statement fails and its exception is caught, but the transaction cannot commit. -/
  | rollback
  | done
  /-- The worker dies, or a failing statement ends `run_once`. -/
  | crash

/-- The table with its locks and what has been committed beside it, the workers, each start of a
handler (the row as it was, and when), and the rows whose handler has returned. -/
structure System where
  clock : ℤ
  rows : List OutboxRow
  lockedBy : String → Option ℕ
  audits : List AuditEntry
  notes : List Note
  phase : ℕ → Phase
  starts : List (OutboxRow × ℤ)
  delivered : List String

namespace System

/-- The table is empty. -/
def start (clock : ℤ) : System := ⟨clock, [], fun _ => none, [], [], fun _ => .idle, [], []⟩

def goto (s : System) (p : ℕ) (phase : Phase) : System :=
  { s with phase := Function.update s.phase p phase }

def lock (s : System) (p : ℕ) (ids : List String) : System :=
  { s with lockedBy := fun id => if id ∈ ids then some p else s.lockedBy id }

/-- The end of a transaction. -/
def unlock (s : System) (p : ℕ) : System :=
  { s with lockedBy := fun id => if s.lockedBy id = some p then none else s.lockedBy id }

def step (setup : Setup) (s : System) (p : ℕ) (m : Move) : Option System :=
  match m, s.phase p with
  | .wait duration, _ => some { s with clock := s.clock + duration }
  | .enqueue id dedupeKey actionType payload ago, _ =>
    if s.rows.any (·.id = id) then none
    else some { s with rows :=
      (enqueue setup.scrub s.rows id dedupeKey actionType payload (s.clock - ago)).1 }
  | .claim limit, .idle =>
    let ids :=
      (claimDue s.rows (fun id => (s.lockedBy id).isSome) s.clock limit).map (·.id)
    some ((s.lock p ids).goto p (.claiming ids))
  | .release, .claiming ids => some ((s.unlock p).goto p (.queued ids))
  | .take, .queued (id :: rest) =>
    -- a lock that another worker holds is waited for
    if (s.lockedBy id).isSome then none
    else
      match rowById s.rows id with
      | none => some (s.goto p (.queued rest))
      | some row =>
        if row.status ≠ .pending then some (s.goto p (.queued rest))
        else if row.actionType ∈ setup.handlers then
          some { (s.lock p [id]).goto p (.running row rest) with
            starts := s.starts ++ [(row, s.clock)] }
        else some ((s.lock p [id]).goto p (.writing row (unhandled setup row) rest))
  | .handle outcome, .running row rest =>
    some { s.goto p (.returned row outcome rest) with
      delivered := match outcome with
        | .ok _ => s.delivered ++ [row.id]
        | .error _ => s.delivered }
  | .record, .returned row outcome rest =>
    some (s.goto p (.writing row (recorded setup row s.clock outcome) rest))
  | .commit, .writing _ new rest =>
    some { (s.unlock p).goto p (.queued rest) with
      rows := update s.rows new.row
      audits := s.audits ++ new.audits
      notes := s.notes ++ new.note.toList }
  | .rollback, .writing _ _ rest => some ((s.unlock p).goto p (.queued rest))
  | .done, .queued [] => some (s.goto p .idle)
  | .crash, _ => some ((s.unlock p).goto p .idle)
  | _, _ => none

end System

def System.committed (s : System) (p : ℕ) (new : Written) (rest : List String) : System :=
  { (s.unlock p).goto p (.queued rest) with
    rows := update s.rows new.row
    audits := s.audits ++ new.audits
    notes := s.notes ++ new.note.toList }

/-- The moves that are possible, and what they do. -/
inductive Happens (setup : Setup) (s : System) (p : ℕ) : Move → System → Prop
  | wait (duration : ℕ) :
      Happens setup s p (.wait duration) { s with clock := s.clock + duration }
  | enqueue {id : String} (hid : s.rows.any (·.id = id) = false) (dedupeKey actionType : String)
      (payload : List (String × Json)) (ago : ℕ) :
      Happens setup s p (.enqueue id dedupeKey actionType payload ago) { s with rows :=
        (enqueue setup.scrub s.rows id dedupeKey actionType payload (s.clock - ago)).1 }
  | claim (hp : s.phase p = .idle) (limit : ℕ) {ids : List String}
      (hids : ids =
        (claimDue s.rows (fun id => (s.lockedBy id).isSome) s.clock limit).map (·.id)) :
      Happens setup s p (.claim limit) ((s.lock p ids).goto p (.claiming ids))
  | release {ids : List String} (hp : s.phase p = .claiming ids) :
      Happens setup s p .release ((s.unlock p).goto p (.queued ids))
  | skip {id : String} {rest : List String} (hp : s.phase p = .queued (id :: rest)) :
      Happens setup s p .take (s.goto p (.queued rest))
  | run {id : String} {rest : List String} {row : OutboxRow}
      (hp : s.phase p = .queued (id :: rest)) (hfree : s.lockedBy id = none)
      (hrow : rowById s.rows id = some row) (hpending : row.status = .pending)
      (hhandler : row.actionType ∈ setup.handlers) :
      Happens setup s p .take { (s.lock p [id]).goto p (.running row rest) with
        starts := s.starts ++ [(row, s.clock)] }
  | refuse {id : String} {rest : List String} {row : OutboxRow}
      (hp : s.phase p = .queued (id :: rest)) (hfree : s.lockedBy id = none)
      (hrow : rowById s.rows id = some row) (hpending : row.status = .pending) :
      Happens setup s p .take
        ((s.lock p [id]).goto p (.writing row (unhandled setup row) rest))
  | deliver {row : OutboxRow} {rest : List String} (hp : s.phase p = .running row rest)
      (result : Option Json) :
      Happens setup s p (.handle (.ok result)) { s.goto p (.returned row (.ok result) rest) with
        delivered := s.delivered ++ [row.id] }
  | raise {row : OutboxRow} {rest : List String} (hp : s.phase p = .running row rest)
      (error : String) :
      Happens setup s p (.handle (.error error)) (s.goto p (.returned row (.error error) rest))
  | record {row : OutboxRow} {outcome : Outcome} {rest : List String}
      (hp : s.phase p = .returned row outcome rest) :
      Happens setup s p .record
        (s.goto p (.writing row (recorded setup row s.clock outcome) rest))
  | commit {old : OutboxRow} {new : Written} {rest : List String}
      (hp : s.phase p = .writing old new rest) :
      Happens setup s p .commit (s.committed p new rest)
  | rollback {old : OutboxRow} {new : Written} {rest : List String}
      (hp : s.phase p = .writing old new rest) :
      Happens setup s p .rollback ((s.unlock p).goto p (.queued rest))
  | done (hp : s.phase p = .queued []) : Happens setup s p .done (s.goto p .idle)
  | crash : Happens setup s p .crash ((s.unlock p).goto p .idle)

variable {setup : Setup} {s t : System} {p q : ℕ} {m : Move} {phase : Phase} {row old : OutboxRow}
  {ids rest : List String} {new : Written}

theorem happens_of_step (hstep : s.step setup p m = some t) : Happens setup s p m t := by
  revert hstep
  fun_cases System.step setup s p m <;> rintro ⟨⟩
  next duration => exact .wait duration
  next dedupeKey actionType payload ago hid =>
    exact .enqueue (Bool.eq_false_of_not_eq_true hid) dedupeKey actionType payload ago
  next limit hp _ => exact .claim hp limit rfl
  next hp => exact .release hp
  next hp _ _ => exact .skip hp
  next hp _ _ _ _ => exact .skip hp
  next hp hfree row hrow hpending hhandler =>
    exact .run hp (by simpa using hfree) hrow (not_not.mp hpending) hhandler
  next hp hfree row hrow hpending _ =>
    exact .refuse hp (by simpa using hfree) hrow (not_not.mp hpending)
  next outcome row rest hp =>
    cases outcome with
    | ok result => exact .deliver hp result
    | error error => exact .raise hp error
  next hp => exact .record hp
  next hp => exact .commit hp
  next hp => exact .rollback hp
  next hp => exact .done hp
  · exact .crash

/-! ## What every run preserves -/

/-- A handler runs only for an action type that has one, and what is written is an attempt. -/
def Phase.Fits (setup : Setup) : Phase → Prop
  | running row _ => row.actionType ∈ setup.handlers
  | returned row _ _ => row.actionType ∈ setup.handlers
  | writing old new _ => Attempted setup old new
  | _ => True

/-- What a phase says about the table and the locks. -/
structure Valid (setup : Setup) (s : System) (p : ℕ) (phase : Phase) : Prop where
  locked : ∀ id ∈ phase.held, s.lockedBy id = some p
  nodup : phase.ids.Nodup
  current : ∀ row ∈ phase.row?, row ∈ s.rows ∧ row.status = .pending
  fits : phase.Fits setup

/-- The facts about the table and the workers that hold in every run. -/
structure Sound (setup : Setup) (s : System) : Prop where
  nodup : (s.rows.map (·.id)).Nodup
  bounded : ∀ row ∈ s.rows,
    row.attempts ≤ maxAttempts ∧ (row.status = .pending → row.attempts < maxAttempts)
  valid : ∀ p, Valid setup s p (s.phase p)
  started : ∀ a ∈ s.starts, a.1.status = .pending

theorem Phase.id_mem_held (h : row ∈ phase.row?) : row.id ∈ phase.held := by
  cases phase <;> simp_all [row?, held]

/-- Another worker moves. -/
theorem Valid.other (h : Valid setup s q phase)
    (hlock : ∀ id, s.lockedBy id = some q → t.lockedBy id = some q)
    (hrows : ∀ row ∈ s.rows, s.lockedBy row.id = some q → row ∈ t.rows) :
    Valid setup t q phase where
  locked id hid := hlock id (h.locked id hid)
  nodup := h.nodup
  current row hrow :=
    ⟨hrows row (h.current row hrow).1 (h.locked _ (Phase.id_mem_held hrow)),
      (h.current row hrow).2⟩
  fits := h.fits

namespace Sound

theorem start (clock : ℤ) : Sound setup (.start clock) where
  nodup := nodup_nil
  bounded := fun _ h => by cases h
  valid := fun _ => ⟨nofun, nodup_nil, nofun, trivial⟩
  started := fun _ h => by cases h

variable (hs : Sound setup s)
include hs

theorem valid_of (hp : s.phase p = phase) : Valid setup s p phase := hp ▸ hs.valid p

/-- A worker moves: it keeps its hands off the locks of the others and off the rows it has not
locked. -/
theorem move (phase : Phase) (hphase : t.phase = Function.update s.phase p phase)
    (hnodup : (t.rows.map (·.id)).Nodup) (hbounded : ∀ row ∈ t.rows,
      row.attempts ≤ maxAttempts ∧ (row.status = .pending → row.attempts < maxAttempts))
    (hlock : ∀ q, q ≠ p → ∀ id, s.lockedBy id = some q → t.lockedBy id = some q)
    (hrows : ∀ row ∈ s.rows, s.lockedBy row.id ≠ some p → row ∈ t.rows)
    (hvalid : Valid setup t p phase) (hstarted : ∀ a ∈ t.starts, a.1.status = .pending) :
    Sound setup t where
  nodup := hnodup
  bounded := hbounded
  started := hstarted
  valid := by
    rw [hphase]
    refine (forall_update_iff s.phase (Valid setup t)).mpr ⟨hvalid, fun q hne => ?_⟩
    refine (hs.valid q).other (hlock q hne) fun row hrow hq => hrows row hrow fun hp => hne ?_
    exact Option.some.inj (hq.symm.trans hp)

/-- Neither the time nor what has been delivered matters. -/
theorem observed (clock : ℤ) (delivered : List String) :
    Sound setup { s with clock := clock, delivered := delivered } :=
  ⟨hs.nodup, hs.bounded, fun q => (hs.valid q).other (fun _ h => h) fun _ h _ => h, hs.started⟩

/-- A transaction ends without a change. -/
theorem unlock_goto (p : ℕ) (hheld : phase.held = [])
    (hnodup : phase.ids.Nodup) : Sound setup ((s.unlock p).goto p phase) := by
  have hrow : phase.row? = none := by cases phase <;> simp_all [Phase.held, Phase.row?]
  have hfits : phase.Fits setup := by cases phase <;> simp_all [Phase.held, Phase.Fits]
  refine hs.move _ rfl hs.nodup hs.bounded (fun q hne id hq => ?_) (fun row h _ => h) ?_ hs.started
  · change (if s.lockedBy id = some p then none else s.lockedBy id) = some q
    rw [hq, if_neg (by simpa using hne)]
  · exact ⟨by simp [hheld], hnodup, by simp [hrow], hfits⟩

/-- A worker moves on within a transaction, or between two of them. -/
theorem goto {phase' : Phase} (hphase : s.phase p = phase')
    (hheld : phase.held = phase'.held) (hnodup : phase.ids.Nodup)
    (hrow : phase.row? = phase'.row?) (hfits : phase.Fits setup) :
    Sound setup (s.goto p phase) := by
  have hp := hs.valid_of hphase
  refine hs.move _ rfl hs.nodup hs.bounded (fun _ _ _ h => h) (fun row h _ => h) ?_ hs.started
  exact ⟨hheld ▸ hp.locked, hnodup, hrow ▸ hp.current, hfits⟩

theorem enqueue {id : String} (hid : s.rows.any (·.id = id) = false)
    (dedupeKey actionType : String) (payload : List (String × Json)) (now : ℤ) :
    Sound setup { s with
      rows := (Outbox.enqueue setup.scrub s.rows id dedupeKey actionType payload now).1 } := by
  unfold Outbox.enqueue
  split
  · exact hs
  · refine ⟨?_, fun row hrow => ?_,
      fun q => (hs.valid q).other (fun _ h => h) fun row h _ => mem_append_left _ h, hs.started⟩
    · rw [map_append]
      refine hs.nodup.append (nodup_singleton _) (disjoint_singleton.mpr ?_)
      simpa using hid
    · exact forall_mem_append.mpr ⟨hs.bounded, forall_mem_singleton.mpr
        ⟨Nat.zero_le _, fun _ => Nat.zero_lt_succ 7⟩⟩ row hrow

theorem claim (limit : ℕ) (hids : ids =
      (claimDue s.rows (fun id => (s.lockedBy id).isSome) s.clock limit).map (·.id)) :
    Sound setup ((s.lock p ids).goto p (.claiming ids)) := by
  refine hs.move _ rfl hs.nodup hs.bounded (fun q _ id hq => ?_) (fun row h _ => h) ?_ hs.started
  · -- what is claimed was not locked
    change (if id ∈ ids then some p else s.lockedBy id) = some q
    rw [if_neg, hq]
    intro hid
    rw [hids] at hid
    obtain ⟨row, hrow, rfl⟩ := mem_map.mp hid
    have hfree := (mem_claimDue hrow).2.2.2
    simp [hq] at hfree
  · exact ⟨fun id hid => if_pos hid, hids ▸ nodup_claimDue hs.nodup _ _ _, nofun, trivial⟩

theorem take {id : String} {starts : List (OutboxRow × ℤ)} (hp : s.phase p = .queued (id :: rest))
    (hfree : s.lockedBy id = none) (hrow : rowById s.rows id = some row)
    (hpending : row.status = .pending) (hheld : phase.held = [row.id])
    (hids : phase.ids = row.id :: rest) (hrow? : phase.row? = some row) (hfits : phase.Fits setup)
    (hstarted : ∀ a ∈ starts, a.1.status = .pending) :
    Sound setup { (s.lock p [id]).goto p phase with starts := starts } := by
  obtain ⟨hmem, rfl⟩ := (rowById_eq_some hs.nodup).mp hrow
  refine hs.move _ rfl hs.nodup hs.bounded (fun q _ id hq => ?_) (fun row h _ => h) ?_ hstarted
  · change (if id ∈ [row.id] then some p else s.lockedBy id) = some q
    rw [if_neg, hq]
    intro hid
    rw [mem_singleton.mp hid, hfree] at hq
    cases hq
  · refine ⟨fun id hid => ?_, hids ▸ (hs.valid_of hp).nodup, fun row' hrow' => ?_, hfits⟩
    · rw [hheld] at hid
      exact if_pos hid
    · rw [hrow?] at hrow'
      cases hrow'
      exact ⟨hmem, hpending⟩

/-- **The outcome is committed**: the row that is replaced is pending and locked. -/
theorem commit (hp : s.phase p = .writing old new rest) : Sound setup (s.committed p new rest) := by
  have hvalid := hs.valid_of hp
  obtain ⟨hlocked, hlist, hcurrent, hattempt⟩ := hvalid
  obtain ⟨hold, hpending⟩ := hcurrent old rfl
  have hlocked : s.lockedBy old.id = some p := hlocked _ mem_cons_self
  have hid := hattempt.id_eq
  have hbound := (hs.bounded old hold).2 hpending
  refine hs.move (.queued rest) rfl ?_ (fun row hrow => ?_) (fun q hne id hq => ?_)
    (fun row hrow hfree => ?_) ⟨nofun, (nodup_cons.mp hlist).2, nofun, trivial⟩ hs.started
  · change ((update s.rows new.row).map (·.id)).Nodup
    rw [map_id_update]
    exact hs.nodup
  · rcases mem_update hrow with rfl | ⟨hrow, -⟩
    · have hattempts := hattempt.attempts_eq
      exact ⟨by omega, hattempt.attempts_lt⟩
    · exact hs.bounded row hrow
  · change (if s.lockedBy id = some p then none else s.lockedBy id) = some q
    rw [hq, if_neg (by simpa using hne)]
  · exact mem_update_of_ne hrow fun heq => hfree (by rw [heq, hid, hlocked])

end Sound

/-- **Every move keeps the table and the workers sound.** -/
theorem Sound.step (hs : Sound setup s) (hstep : s.step setup p m = some t) : Sound setup t := by
  cases happens_of_step hstep with
  | wait duration => exact hs.observed (s.clock + duration) s.delivered
  | enqueue hid dedupeKey actionType payload ago => exact hs.enqueue hid _ _ _ _
  | claim hphase limit hids => exact hs.claim limit hids
  | release hphase => exact hs.unlock_goto p rfl (hs.valid_of hphase).nodup
  | skip hphase =>
    exact hs.goto hphase rfl (nodup_cons.mp (hs.valid_of hphase).nodup).2 rfl trivial
  | run hphase hfree hrow hpending hhandler =>
    exact hs.take hphase hfree hrow hpending rfl rfl rfl hhandler
      (forall_mem_append.mpr ⟨hs.started, forall_mem_singleton.mpr hpending⟩)
  | refuse hphase hfree hrow hpending =>
    exact hs.take hphase hfree hrow hpending rfl rfl rfl .unhandled hs.started
  | @deliver row rest hphase result =>
    have hgoto : Sound setup (s.goto p (.returned row (.ok result) rest)) :=
      hs.goto hphase rfl (hs.valid_of hphase).nodup rfl (hs.valid_of hphase).fits
    exact hgoto.observed s.clock (s.delivered ++ [row.id])
  | raise hphase error =>
    exact hs.goto hphase rfl (hs.valid_of hphase).nodup rfl (hs.valid_of hphase).fits
  | record hphase =>
    exact hs.goto hphase rfl (hs.valid_of hphase).nodup rfl
      (attempted_recorded (hs.valid_of hphase).fits _ _)
  | commit hphase => exact hs.commit hphase
  | rollback hphase =>
    exact hs.unlock_goto p rfl (nodup_cons.mp (hs.valid_of hphase).nodup).2
  | done hphase => exact hs.goto hphase rfl nodup_nil rfl trivial
  | crash => exact hs.unlock_goto p rfl nodup_nil

theorem Sound.final (hs : Sound setup s) (hstep : s.step setup p m = some t)
    (hrow : row ∈ s.rows) (hfinal : row.status ≠ .pending) : row ∈ t.rows := by
  cases happens_of_step hstep with
  | enqueue hid dedupeKey actionType payload ago =>
    unfold Outbox.enqueue
    split
    · exact hrow
    · exact mem_append_left _ hrow
  | commit hphase =>
    have hp := hs.valid_of hphase
    obtain ⟨hold, hpending⟩ := hp.current _ rfl
    refine mem_update_of_ne hrow fun heq => hfinal ?_
    rw [hp.fits.id_eq] at heq
    rwa [inj_on_of_nodup_map hs.nodup hrow hold heq]
  | _ => exact hrow

theorem step_take {id : String} (hp : s.phase p = .queued (id :: rest))
    (hfree : s.lockedBy id = none)
    (hrow : rowById s.rows id = some row) (hpending : row.status = .pending)
    (hhandler : row.actionType ∈ setup.handlers) :
    ∃ t, s.step setup p .take = some t ∧ t.phase p = .running row rest ∧
      t.starts = s.starts ++ [(row, s.clock)] ∧ t.delivered = s.delivered := by
  simp [System.step, System.goto, System.lock, hp, hfree, hrow, hpending, hhandler]

/-- Notifications have a handler, and nothing is redacted. -/
def plainSetup : Setup := ⟨["notify"], ⟨id, id, id⟩⟩

def notifyMove : Move := .enqueue "o1" "k1" "notify" [] 0

/-- A worker claims what is due and takes the first row. -/
def takeMoves (p : ℕ) : List (ℕ × Move) := [(p, .claim 20), (p, .release), (p, .take)]

end BbzPlatform.Outbox

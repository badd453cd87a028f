import BbzPlatform.Triggers.Drain

/-!
# Runs and the effects they leave

A run makes one transaction after the other and can be cut off between two of them.  Two databases
have the same effects if they differ in the recorded results and in the audit only.  Actions keep
such databases together, and each adds at most one row to the ledger and one to the outbox.
-/

namespace BbzPlatform.Triggers

open Raising List

/-! ## Runs, one transaction at a time -/

/-- The actions that are left, the results of the version that is run, the tables and the stage of
the first action. -/
structure Config where
  tasks : List Task
  results : List Fields
  db : Db
  stage : Stage

variable (env : Surroundings) (signal : Fields)

def next (c : Config) : Option Config :=
  match c.tasks with
  | [] => none
  | task :: rest =>
    match advance env signal task c.results c.db c.stage with
    | .goOn db' stage' => some { c with db := db', stage := stage' }
    | .done db' results' => some ⟨rest, carry rest results', db', .claim⟩
    | .escaped _ _ => none

/-- The transactions that a run can have made before it is cut off. -/
def Reaches : Config → Config → Prop :=
  Relation.ReflTransGen fun c c' => next env signal c = some c'

def Config.finish (c : Config) : RunEnd := run env signal c.tasks c.results c.db c.stage

/-- The actions of the versions that a signal matches. -/
def plan (providerEventId : String) (versions : List RuleVersion) : List Task :=
  versions.flatMap (·.tasks providerEventId)

/-- What `process_inbox_event` does with the published versions that an unprocessed row matches.  A
crash leaves the row unprocessed, and `resume_unprocessed` does the same again. -/
def runMatched (providerEventId : String) (versions : List RuleVersion) (db : Db) : RunEnd :=
  run env signal (plan providerEventId versions) [] db .claim

variable {env signal}

variable {task : Task} {tasks before rest : List Task}
  {action result result' : Fields} {results results' : List Fields} {c c' : Config} {a b a' b' : Db}
  {key : ExecutionKey} {actionType : String} {status status' : ExecutionStatus} {made : Made}
  {last : Option String} {providerEventId : String} {versions : List RuleVersion}

/-- A transaction does not change where the run ends. -/
theorem finish_next (h : next env signal c = some c') :
    c.finish env signal = c'.finish env signal := by
  obtain ⟨tasks, results, db, stage⟩ := c
  cases tasks with
  | nil => cases h
  | cons task rest =>
    rw [Config.finish, run]
    cases hadv : advance env signal task results db stage with
    | goOn db' stage' =>
      simp only [next, hadv] at h
      cases h
      rw [runTask_goOn hadv]
      rfl
    | done db' results' =>
      simp only [next, hadv] at h
      cases h
      rw [runTask_done hadv]
      rfl
    | escaped db' e =>
      simp only [next, hadv] at h
      cases h

theorem finish_reaches (h : Reaches env signal c c') :
    c.finish env signal = c'.finish env signal := by
  induction h with
  | refl => rfl
  | tail _ hnext ih => exact ih.trans (finish_next hnext)

/-- Actions with a row in the ledger are skipped. -/
theorem run_skip {db : Db} (h : ∀ task ∈ before, task.key ∈ db.keys) :
    run env signal (before ++ tasks) [] db .claim = run env signal tasks [] db .claim := by
  induction before with
  | nil => rfl
  | cons task before ih =>
    obtain ⟨hkey, hbefore⟩ := forall_mem_cons.mp h
    have hcarry : carry (before ++ tasks) [] = [] := by
      cases before ++ tasks with
      | nil => rfl
      | cons => exact ite_self _
    rw [cons_append, run, runTask_claimed hkey]
    change run env signal (before ++ tasks) (carry (before ++ tasks) []) db .claim = _
    rw [hcarry, ih hbefore]

/-! ## Databases with the same effects -/

def Db.statuses (db : Db) : List (ExecutionKey × ExecutionStatus) :=
  db.ledger.map fun row => (row.key, row.status)

/-- The same statuses in the ledger, and the same effects.  The results and the audit may differ. -/
structure Same (a b : Db) : Prop where
  statuses : a.statuses = b.statuses
  events : a.events = b.events
  popups : a.popups = b.popups
  outbox : a.outbox = b.outbox
  instances : a.instances = b.instances

theorem Same.refl (a : Db) : Same a a := ⟨rfl, rfl, rfl, rfl, rfl⟩

theorem Same.symm (h : Same a b) : Same b a :=
  ⟨h.statuses.symm, h.events.symm, h.popups.symm, h.outbox.symm, h.instances.symm⟩

theorem keys_eq_map (db : Db) : db.keys = db.statuses.map Prod.fst := by
  rw [Db.keys, Db.statuses, map_map]
  rfl

theorem Same.keys (h : Same a b) : a.keys = b.keys := by
  rw [keys_eq_map, keys_eq_map, h.statuses]

theorem Same.claim (h : Same a b) : Same (a.claim key) (b.claim key) := by
  refine ⟨?_, h.events, h.popups, h.outbox, h.instances⟩
  have hstatuses := h.statuses
  simp only [Db.statuses] at hstatuses
  simp only [Db.statuses, Db.claim, map_append, hstatuses]

theorem statuses_finish (db : Db) : (db.finish key status result).statuses
    = db.statuses.map fun p => if p.1 = key then (p.1, status) else p := by
  rw [Db.statuses, Db.statuses, Db.finish, map_map, map_map]
  refine map_congr_left fun row _ => ?_
  simp only [Function.comp_apply]
  split <;> rfl

theorem Same.finish (h : Same a b) :
    Same (a.finish key status result) (b.finish key status result') := by
  refine ⟨?_, h.events, h.popups, h.outbox, h.instances⟩
  rw [statuses_finish, statuses_finish, h.statuses]

theorem Same.audit (h : Same a b) : Same (a.audit key actionType status result)
    (b.audit key actionType status result') :=
  ⟨h.statuses, h.events, h.popups, h.outbox, h.instances⟩

theorem Same.apply (h : Same a b) (key : ExecutionKey) (made : Made) :
    Same (a.apply key made).1 (b.apply key made).1 ∧
      (a.apply key made).2 = (b.apply key made).2 := by
  unfold Db.apply
  cases made.effect with
  | event agg =>
    exact ⟨⟨h.statuses, by rw [h.events], h.popups, h.outbox, h.instances⟩, rfl⟩
  | popup p =>
    exact ⟨⟨h.statuses, h.events, by rw [h.popups], h.outbox, h.instances⟩, rfl⟩
  | outbox type payload =>
    simp only [Db.enqueue, h.outbox]
    split
    · exact ⟨h, rfl⟩
    · exact ⟨⟨h.statuses, h.events, h.popups, rfl, h.instances⟩, rfl⟩

theorem Same.succeed (h : Same a b) (key : ExecutionKey) (actionType : String) (made : Made) :
    Same (a.succeed key actionType made).1 (b.succeed key actionType made).1 ∧
      (a.succeed key actionType made).2 = (b.succeed key actionType made).2 := by
  obtain ⟨happly, hresult⟩ := h.claim.apply key made
  exact ⟨happly.finish.audit, hresult⟩

theorem recordFailure_eq (db : Db) (hclaimed : key ∈ db.keys) :
    db.recordFailure key actionType result
      = if db.statuses.any fun p => p.1 = key ∧ p.2 = .pending then
          (db.finish key .failed result).audit key actionType .failed result
        else db := by
  have hany : (db.statuses.any fun p => p.1 = key ∧ p.2 = .pending)
      = db.ledger.any fun row => row.key = key ∧ row.status = .pending := by
    rw [Db.statuses, any_map]
    rfl
  rw [Db.recordFailure, if_pos (claimed_iff.mpr hclaimed), hany]

theorem Same.recordFailure (h : Same a b) (hclaimed : key ∈ a.keys) :
    Same (a.recordFailure key actionType result) (b.recordFailure key actionType result') := by
  rw [recordFailure_eq a hclaimed, recordFailure_eq b (h.keys ▸ hclaimed), h.statuses]
  split
  · exact h.finish.audit
  · exact h

/-! ## Actions on databases with the same effects -/

/-- Two attempts end alike, and name the same event. -/
def Alike (x y : Except Fault (Db × Fields)) : Prop :=
  (∃ a b, x = .ok a ∧ y = .ok b ∧ Same a.1 b.1 ∧ eventIdOf a.2 = eventIdOf b.2) ∨
    (∃ m m', x = .error (.malformed m) ∧ y = .error (.malformed m')) ∨
    ∃ e, x = .error (.escaped e) ∧ y = .error (.escaped e)

theorem lastEventId_concat (results : List Fields) (result : Fields) :
    lastEventId (results ++ [result]) = (eventIdOf result).or (lastEventId results) := by
  rw [lastEventId, reverse_append, findSome?_append, reverse_singleton,
    findSome?_singleton]
  rfl

theorem Same.startForEvent (h : Same a b) (key : ExecutionKey) (eventId templateKey : String) :
    (∃ a' b' id, startForEvent env a key eventId templateKey = .ok (a', id) ∧
        startForEvent env b key eventId templateKey = .ok (b', id) ∧ Same a' b') ∨
      ∃ fault, startForEvent env a key eventId templateKey = .error fault ∧
        startForEvent env b key eventId templateKey = .error fault := by
  unfold Triggers.startForEvent
  rw [h.instances]
  cases env.published templateKey with
  | error message => exact .inr ⟨_, rfl, rfl⟩
  | ok version =>
    dsimp only
    cases b.instances.find? fun i =>
        i.eventId = eventId ∧ i.versionId = version.id ∧ i.running with
    | some i => exact .inl ⟨a, b, i.id, rfl, rfl, h⟩
    | none =>
      dsimp only
      cases env.start key version eventId with
      | error e => exact .inr ⟨_, rfl, rfl⟩
      | ok running =>
        exact .inl ⟨_, _, _, rfl, rfl, h.statuses, h.events, h.popups, h.outbox, rfl⟩

theorem Alike.of_error (fault : Fault) : Alike (.error fault) (.error fault) := by
  cases fault with
  | malformed m => exact .inr (.inl ⟨m, m, rfl, rfl⟩)
  | escaped e => exact .inr (.inr ⟨e, rfl, rfl⟩)

theorem Same.attachWorkflow (h : Same a b) :
    Alike (attachWorkflow env a task last) (attachWorkflow env b task last) := by
  unfold Triggers.attachWorkflow
  cases attachTarget env task.action last with
  | error fault => exact .of_error fault
  | ok target =>
    dsimp only
    rcases h.startForEvent task.key target.1 target.2 with ⟨a', b', id, ha, hb, hsame⟩ |
      ⟨fault, ha, hb⟩ <;> rw [ha, hb]
    · exact .inl ⟨_, _, rfl, rfl, hsame, rfl⟩
    · exact .of_error fault

/-- **An action does the same to tables with the same effects.** -/
theorem Same.attempt (h : Same a b) :
    Alike (attempt env signal task a last) (attempt env signal task b last) := by
  by_cases htype : task.typeText env = "attach_workflow"
  · rw [attempt_attach htype, attempt_attach htype]
    rcases h.claim.attachWorkflow with ⟨x, y, ha, hb, hsame, hnames⟩ | ⟨m, m', ha, hb⟩ |
      ⟨e, ha, hb⟩ <;> rw [ha, hb]
    · exact .inl ⟨_, _, rfl, rfl, hsame.finish.audit, hnames⟩
    · exact .inr (.inl ⟨m, m', rfl, rfl⟩)
    · exact .of_error _
  · rw [attempt_atomic htype, attempt_atomic htype]
    cases dispatch env task.key signal task.action last with
    | ok made =>
      obtain ⟨hsame, hresult⟩ := h.succeed task.key (task.typeText env) made
      exact .inl ⟨_, _, rfl, rfl, hsame, congrArg eventIdOf hresult⟩
    | error fault => exact .of_error fault

/-- The tables after an action that raises. -/
theorem Same.escaped (h : Same a b) :
    Same (if task.typeText env = "attach_workflow" then a.claim task.key else a)
      (if task.typeText env = "attach_workflow" then b.claim task.key else b) := by
  split
  · exact h.claim
  · exact h

theorem Same.failed (h : Same a b) (message message' : String) :
    Same ((a.claim task.key).recordFailure task.key (task.typeText env) (errorResult message))
      ((b.claim task.key).recordFailure task.key (task.typeText env) (errorResult message')) :=
  h.claim.recordFailure (by simp)

theorem lastEventId_carry (rest : List Task) (h : lastEventId results = lastEventId results') :
    lastEventId (carry rest results) = lastEventId (carry rest results') := by
  cases rest with
  | nil => exact h
  | cons next rest =>
    rw [carry, carry]
    split
    · rfl
    · exact h

/-- **Runs with the same last event end alike.** -/
theorem run_same (h : Same a b) (hlast : lastEventId results = lastEventId results') :
    Same (run env signal tasks results a .claim).db
      (run env signal tasks results' b .claim).db := by
  induction tasks generalizing results results' a b with
  | nil => exact h
  | cons task rest ih =>
    rw [run, run]
    by_cases hkey : task.key ∈ a.keys
    · rw [runTask_claimed hkey, runTask_claimed (h.keys ▸ hkey)]
      exact ih h (lastEventId_carry rest hlast)
    · rw [runTask_fresh hkey, runTask_fresh (h.keys ▸ hkey), hlast]
      rcases h.attempt with ⟨x, y, ha, hb, hsame, hnames⟩ | ⟨m, m', ha, hb⟩ | ⟨e, ha, hb⟩ <;>
        rw [ha, hb]
      · refine ih hsame (lastEventId_carry rest ?_)
        rw [lastEventId_concat, lastEventId_concat, hnames, hlast]
      · refine ih (h.failed m m') (lastEventId_carry rest ?_)
        rw [lastEventId_concat, lastEventId_concat, hlast]
        rfl
      · exact h.escaped

/-! ## What an action adds -/

/-- An action adds at most one row to the ledger and one to the outbox, under its key. -/
structure Grows (key : ExecutionKey) (db db' : Db) : Prop where
  statuses : ∃ new, db'.statuses = db.statuses ++ new ∧ ∀ p ∈ new, p.1 = key
  outbox : ∃ new, db'.outbox = db.outbox ++ new ∧ ∀ row ∈ new, row.key = key

/-- The tables at the end of an action. -/
def TaskEnd.db : TaskEnd → Db
  | done db _ => db
  | escaped db _ => db

variable {db db' : Db}

/-- The actions have distinct keys, of which neither the ledger nor the outbox has one. -/
structure Fresh (tasks : List Task) (db : Db) : Prop where
  nodup : (tasks.map (·.key)).Nodup
  ledger : ∀ task ∈ tasks, task.key ∉ db.keys
  outbox : ∀ task ∈ tasks, ∀ row ∈ db.outbox, row.key ≠ task.key

theorem Fresh.head (h : Fresh (task :: rest) db) :
    task.key ∉ db.keys := h.ledger task mem_cons_self

/-- The outbox has got rows of the action only. -/
def Enqueues (key : ExecutionKey) (db db' : Db) : Prop :=
  ∃ new, db'.outbox = db.outbox ++ new ∧ ∀ row ∈ new, row.key = key

theorem Enqueues.of_eq (h : db'.outbox = db.outbox) : Enqueues key db db' :=
  ⟨[], h.trans (append_nil _).symm, nofun⟩

theorem Grows.refl (key : ExecutionKey) (db : Db) : Grows key db db :=
  ⟨⟨[], (append_nil _).symm, nofun⟩, Enqueues.of_eq rfl⟩

theorem Grows.of_ledger (hledger : db'.ledger = db.ledger ++ [⟨key, status, result⟩])
    (houtbox : Enqueues key db db') : Grows key db db' := by
  refine ⟨⟨[(key, status)], ?_, ?_⟩, houtbox⟩
  · simp [Db.statuses, hledger]
  · simp

theorem grows_claim (db : Db) (key : ExecutionKey) : Grows key db (db.claim key) :=
  have hledger : (db.claim key).ledger = db.ledger ++ [⟨key, .pending, []⟩] := rfl
  .of_ledger hledger (.of_eq rfl)

theorem outbox_apply (made : Made) : Enqueues key db (db.apply key made).1 := by
  unfold Db.apply
  cases made.effect with
  | event agg | popup p => exact .of_eq rfl
  | outbox type payload =>
    simp only [Db.enqueue]
    split
    · exact .of_eq rfl
    · exact ⟨[⟨key, type, payload⟩], rfl, by simp⟩

theorem outbox_recordFailure (actionType : String) (result : Fields) :
    (db.recordFailure key actionType result).outbox = db.outbox := by
  simp only [Db.recordFailure]
  split <;> split <;> rfl

theorem attachWorkflow_outbox {attached : Db × Fields}
    (h : attachWorkflow env db task last = .ok attached) : attached.1.outbox = db.outbox := by
  obtain ⟨instances, heq⟩ := attachWorkflow_tables h
  rw [heq]

theorem attempt_outbox {made : Db × Fields}
    (h : attempt env signal task db last = .ok made) : Enqueues task.key db made.1 := by
  rcases attempt_cases h with ⟨attached, hattached, rfl⟩ | ⟨dispatched, rfl⟩
  · have houtbox := attachWorkflow_outbox hattached
    exact .of_eq houtbox
  · exact outbox_apply dispatched

theorem runTask_grows : Grows task.key db (runTask env signal task results db .claim).db := by
  by_cases hkey : task.key ∈ db.keys
  · rw [runTask_claimed hkey]
    exact .refl _ _
  · rw [runTask_fresh hkey]
    cases hmade : attempt env signal task db (lastEventId results) with
    | ok made => exact .of_ledger (attempt_ledger hkey hmade) (attempt_outbox hmade)
    | error fault =>
      cases fault with
      | malformed message =>
        exact .of_ledger (ledger_recordFailure hkey) (.of_eq (outbox_recordFailure ..))
      | escaped e =>
        rw [attemptEnd]
        split
        · exact grows_claim db task.key
        · exact .refl _ _

theorem Grows.mem_keys {k : ExecutionKey} (h : Grows key db db') (hk : k ∈ db'.keys) :
    k ∈ db.keys ∨ k = key := by
  obtain ⟨new, heq, hnew⟩ := h.statuses
  rw [keys_eq_map, heq, map_append, ← keys_eq_map] at hk
  refine (mem_append.mp hk).imp_right fun hk => ?_
  obtain ⟨p, hp, rfl⟩ := mem_map.mp hk
  exact hnew p hp

/-- The actions behind an action stay fresh. -/
theorem Fresh.tail (hfresh : Fresh (task :: rest) db) (hgrows : Grows task.key db db') :
    Fresh rest db' := by
  obtain ⟨hnot, hnodup⟩ := nodup_cons.mp hfresh.nodup
  have hne : ∀ t ∈ rest, t.key ≠ task.key :=
    fun t ht heq => hnot (mem_map.mpr ⟨t, ht, heq⟩)
  refine ⟨hnodup, fun t ht hk => ?_, fun t ht row hrow => ?_⟩
  · rcases hgrows.mem_keys hk with hk | hk
    · exact hfresh.ledger t (mem_cons_of_mem _ ht) hk
    · exact hne t ht hk
  · obtain ⟨new, heq, hnew⟩ := hgrows.outbox
    rw [heq] at hrow
    rcases mem_append.mp hrow with hrow | hrow
    · exact hfresh.outbox t (mem_cons_of_mem _ ht) row hrow
    · exact fun hk => hne t ht (hk.symm.trans (hnew row hrow))

/-- The ledger and the outbox of the first tables begin those of the second. -/
def Begins (a b : Db) : Prop :=
  a.statuses <+: b.statuses ∧ a.outbox <+: b.outbox

theorem Grows.begins (h : Grows key db db') : Begins db db' := by
  obtain ⟨⟨new, hnew, -⟩, out, hout, -⟩ := h
  exact ⟨⟨new, hnew.symm⟩, out, hout.symm⟩

/-- A run only adds to the ledger and the outbox. -/
theorem run_begins : Begins db (run env signal tasks results db .claim).db := by
  induction tasks generalizing results db with
  | nil => exact ⟨prefix_rfl, prefix_rfl⟩
  | cons task rest ih =>
    have hfirst : Begins db (runTask env signal task results db .claim).db := runTask_grows.begins
    rw [run]
    cases hrun : runTask env signal task results db .claim with
    | escaped db' e =>
      rw [hrun] at hfirst
      exact hfirst
    | done db' results' =>
      rw [hrun] at hfirst
      exact ⟨hfirst.1.trans ih.1, hfirst.2.trans ih.2⟩

end BbzPlatform.Triggers

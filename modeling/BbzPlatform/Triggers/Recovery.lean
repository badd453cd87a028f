import BbzPlatform.Triggers.Bonds

/-!
# Resuming a run after a crash

The ledger tells a resumed run which actions have been run, and it skips them.  What it does not
tell is which event an earlier action has made: that is in memory only.  An action that takes this
event finds none after a crash.  And an `attach_workflow` that has claimed its row is skipped, so
that the row stays pending.
-/

namespace BbzPlatform.Triggers

open Raising List

variable {env : Surroundings} {signal : Fields} {task : Task} {tasks before rest : List Task}
  {action result result' : Fields} {results results' : List Fields} {c c' : Config}
  {a b a' b' db db' : Db} {key : ExecutionKey} {actionType : String}
  {status status' : ExecutionStatus} {made : Made} {last : Option String}

/-! ## Where a run can be cut off -/

/-- How far the first action has come, from the tables before it. -/
inductive Underway (env : Surroundings) (signal : Fields) (db : Db) : Config → Prop
  | claim (tasks : List Task) (results : List Fields) :
      Underway env signal db ⟨tasks, results, db, .claim⟩
  | failing {task : Task} (rest : List Task) {results : List Fields} {message : String}
      (htype : task.typeText env ≠ "attach_workflow")
      (hmade : dispatch env task.key signal task.action (lastEventId results)
        = .error (.malformed message)) :
      Underway env signal db ⟨task :: rest, results, db, .failing message⟩
  | starting {task : Task} (rest : List Task) (results : List Fields)
      (htype : task.typeText env = "attach_workflow") :
      Underway env signal db ⟨task :: rest, results, db.claim task.key, .starting⟩
  | refusing {task : Task} (rest : List Task) (results : List Fields) (message : String)
      (htype : task.typeText env = "attach_workflow") :
      Underway env signal db ⟨task :: rest, results, db.claim task.key, .failing message⟩
  | finishing {task : Task} (rest : List Task) (results : List Fields) {db' : Db} (result : Fields)
      (hledger : db'.ledger = (db.claim task.key).ledger) (houtbox : db'.outbox = db.outbox) :
      Underway env signal db ⟨task :: rest, results, db', .finishing result⟩

/-- The actions before the first have been run, and those from it on are fresh. -/
structure Reached (env : Surroundings) (signal : Fields) (tasks : List Task) (c : Config) :
    Prop where
  split : ∃ before db, tasks = before ++ c.tasks ∧ (∀ task ∈ before, task.key ∈ db.keys) ∧
    Fresh c.tasks db ∧ Underway env signal db c

theorem claimed_concat (hbefore : ∀ task ∈ before, task.key ∈ db.keys)
    (hkeys : db'.keys = db.keys ++ [task.key]) : ∀ t ∈ before ++ [task], t.key ∈ db'.keys := by
  refine forall_mem_append.mpr ⟨fun t ht => ?_, by simp [hkeys]⟩
  rw [hkeys]
  exact mem_append_left _ (hbefore t ht)

/-- An action ends, and the next one is fresh. -/
theorem Reached.of_done
    (hsplit : tasks = before ++ task :: rest) (hbefore : ∀ task ∈ before, task.key ∈ db.keys)
    (hfresh : Fresh (task :: rest) db)
    (hledger : db'.ledger = db.ledger ++ [⟨task.key, status, result⟩])
    (houtbox : Enqueues task.key db db') :
    Reached env signal tasks ⟨rest, carry rest results, db', .claim⟩ := by
  have hkeys : db'.keys = db.keys ++ [task.key] := by simp [Db.keys, hledger]
  exact ⟨before ++ [task], db', by rw [hsplit, append_assoc]; rfl,
    claimed_concat hbefore hkeys, hfresh.tail (.of_ledger hledger houtbox), .claim _ _⟩

/-- **A transaction leads to where a run can be cut off.** -/
theorem Reached.next (h : Reached env signal tasks c) (hnext : next env signal c = some c') :
    Reached env signal tasks c' := by
  obtain ⟨before, db, hsplit, hbefore, hfresh, hway⟩ := h
  obtain ⟨tasks', results, db₁, stage⟩ := c
  cases tasks' with
  | nil => cases hnext
  | cons task rest =>
    have hkey := hfresh.head
    unfold Triggers.next at hnext
    revert hnext
    dsimp only
    fun_cases advance env signal task results db₁ stage <;> rintro ⟨⟩
    next hclaimed =>
      cases hway
      exact absurd hclaimed (not_claimed hkey)
    next htype =>
      cases hway
      exact ⟨before, db, hsplit, hbefore, hfresh, .starting rest results htype⟩
    next made _ _ =>
      cases hway
      exact .of_done hsplit hbefore hfresh (ledger_finish hkey ledger_apply) (outbox_apply made)
    next htype message hmade =>
      cases hway
      exact ⟨before, db, hsplit, hbefore, hfresh, .failing rest htype hmade⟩
    next db' result hmade =>
      cases hway
      have houtbox : db'.outbox = (db.claim task.key).outbox := attachWorkflow_outbox hmade
      exact ⟨before, db, hsplit, hbefore, hfresh,
        .finishing rest results _ (attachWorkflow_ledger hmade) houtbox⟩
    next message hmade =>
      cases hway with
      | starting _ _ htype =>
        exact ⟨before, db, hsplit, hbefore, hfresh, .refusing rest results message htype⟩
    · cases hway with
      | finishing _ _ _ hledger houtbox =>
        exact .of_done hsplit hbefore hfresh (ledger_finish hkey hledger) (.of_eq houtbox)
    next message _ =>
      have hdone : Reached env signal tasks ⟨rest, carry rest (results ++ [errorResult message]),
          (db.claim task.key).recordFailure task.key (task.typeText env) (errorResult message),
          .claim⟩ :=
        .of_done hsplit hbefore hfresh (ledger_recordFailure hkey)
          (.of_eq (outbox_recordFailure ..))
      cases hway with
      | refusing => exact hdone
      | failing =>
        rw [Db.recordFailure_claim hkey]
        exact hdone

/-- **Every state in which a run can be cut off.** -/
theorem Reached.of_reaches (hfresh : Fresh tasks db)
    (h : Reaches env signal ⟨tasks, [], db, .claim⟩ c) : Reached env signal tasks c := by
  induction h with
  | refl => exact ⟨[], db, rfl, nofun, hfresh, .claim _ _⟩
  | tail _ hnext ih => exact ih.next hnext

/-! ## Recovery -/

variable (env signal)

/-- The actions that are left do without the event that the crash has lost, if it has lost one. -/
def Config.Keeps (c : Config) : Prop :=
  lastEventId c.results = none ∨ independent env signal c.tasks = true

/-- Nothing is left to run, or the first action raises before it leaves a row. -/
def Stops : List Task → Prop
  | [] => True
  | task :: _ => task.typeText env ≠ "attach_workflow" ∧
      Escapes (dispatch env task.key signal task.action none)

/-- The crash does not fall between the transactions of an `attach_workflow`, and the actions that
are left do without the event that is lost.  (If the start of the workflow would have raised, the
run would have ended there anyway.) -/
def Recoverable (c : Config) : Prop :=
  match c.stage, c.tasks with
  | .claim, _ => c.Keeps env signal
  | .failing _, task :: _ => task.typeText env ≠ "attach_workflow" ∧ c.Keeps env signal
  | .starting, task :: rest =>
    ¬ StartFits env c.db task (lastEventId c.results) ∧ Stops env signal rest
  | _, _ => False

variable {env signal}
/-- A run that is resumed between two actions. -/
theorem same_iff_keeps (hfresh : Fresh tasks db) :
    Same (run env signal tasks [] db .claim).db (run env signal tasks results db .claim).db ↔
      lastEventId results = none ∨ independent env signal tasks = true := by
  by_cases hlast : lastEventId results = none
  · exact iff_of_true (run_same (Same.refl db) hlast.symm) (.inl hlast)
  · have hnil : lastEventId [] = none := rfl
    rw [or_iff_right hlast, ← run_same_iff hfresh (Same.refl db) hlast hnil]
    exact ⟨Same.symm, Same.symm⟩

/-- A run adds a row for its first action, unless it stops. -/
theorem same_iff_stops (hfresh : Fresh tasks db) :
    Same (run env signal tasks [] db .claim).db db ↔ Stops env signal tasks := by
  cases tasks with
  | nil => exact iff_of_true (Same.refl db) trivial
  | cons task rest =>
    have hkey := hfresh.head
    have hprefix : _ <+: (run env signal (task :: rest) [] db .claim).db.statuses :=
      run_cons_begins.1
    -- a row in the ledger stays there, so that the tables differ in the end
    have hmore : ∀ {status result},
        (runTask env signal task [] db .claim).db.ledger
          = db.ledger ++ [⟨task.key, status, result⟩] →
        ¬ Same (run env signal (task :: rest) [] db .claim).db db := by
      intro status result hledger hsame
      have hlength := hprefix.length_le
      rw [hsame.statuses, statuses_of_ledger hledger] at hlength
      simp at hlength
    have hstops : Stops env signal (task :: rest) ↔ task.typeText env ≠ "attach_workflow" ∧
        Escapes (attempt env signal task db none) :=
      and_congr_right fun htype => by rw [attempt_atomic htype, escapes_map]
    rw [runTask_fresh hkey] at hmore
    rw [hstops]
    cases hmade : attempt env signal task db none with
    | ok made =>
      rw [show attempt env signal task db (lastEventId []) = _ from hmade] at hmore
      exact iff_of_false (hmore (attempt_ledger hkey hmade)) fun h => not_escapes_ok _ h.2
    | error fault =>
      rw [show attempt env signal task db (lastEventId []) = _ from hmade] at hmore
      cases fault with
      | malformed message =>
        exact iff_of_false (hmore (ledger_recordFailure hkey)) fun h =>
          not_escapes_malformed _ h.2
      | escaped e =>
        by_cases htype : task.typeText env = "attach_workflow"
        · rw [attemptEnd, if_pos htype] at hmore
          exact iff_of_false (hmore rfl) fun h => h.1 htype
        · refine iff_of_true ?_ ⟨htype, escapes_escaped e⟩
          rw [run, runTask_fresh hkey,
            show attempt env signal task db (lastEventId []) = _ from hmade,
            attemptEnd, if_neg htype]
          exact Same.refl db

/-- A run that is resumed within an action leaves its row pending. -/
theorem not_same_of_pending {cut ended : Db} (hcut : cut.ledger = (db.claim key).ledger)
    (hended : ended.ledger = db.ledger ++ [⟨key, status, result⟩]) (hstatus : status ≠ .pending)
    (results : List Fields) :
    ¬ Same (run env signal rest [] cut .claim).db (run env signal rest results ended .claim).db :=
  have hapart : Apart cut ended :=
    .of_statuses (Same.refl db) (statuses_of_ledger hcut) (statuses_of_ledger hended) hstatus.symm
  hapart.not_same run_begins run_begins

/-- Actions that have been run are skipped, and with them one that was cut off. -/
theorem run_skip_first
    (hbefore : ∀ task ∈ before, task.key ∈ db.keys) (hkeys : db'.keys = db.keys ++ [task.key]) :
    run env signal (before ++ task :: rest) [] db' .claim = run env signal rest [] db' .claim := by
  rw [← singleton_append, ← append_assoc]
  exact run_skip (claimed_concat hbefore hkeys)

/-- **A resumed run ends like one that was not cut off exactly if the crash was recoverable.** -/
theorem same_iff_recoverable (h : Reached env signal tasks c) :
    Same (run env signal tasks [] c.db .claim).db (c.finish env signal).db ↔
      Recoverable env signal c := by
  obtain ⟨before, db, hsplit, hbefore, hfresh, hway⟩ := h
  subst hsplit
  cases hway with
  | claim tasks results =>
    rw [run_skip hbefore]
    exact same_iff_keeps hfresh
  | @failing task rest results message htype hmade =>
    have hkey := hfresh.head
    have hnext : next env signal ⟨task :: rest, results, db, .claim⟩
        = some ⟨task :: rest, results, db, .failing message⟩ :=
      by simp [next, advance, not_claimed hkey, htype, hmade]
    rw [run_skip hbefore, ← finish_next hnext]
    exact (same_iff_keeps hfresh).trans (and_iff_right htype).symm
  | @starting task rest results htype =>
    have hkey := hfresh.head
    have hnext : next env signal ⟨task :: rest, results, db, .claim⟩
        = some ⟨task :: rest, results, db.claim task.key, .starting⟩ :=
      by simp [next, advance, not_claimed hkey, htype]
    have hescapes : Escapes (attempt env signal task db (lastEventId results)) ↔ ¬ StartFits env
        (db.claim task.key) task (lastEventId results) := by
      rw [attempt_attach htype, escapes_map, attachWorkflow_escapes]
    rw [run_skip_first hbefore (by simp), ← finish_next hnext, Config.finish, run,
      runTask_fresh hkey]
    cases hmade : attempt env signal task db (lastEventId results) with
    | ok made =>
      rw [hmade] at hescapes
      exact iff_of_false (not_same_of_pending rfl (attempt_ledger hkey hmade) (by decide) _)
        fun hrec => not_escapes_ok _ (hescapes.mpr hrec.1)
    | error fault =>
      rw [hmade] at hescapes
      cases fault with
      | malformed message =>
        exact iff_of_false (not_same_of_pending rfl (ledger_recordFailure hkey) (by decide) _)
          fun hrec => not_escapes_malformed _ (hescapes.mpr hrec.1)
      | escaped e =>
        rw [attemptEnd, if_pos htype]
        exact (same_iff_stops (hfresh.tail (grows_claim db task.key))).trans
          (and_iff_right (hescapes.mp (escapes_escaped e))).symm
  | @refusing task rest results message htype =>
    have hkey := hfresh.head
    rw [run_skip_first hbefore (by simp), Config.finish, run, runTask_failing]
    exact iff_of_false (not_same_of_pending rfl (ledger_recordFailure hkey) (by decide) _)
      fun hrec => hrec.1 htype
  | @finishing task rest results db' result hledger houtbox =>
    have hkey := hfresh.head
    have hkeys : db'.keys = db.keys ++ [task.key] := by
      rw [← keys_claim, Db.keys, hledger, Db.keys]
    rw [run_skip_first hbefore hkeys, Config.finish, run, runTask_done rfl]
    refine iff_of_false (not_same_of_pending hledger
      (ledger_audit.trans (ledger_finish hkey hledger)) ?_ _) id
    decide

/-- Neither the ledger nor the outbox has a row for the inbox row. -/
structure Db.New (providerEventId : String) (db : Db) : Prop where
  ledger : ∀ key ∈ db.keys, key.providerEventId ≠ providerEventId
  outbox : ∀ row ∈ db.outbox, row.key.providerEventId ≠ providerEventId

theorem keys_tasks (providerEventId : String) (version : RuleVersion) :
    (version.tasks providerEventId).map (·.key)
      = (range version.actions.length).map fun index =>
          ⟨providerEventId, version.id, index⟩ := by
  refine ext_getElem (by simp [RuleVersion.tasks]) fun index h h' => ?_
  simp [RuleVersion.tasks]

theorem mem_plan (h : task ∈ plan providerEventId versions) :
    task.key.providerEventId = providerEventId := by
  obtain ⟨version, -, htask⟩ := mem_flatMap.mp h
  obtain ⟨index, hindex, rfl⟩ := mem_mapIdx.mp htask
  rfl

/-- The actions of distinct versions have distinct keys. -/
theorem nodup_plan (h : (versions.map (·.id)).Nodup) (providerEventId : String) :
    ((plan providerEventId versions).map (·.key)).Nodup := by
  rw [plan, map_flatMap]
  refine nodup_flatMap.mpr ⟨fun version _ => ?_, ?_⟩
  · rw [keys_tasks]
    refine Nodup.map (fun i j heq => (ExecutionKey.mk.injEq .. ▸ heq).2.2) ?_
    exact nodup_range
  · refine (pairwise_map.mp h).imp fun {v w} hne => ?_
    intro key hv hw
    simp only [keys_tasks] at hv hw
    obtain ⟨i, -, rfl⟩ := mem_map.mp hv
    obtain ⟨j, -, heq⟩ := mem_map.mp hw
    exact hne (congrArg ExecutionKey.versionId heq).symm

theorem Fresh.of_new (hversions : (versions.map (·.id)).Nodup) (hnew : db.New providerEventId) :
    Fresh (plan providerEventId versions) db :=
  ⟨nodup_plan hversions providerEventId, fun _ htask hkey => hnew.ledger _ hkey (mem_plan htask),
    fun _ htask row hrow heq => hnew.outbox row hrow (heq ▸ mem_plan htask)⟩

/-- **A crash loses and duplicates nothing exactly if it is recoverable.**  An inbox row without
rows in the ledger and the outbox is processed, and the run is cut off after any number of
transactions.  Resuming it leads to the statuses and the effects of a run that is not cut off
exactly if the crash was recoverable. -/
theorem recovered_iff_recoverable {providerEventId : String} {versions : List RuleVersion}
    (hversions : (versions.map (·.id)).Nodup) (hnew : db.New providerEventId) {c : Config}
    (hreaches : Reaches env signal ⟨plan providerEventId versions, [], db, .claim⟩ c) :
    Same (runMatched env signal providerEventId versions c.db).db
        (runMatched env signal providerEventId versions db).db ↔
      Recoverable env signal c := by
  have hreached := Reached.of_reaches (Fresh.of_new hversions hnew) hreaches
  have hfinish : runMatched env signal providerEventId versions db = c.finish env signal :=
    finish_reaches hreaches
  rw [hfinish]
  exact same_iff_recoverable hreached

/-- The first transaction of a version on empty tables. -/
def afterFirst (version : RuleVersion) : Config :=
  let start : Config := ⟨plan "p" [version], [], emptyDb, .claim⟩
  (next plainSurroundings (doorbell []) start).getD start

/-- A rule that makes an event and notifies. -/
def notifyRule : RuleVersion :=
  ⟨"v1", [[("type", .str "create_event"), ("title", .str "Ring")], [("type", .str "notify")]]⟩

theorem notifyRule_recovered :
    Same (runMatched plainSurroundings (doorbell []) "p" [notifyRule]
        (afterFirst notifyRule).db).db
      (runMatched plainSurroundings (doorbell []) "p" [notifyRule] emptyDb).db := by
  have hnew : emptyDb.New "p" :=
    ⟨fun _ h => (not_mem_nil h).elim, fun _ h => (not_mem_nil h).elim⟩
  have hversions : ([notifyRule].map (·.id)).Nodup := nodup_singleton _
  have hkeeps : (afterFirst notifyRule).Keeps plainSurroundings (doorbell []) := .inr rfl
  have hreaches : Reaches plainSurroundings (doorbell [])
      ⟨plan "p" [notifyRule], [], emptyDb, .claim⟩ (afterFirst notifyRule) := .single rfl
  exact (recovered_iff_recoverable hversions hnew hreaches).mpr hkeeps

/-- A rule that makes an event and attaches a workflow to it. -/
def workflowRule : RuleVersion :=
  ⟨"v1", [[("type", .str "create_event"), ("title", .str "Ring")],
    [("type", .str "attach_workflow"), ("template_key", .str "door")]]⟩

/-- **A crash between the event and its workflow loses the workflow**: the resumed run finds no
event to attach it to. -/
theorem workflow_lost :
    Reaches plainSurroundings (doorbell []) ⟨plan "p" [workflowRule], [], emptyDb, .claim⟩
        (afterFirst workflowRule) ∧
      (runMatched plainSurroundings (doorbell []) "p" [workflowRule] emptyDb).db.statuses
        = [(⟨"p", "v1", 0⟩, .succeeded), (⟨"p", "v1", 1⟩, .succeeded)] ∧
      (runMatched plainSurroundings (doorbell []) "p" [workflowRule]
          (afterFirst workflowRule).db).db.statuses
        = [(⟨"p", "v1", 0⟩, .succeeded), (⟨"p", "v1", 1⟩, .failed)] ∧
      (runMatched plainSurroundings (doorbell []) "p" [workflowRule]
          emptyDb).db.instances.length = 1 ∧
      (runMatched plainSurroundings (doorbell []) "p" [workflowRule]
          (afterFirst workflowRule).db).db.instances = [] :=
  ⟨.single rfl, rfl, rfl, rfl, rfl⟩

end BbzPlatform.Triggers

import BbzPlatform.Triggers.Execution

/-!
# How an action ends

An action takes at most three transactions.  However it gets through them, it ends in one of six
ways, and an action that had no row in the ledger leaves at most one there.
-/

namespace BbzPlatform.Triggers

/-! ## Stages -/

variable {env : Surroundings} {signal result : Fields} {task : Task}
  {results results' : List Fields} {db' : Db} {stage stage' : Stage} {e : Escape}
  {key k : ExecutionKey} {actionType : String} {status : ExecutionStatus} {last : Option String}
  {made : Db × Fields}

section Stages

variable {db : Db}

/-- How many transactions are left at most. -/
def Stage.rank : Stage → ℕ
  | claim => 3
  | starting => 2
  | finishing _ => 1
  | failing _ => 1

theorem rank_lt (h : advance env signal task results db stage = .goOn db' stage') :
    stage'.rank < stage.rank := by
  revert h
  fun_cases advance env signal task results db stage <;> rintro ⟨⟩ <;> simp [Stage.rank]

theorem runStages_eq {n m : ℕ} (hn : stage.rank ≤ n) (hm : stage.rank ≤ m) :
    runStages env signal task results n db stage =
      runStages env signal task results m db stage := by
  have hpos : 0 < stage.rank := by cases stage <;> simp [Stage.rank]
  induction n generalizing m db stage with
  | zero => omega
  | succ n ih =>
    obtain ⟨m, rfl⟩ : ∃ k, m = k + 1 := ⟨m - 1, by omega⟩
    rw [runStages, runStages]
    cases hadv : advance env signal task results db stage with
    | done db' results' => rfl
    | escaped db' e => rfl
    | goOn db' stage' =>
      have hlt := rank_lt hadv
      have hpos' : 0 < stage'.rank := by cases stage' <;> simp [Stage.rank]
      exact ih (by omega) (by omega) hpos'

theorem rank_le (stage : Stage) : stage.rank ≤ 3 := by cases stage <;> simp [Stage.rank]

theorem runTask_goOn (h : advance env signal task results db stage = .goOn db' stage') :
    runTask env signal task results db stage = runTask env signal task results db' stage' := by
  have hlt := rank_lt h
  have hle := rank_le stage
  rw [runTask, runStages, h]
  exact runStages_eq (by omega) (rank_le stage')

theorem runTask_done (h : advance env signal task results db stage = .done db' results') :
    runTask env signal task results db stage = .done db' results' := by
  rw [runTask, runStages, h]

theorem runTask_escaped (h : advance env signal task results db stage = .escaped db' e) :
    runTask env signal task results db stage = .escaped db' e := by
  rw [runTask, runStages, h]

end Stages

/-! ## The ledger -/

def Db.keys (db : Db) : List ExecutionKey := db.ledger.map (·.key)

/-- The action with the key is not under way. -/
def Db.Idle (db : Db) (key : ExecutionKey) : Prop :=
  ∀ row ∈ db.ledger, row.key = key → row.status ≠ .pending

/-- The action with the key has ended in the ledger. -/
def Db.Ended (db : Db) (key : ExecutionKey) : Prop := key ∈ db.keys ∧ db.Idle key

/-- The tables after a transaction. -/
def Progress.db : Progress → Db
  | goOn db _ => db
  | done db _ => db
  | escaped db _ => db

section Ledger

variable {db : Db} {made : Made}

theorem claimed_iff : db.claimed key = true ↔ key ∈ db.keys := by
  rw [Db.claimed, List.any_eq_true, Db.keys, List.mem_map]
  simp

theorem not_claimed (h : key ∉ db.keys) : ¬ db.claimed key = true :=
  fun hclaimed => h (claimed_iff.mp hclaimed)

@[simp] theorem keys_claim : (db.claim key).keys = db.keys ++ [key] := by
  simp [Db.claim, Db.keys]

@[simp] theorem ledger_audit : (db.audit k actionType status result).ledger = db.ledger := rfl

theorem ledger_enqueue (type : ActionType) (payload : Fields) :
    (db.enqueue key type payload).1.ledger = db.ledger := by
  unfold Db.enqueue
  split <;> rfl

@[simp] theorem ledger_apply : (db.apply key made).1.ledger = db.ledger := by
  unfold Db.apply
  split
  · rfl
  · rfl
  · exact ledger_enqueue _ _

theorem keys_finish : (db.finish key status result).keys = db.keys := by
  rw [Db.keys, Db.finish, List.map_map]
  refine List.map_congr_left fun row _ => ?_
  by_cases h : row.key = key <;> simp [h]

theorem mem_keys_recordFailure (h : k ∈ (db.recordFailure key actionType result).keys) :
    k ∈ db.keys ∨ k = key := by
  have hclaimed : k ∈ (if db.claimed key then db else db.claim key).keys := by
    simp only [Db.recordFailure] at h
    generalize (if db.claimed key then db else db.claim key) = db' at h ⊢
    split at h
    · rwa [Db.keys, ledger_audit, ← Db.keys, keys_finish] at h
    · exact h
  split at hclaimed
  · exact .inl hclaimed
  · simpa using hclaimed

theorem ledger_finish (hkey : key ∉ db.keys) (hledger : db'.ledger = (db.claim key).ledger) :
    (db'.finish key status result).ledger = db.ledger ++ [⟨key, status, result⟩] := by
  have hold : db.ledger.map (fun row =>
      if row.key = key then { row with status := status, result := result } else row)
      = db.ledger := by
    refine (List.map_congr_left fun row hrow => ?_).trans (List.map_id _)
    exact if_neg fun h => hkey (List.mem_map.mpr ⟨row, hrow, h⟩)
  rw [Db.finish, hledger, Db.claim]
  simp [hold]

theorem ledger_recordFailure (hkey : key ∉ db.keys) :
    ((db.claim key).recordFailure key actionType result).ledger
      = db.ledger ++ [⟨key, .failed, result⟩] := by
  have hclaimed : (db.claim key).claimed key = true := claimed_iff.mpr (by simp)
  have hpending : ((db.claim key).ledger.any fun row => row.key = key ∧ row.status = .pending) := by
    simp [Db.claim]
  rw [Db.recordFailure, if_pos hclaimed, if_pos hpending, ledger_audit, ledger_finish hkey rfl]

theorem Db.recordFailure_claim (h : key ∉ db.keys) :
    db.recordFailure key actionType result
      = (db.claim key).recordFailure key actionType result := by
  have hno : db.claimed key = false := Bool.eq_false_of_not_eq_true fun hc => h (claimed_iff.mp hc)
  have hyes : (db.claim key).claimed key = true := claimed_iff.mpr (by simp)
  rw [Db.recordFailure, Db.recordFailure, hno, hyes]
  rfl

end Ledger

section Settling

variable {db : Db}

/-- Starting a workflow changes the instances only. -/
theorem startForEvent_tables {eventId templateKey : String}
    {started : Db × String} (h : startForEvent env db key eventId templateKey = .ok started) :
    ∃ instances, started.1 = { db with instances := instances } := by
  revert h
  fun_cases startForEvent env db key eventId templateKey <;> rintro ⟨⟩
  · exact ⟨db.instances, rfl⟩
  · exact ⟨_, rfl⟩

theorem attachWorkflow_tables {attached : Db × Fields}
    (h : attachWorkflow env db task last = .ok attached) :
    ∃ instances, attached.1 = { db with instances := instances } := by
  revert h
  fun_cases attachWorkflow env db task last <;> rintro ⟨⟩
  next hstarted => exact startForEvent_tables hstarted

theorem attachWorkflow_ledger {attached : Db × Fields}
    (h : attachWorkflow env db task last = .ok attached) : attached.1.ledger = db.ledger := by
  obtain ⟨instances, heq⟩ := attachWorkflow_tables h
  rw [heq]

/-- A transaction of an action adds no key but its own. -/
theorem advance_keys (h : k ∈ (advance env signal task results db stage).db.keys) :
    k ∈ db.keys ∨ k = task.key := by
  have hclaim : k ∈ (db.claim task.key).keys → k ∈ db.keys ∨ k = task.key := by simp
  revert h
  fun_cases advance env signal task results db stage <;> try exact .inl
  · exact hclaim
  next made _ _ =>
    intro h
    refine hclaim ?_
    change k ∈ ((((db.claim task.key).apply task.key made).1.finish _ _ _).audit _ _ _ _).keys at h
    rwa [Db.keys, ledger_audit, ← Db.keys, keys_finish, Db.keys, ledger_apply, ← Db.keys] at h
  next db' result hmade =>
    intro h
    change k ∈ db'.keys at h
    have hledger : db'.ledger = db.ledger := attachWorkflow_ledger hmade
    rw [Db.keys, hledger] at h
    exact .inl h
  · intro h
    change k ∈ ((db.finish _ _ _).audit _ _ _ _).keys at h
    rw [Db.keys, ledger_audit, ← Db.keys, keys_finish] at h
    exact .inl h
  · exact mem_keys_recordFailure

/-- The outcome of a malformed action. -/
def errorResult (message : String) : Fields := [("error", .str message)]

/-- What an action without a row in the ledger tries to do: `attach_workflow` behind its claim, any
other action in one transaction. -/
def attempt (env : Surroundings) (signal : Fields) (task : Task) (db : Db) (last : Option String) :
    Except Fault (Db × Fields) :=
  if task.typeText env = "attach_workflow" then
    (attachWorkflow env (db.claim task.key) task last).map fun (db', result) =>
      ((db'.finish task.key .succeeded result).audit task.key "attach_workflow" .succeeded result,
        result)
  else
    (dispatch env task.key signal task.action last).map (db.succeed task.key (task.typeText env))

/-- How the action ends. -/
def attemptEnd (env : Surroundings) (task : Task) (results : List Fields) (db : Db) :
    Except Fault (Db × Fields) → TaskEnd
  | .ok made => .done made.1 (results ++ [made.2])
  | .error (.malformed message) =>
    .done ((db.claim task.key).recordFailure task.key (task.typeText env) (errorResult message))
      (results ++ [errorResult message])
  | .error (.escaped e) =>
    .escaped (if task.typeText env = "attach_workflow" then db.claim task.key else db) e

theorem runTask_failing (message : String) :
    runTask env signal task results db (.failing message)
      = .done (db.recordFailure task.key (task.typeText env) (errorResult message))
          (results ++ [errorResult message]) :=
  runTask_done rfl

/-- An action that has a row in the ledger is skipped. -/
theorem runTask_claimed (h : task.key ∈ db.keys) :
    runTask env signal task results db .claim = .done db results :=
  runTask_done (by rw [advance, if_pos (claimed_iff.mpr h)])

theorem attempt_atomic (htype : task.typeText env ≠ "attach_workflow") :
    attempt env signal task db last
      = (dispatch env task.key signal task.action last).map
          (db.succeed task.key (task.typeText env)) := if_neg htype

theorem attempt_attach (htype : task.typeText env = "attach_workflow") :
    attempt env signal task db last
      = (attachWorkflow env (db.claim task.key) task last).map fun (db', result) =>
          ((db'.finish task.key .succeeded result).audit task.key "attach_workflow" .succeeded
            result,
            result) := if_pos htype

/-- **What an action does, said once.** -/
theorem runTask_fresh (h : task.key ∉ db.keys) :
    runTask env signal task results db .claim
      = attemptEnd env task results db (attempt env signal task db (lastEventId results)) := by
  have hclaim := not_claimed h
  by_cases htype : task.typeText env = "attach_workflow"
  · rw [runTask_goOn (by rw [advance, if_neg hclaim, if_pos htype]), attempt_attach htype]
    cases hmade : attachWorkflow env (db.claim task.key) task (lastEventId results) with
    | ok attached => exact (runTask_goOn (by rw [advance, hmade])).trans (runTask_done rfl)
    | error fault =>
      cases fault with
      | malformed message =>
        exact (runTask_goOn (by rw [advance, hmade])).trans (runTask_failing _)
      | escaped e =>
        rw [runTask_escaped (by rw [advance, hmade])]
        exact congrArg (TaskEnd.escaped · e) (if_pos htype).symm
  · rw [attempt_atomic htype]
    cases hmade : dispatch env task.key signal task.action (lastEventId results) with
    | ok made => exact runTask_done (by rw [advance, if_neg hclaim, if_neg htype, hmade])
    | error fault =>
      cases fault with
      | malformed message =>
        rw [runTask_goOn (by rw [advance, if_neg hclaim, if_neg htype, hmade]), runTask_failing,
          Db.recordFailure_claim h]
        rfl
      | escaped e =>
        rw [runTask_escaped (by rw [advance, if_neg hclaim, if_neg htype, hmade])]
        exact congrArg (TaskEnd.escaped · e) (if_neg htype).symm

theorem attempt_cases (h : attempt env signal task db last = .ok made) :
    (∃ attached, attachWorkflow env (db.claim task.key) task last = .ok attached ∧
        made = ((attached.1.finish task.key .succeeded attached.2).audit task.key "attach_workflow"
          .succeeded attached.2, attached.2)) ∨
      ∃ dispatched, made = db.succeed task.key (task.typeText env) dispatched := by
  by_cases htype : task.typeText env = "attach_workflow"
  · rw [attempt_attach htype] at h
    cases hmade : attachWorkflow env (db.claim task.key) task last <;> rw [hmade] at h <;> cases h
    exact .inl ⟨_, rfl, rfl⟩
  · rw [attempt_atomic htype] at h
    cases hmade : dispatch env task.key signal task.action last <;> rw [hmade] at h <;> cases h
    exact .inr ⟨_, rfl⟩

theorem attempt_ledger (hkey : task.key ∉ db.keys)
    (h : attempt env signal task db last = .ok made) :
    made.1.ledger = db.ledger ++ [⟨task.key, .succeeded, made.2⟩] := by
  rcases attempt_cases h with ⟨attached, hattached, rfl⟩ | ⟨dispatched, rfl⟩
  · exact ledger_finish hkey (attachWorkflow_ledger hattached)
  · exact ledger_finish hkey ledger_apply

/-- **An action that ends puts one row into the ledger, which is not pending.** -/
theorem runTask_ledger (hkey : task.key ∉ db.keys)
    (hrun : runTask env signal task results db .claim = .done db' results') :
    ∃ status result, db'.ledger = db.ledger ++ [⟨task.key, status, result⟩] ∧
      status ≠ .pending := by
  rw [runTask_fresh hkey] at hrun
  cases hmade : attempt env signal task db (lastEventId results) with
  | ok made =>
    rw [hmade] at hrun
    cases hrun
    exact ⟨.succeeded, _, attempt_ledger hkey hmade, by decide⟩
  | error fault =>
    rw [hmade] at hrun
    cases fault <;> cases hrun
    exact ⟨.failed, _, ledger_recordFailure hkey, by decide⟩

end Settling

end BbzPlatform.Triggers

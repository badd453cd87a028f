import BbzPlatform.Triggers.Admin
import BbzPlatform.Triggers.Drain
import Mathlib.Data.List.MinMax

/-!
# Several nodes on one inbox row

Any node may process an unprocessed inbox row, also while another one is at it, and again after a
crash.  A node first selects the rules that match; for each of them it then reads the version that
is published at that moment.  The ledger keeps a version from acting twice, but it knows nothing of
rules: a version that is published in between acts on the row as well.

## Main definitions

* `Cluster`, `step` — nodes on a row, interleaved with the administration of the rules.
* `Cluster.acted` — which version of which rule has run which action.
* `Quiet` — a commit does not replace the version of a rule that has acted on the row.
-/

namespace BbzPlatform.Triggers.Nodes

open Turns Function List
open Admin (Setup Tables)

/-! ## What a node reads -/

/-- `_published_version`: the published version with the highest number. -/
def newest (t : Tables) (ruleId : String) : Option Admin.VersionRow :=
  (t.versions.filter fun v => v.ruleId = ruleId ∧ v.lifecycle = .published).argmax (·.versionNo)

/-- `_candidates`: the published rules with the conditions of their newest published version. -/
def candidates (t : Tables) (priority : String → ℤ) : List CandidateRule :=
  (t.rules.filter (·.lifecycle = .published)).filterMap fun r =>
    (newest t r.id).map fun v => ⟨r.id, priority r.id, some v.content.conditions⟩

/-- `dict(raw_action)` of an action that is an object. -/
def fieldsOf : Json → Option Fields
  | .obj fields => some fields
  | _ => none

/-! ## Nodes -/

/-- How far a node has come: it has read an unprocessed row, knows the rules that are left, or runs
the actions of a version. -/
inductive Phase where
  | idle
  | fetched
  | ready (ruleIds : List String)
  | running (ruleId versionId : String) (tasks : List Task) (results : List Fields) (stage : Stage)
      (ruleIds : List String)

inductive Move where
  | administer (m : Admin.Move)
  | fetch
  | select (priority : String → ℤ)
  | load
  | act
  | mark
  | crash

/-- The rules, the tables, the nodes, and which version of which rule has run which action. -/
structure Cluster where
  admin : Admin.System
  db : Db
  processed : Bool
  phase : ℕ → Phase
  acted : List (String × String × ℕ)

section Steps

variable (setup : Setup) (signal : Fields) (providerEventId : String) (s : Cluster)

def Cluster.goto (q : ℕ) (phase : Phase) : Cluster :=
  { s with phase := update s.phase q phase }

/-- The tables after a transaction of an action, which counts as run once it has a row. -/
def Cluster.commit (ruleId versionId : String) (task : Task) (db : Db) : Cluster :=
  { s with
    db := db
    acted := if db.claimed task.key && !s.db.claimed task.key
      then s.acted ++ [(ruleId, versionId, task.key.index)] else s.acted }

def select (priority : String → ℤ) : Except RuleError (List CandidateRule) :=
  if (orNull signal "signal_type").truthy then
    selectMatchingRules (candidates s.admin.tables priority) signal
  else .ok []

/-- One transaction of the first action. -/
def actOn (q : ℕ) (ruleId versionId : String) (task : Task) (tasks : List Task)
    (results : List Fields) (stage : Stage) (ruleIds : List String) : Cluster :=
  match advance setup.env signal task results s.db stage with
  | .goOn db stage' => (s.commit ruleId versionId task db).goto q
      (.running ruleId versionId (task :: tasks) results stage' ruleIds)
  | .done db results' => (s.commit ruleId versionId task db).goto q
      (.running ruleId versionId tasks results' .claim ruleIds)
  | .escaped db _ => (s.commit ruleId versionId task db).goto q .idle

/-- A session or a node makes a move. -/
def step (q : ℕ) (m : Move) : Option Cluster :=
  match m, s.phase q with
  | .administer m, _ => (s.admin.step setup q m).map fun admin => { s with admin := admin }
  | .crash, _ => some (s.goto q .idle)
  | .fetch, .idle => if s.processed then none else some (s.goto q .fetched)
  | .select priority, .fetched =>
    match select signal s priority with
    | .error _ => none
    | .ok matched => some (s.goto q (.ready (matched.map (·.ruleId))))
  | .load, .ready (ruleId :: ruleIds) =>
    match newest s.admin.tables ruleId with
    | none => some (s.goto q (.ready ruleIds))
    | some v =>
      (v.content.actions.mapM fieldsOf).map fun actions =>
        s.goto q (.running ruleId v.id (RuleVersion.tasks ⟨v.id, actions⟩ providerEventId) []
          .claim ruleIds)
  | .act, .running _ _ [] _ _ ruleIds => some (s.goto q (.ready ruleIds))
  | .act, .running ruleId versionId (task :: tasks) results stage ruleIds =>
    some (actOn setup signal s q ruleId versionId task tasks results stage ruleIds)
  | .mark, .ready [] => some { s.goto q .idle with processed := true }
  | _, _ => none

end Steps

/-! ## One version for each rule -/

/-- A version of a rule has acted on the row, or a node is running it. -/
def Busy (s : Cluster) (ruleId versionId : String) : Prop :=
  (∃ index, (ruleId, versionId, index) ∈ s.acted) ∨
    ∃ q tasks results stage ruleIds,
      s.phase q = .running ruleId versionId tasks results stage ruleIds

/-- The row is not processed, or some node is still at it. -/
def Live (s : Cluster) : Prop := s.processed = false ∨ ∃ q, s.phase q ≠ .idle

/-- While the row is live, a commit of an administrator does not make another version the published
one of a rule that has acted on the row or is run on it. -/
def Quiet (setup : Setup) (s : Cluster) (p : ℕ) : Move → Prop
  | .administer m => Live s → ∀ admin, s.admin.step setup p m = some admin →
      ∀ ruleId v versionId, newest admin.tables ruleId = some v → Busy s ruleId versionId →
        v.id = versionId
  | _ => True

/-- No two versions of a rule are busy, and while the row is live the published version is the busy
one. -/
structure Calm (s : Cluster) : Prop where
  single : ∀ ruleId v w, Busy s ruleId v → Busy s ruleId w → v = w
  published : Live s → ∀ ruleId v versionId, newest s.admin.tables ruleId = some v →
    Busy s ruleId versionId → v.id = versionId

variable {setup : Setup} {signal : Fields} {providerEventId ruleId versionId r v : String}
  {s t : Cluster} {q : ℕ} {m : Move} {results : List Fields} {ruleIds : List String} {stage : Stage}
  {tasks : List Task} {phase : Phase} {task : Task} {db : Db}

theorem Calm.of_busy (hs : Calm s) (hlive : Live t → Live s)
    (htables : t.admin.tables = s.admin.tables)
    (hbusy : ∀ ruleId versionId, Busy t ruleId versionId → Busy s ruleId versionId) : Calm t := by
  refine ⟨fun ruleId v w hv hw => hs.single ruleId v w (hbusy _ _ hv) (hbusy _ _ hw), ?_⟩
  intro ht ruleId v versionId hnewest hv
  rw [htables] at hnewest
  exact hs.published (hlive ht) ruleId v versionId hnewest (hbusy _ _ hv)

/-- A node that goes anywhere but to a version makes nothing busy. -/
theorem busy_goto (hphase : ∀ r v tasks results stage ruleIds,
      phase ≠ .running r v tasks results stage ruleIds)
    (h : Busy (s.goto q phase) ruleId versionId) : Busy s ruleId versionId := by
  refine h.imp_right fun ⟨q', tasks, results, stage, ruleIds, hq'⟩ => ?_
  change update s.phase q phase q' = _ at hq'
  rcases eq_or_ne q' q with rfl | hne
  · rw [update_self] at hq'
    exact absurd hq' (hphase _ _ _ _ _ _)
  · rw [update_of_ne hne] at hq'
    exact ⟨q', tasks, results, stage, ruleIds, hq'⟩

theorem busy_running
    (h : Busy (s.goto q (.running r v tasks results stage ruleIds)) ruleId versionId) :
    Busy s ruleId versionId ∨ (ruleId = r ∧ versionId = v) := by
  rcases h with hacted | ⟨q', tasks, results, stage, ruleIds, hq'⟩
  · exact .inl (.inl hacted)
  · change update s.phase q _ q' = _ at hq'
    rcases eq_or_ne q' q with rfl | hne
    · rw [update_self] at hq'
      cases hq'
      exact .inr ⟨rfl, rfl⟩
    · rw [update_of_ne hne] at hq'
      exact .inl (.inr ⟨q', tasks, results, stage, ruleIds, hq'⟩)

theorem busy_commit (h : Busy (s.commit r v task db) ruleId versionId) :
    Busy s ruleId versionId ∨ (ruleId = r ∧ versionId = v) := by
  rcases h with ⟨index, hmem⟩ | hrunning
  · simp only [Cluster.commit] at hmem
    split at hmem
    · rcases mem_append.mp hmem with hmem | hmem
      · exact .inl (.inl ⟨index, hmem⟩)
      · cases mem_singleton.mp hmem
        exact .inr ⟨rfl, rfl⟩
    · exact .inl (.inl ⟨index, hmem⟩)
  · exact .inl (.inr hrunning)

/-- An idle node leaves the row no livelier. -/
theorem live_idle (h : Live (s.goto q .idle)) : Live s := by
  refine h.imp_right fun ⟨q', hq'⟩ => ⟨q', fun hidle => hq' ?_⟩
  change update s.phase q .idle q' = .idle
  rcases eq_or_ne q' q with rfl | hne
  · rw [update_self]
  · rw [update_of_ne hne, hidle]

theorem busy_actOn (hphase : s.phase q = .running r v (task :: tasks) results stage ruleIds)
    (h : Busy (actOn setup signal s q r v task tasks results stage ruleIds) ruleId versionId) :
    Busy s ruleId versionId := by
  have hself : Busy s r v := .inr ⟨q, _, _, _, _, hphase⟩
  have hsame : Busy s ruleId versionId ∨ (ruleId = r ∧ versionId = v) := by
    unfold actOn at h
    split at h
    · exact (busy_running h).elim busy_commit .inr
    · exact (busy_running h).elim busy_commit .inr
    · exact busy_commit (busy_goto (fun _ _ _ _ _ _ h => by cases h) h)
  rcases hsame with hbusy | ⟨rfl, rfl⟩
  · exact hbusy
  · exact hself

theorem actOn_tables :
    (actOn setup signal s q r v task tasks results stage ruleIds).admin = s.admin := by
  unfold actOn
  split <;> rfl

theorem Calm.goto (hs : Calm s) (hlive : Live (s.goto q phase) → Live s)
    (hphase : ∀ r v tasks results stage ruleIds, phase ≠ .running r v tasks results stage ruleIds) :
    Calm (s.goto q phase) :=
  hs.of_busy hlive rfl fun _ _ => busy_goto hphase

theorem live_of_phase (h : s.phase q = phase) (hne : phase ≠ .idle) : Live s :=
  .inr ⟨q, h ▸ hne⟩

/-- A node that reads the published version of a busy rule reads the busy one. -/
theorem Calm.load (hs : Calm s) (hlive : Live s) {row : Admin.VersionRow}
    (hnewest : newest s.admin.tables r = some row) :
    Calm (s.goto q (.running r row.id tasks results stage ruleIds)) := by
  have hrow : ∀ versionId, Busy s r versionId → row.id = versionId :=
    fun versionId hbusy => hs.published hlive r row versionId hnewest hbusy
  refine ⟨fun ruleId v w hv hw => ?_, fun _ ruleId v versionId hv hbusy => ?_⟩
  · rcases busy_running hv with hold | ⟨hr, rfl⟩ <;> rcases busy_running hw with hold' | ⟨hr', rfl⟩
    · exact hs.single ruleId v w hold hold'
    · exact (hrow v (hr' ▸ hold)).symm
    · exact hrow w (hr ▸ hold')
    · rfl
  · rcases busy_running hbusy with hbusy | ⟨rfl, rfl⟩
    · exact hs.published hlive ruleId v versionId hv hbusy
    · cases hnewest.symm.trans hv
      rfl

/-- **A move keeps calm** as long as no commit replaces the version of a busy rule. -/
theorem Calm.step (hs : Calm s) (hquiet : Quiet setup s q m)
    (hstep : step setup signal providerEventId s q m = some t) : Calm t := by
  unfold Nodes.step at hstep
  split at hstep
  next m _ =>
    obtain ⟨admin, hadmin, rfl⟩ := Option.map_eq_some_iff.mp hstep
    exact ⟨hs.single, fun hlive ruleId v versionId hnewest hbusy =>
      hquiet hlive admin hadmin ruleId v versionId hnewest hbusy⟩
  · cases hstep
    exact hs.goto live_idle nofun
  · obtain ⟨hopen, ⟨⟩⟩ := Option.ite_none_left_eq_some.mp hstep
    exact hs.goto (fun _ => .inl (Bool.eq_false_of_not_eq_true hopen)) nofun
  next hphase =>
    split at hstep
    · cases hstep
    · cases hstep
      exact hs.goto (fun _ => live_of_phase hphase nofun) nofun
  next ruleId ruleIds hphase =>
    split at hstep
    · cases hstep
      exact hs.goto (fun _ => live_of_phase hphase nofun) nofun
    next v hnewest =>
      obtain ⟨actions, -, rfl⟩ := Option.map_eq_some_iff.mp hstep
      exact hs.load (live_of_phase hphase nofun) hnewest
  next hphase =>
    cases hstep
    exact hs.goto (fun _ => live_of_phase hphase nofun) nofun
  next hphase =>
    cases hstep
    exact hs.of_busy (fun _ => live_of_phase hphase nofun) (by rw [actOn_tables])
      fun _ _ => busy_actOn hphase
  next hphase =>
    cases hstep
    refine hs.of_busy (fun _ => live_of_phase hphase nofun) rfl fun ruleId versionId h => ?_
    have hidle : Busy (s.goto q .idle) ruleId versionId := h
    exact busy_goto (fun _ _ _ _ _ _ h => by cases h) hidle
  · cases hstep

/-! ## The ledger and the versions that have acted -/

/-- Every row in the ledger belongs to a version that has acted, and a node runs the actions of the
version that it has read. -/
structure Logged (providerEventId : String) (s : Cluster) : Prop where
  ledger : ∀ key ∈ s.db.keys, key.providerEventId = providerEventId →
    ∃ ruleId, (ruleId, key.versionId, key.index) ∈ s.acted
  held : ∀ q ruleId versionId tasks results stage ruleIds,
    s.phase q = .running ruleId versionId tasks results stage ruleIds →
    ∀ task ∈ tasks, task.key.versionId = versionId

section

variable (hs : Logged providerEventId s)
include hs

/-- A node goes to a phase in which it runs the actions of its version. -/
theorem Logged.goto (hphase : ∀ ruleId versionId tasks results stage ruleIds,
      phase = .running ruleId versionId tasks results stage ruleIds →
      ∀ task ∈ tasks, task.key.versionId = versionId) : Logged providerEventId (s.goto q phase) :=
  ⟨hs.ledger, forall_update (Q := fun _ (ph : Phase) => ∀ r v tasks results stage ruleIds,
    ph = .running r v tasks results stage ruleIds → ∀ task ∈ tasks, task.key.versionId = v)
    hphase hs.held⟩

theorem Logged.commit (htask : task.key.versionId = versionId)
    (hkeys : ∀ key ∈ db.keys, key ∈ s.db.keys ∨ key = task.key) :
    Logged providerEventId (s.commit ruleId versionId task db) := by
  refine ⟨fun key hkey hrow => ?_, hs.held⟩
  change ∃ r, _ ∈ if db.claimed task.key && !s.db.claimed task.key then _ else _
  by_cases hold : key ∈ s.db.keys
  · obtain ⟨r, hr⟩ := hs.ledger key hold hrow
    refine ⟨r, ?_⟩
    split
    · exact mem_append_left _ hr
    · exact hr
  · obtain rfl := (hkeys key hkey).resolve_left hold
    have hkey : task.key ∈ db.keys := hkey
    have hnew : (db.claimed task.key && !s.db.claimed task.key) = true := by
      rw [claimed_iff.mpr hkey, Bool.eq_false_of_not_eq_true (not_claimed hold)]
      rfl
    refine ⟨ruleId, ?_⟩
    rw [if_pos hnew, htask]
    exact mem_append_right _ mem_cons_self

theorem Logged.actOn (hphase : s.phase q = .running r v (task :: tasks) results stage ruleIds) :
    Logged providerEventId (actOn setup signal s q r v task tasks results stage ruleIds) := by
  have hheld := hs.held q _ _ _ _ _ _ hphase
  have htask := hheld task mem_cons_self
  have hkeys : ∀ key ∈ (advance setup.env signal task results s.db stage).db.keys,
      key ∈ s.db.keys ∨ key = task.key := fun _ => advance_keys
  unfold Nodes.actOn
  cases hadvance : advance setup.env signal task results s.db stage with
  | goOn db stage' =>
    rw [hadvance] at hkeys
    refine (hs.commit htask hkeys).goto fun _ _ _ _ _ _ h => ?_
    cases h
    exact hheld
  | done db results' =>
    rw [hadvance] at hkeys
    refine (hs.commit htask hkeys).goto fun _ _ _ _ _ _ h => ?_
    cases h
    exact fun t ht => hheld t (mem_cons_of_mem _ ht)
  | escaped db e =>
    rw [hadvance] at hkeys
    exact (hs.commit htask hkeys).goto fun _ _ _ _ _ _ h => by cases h

theorem Logged.step (hstep : step setup signal providerEventId s q m = some t) :
    Logged providerEventId t := by
  unfold Nodes.step at hstep
  split at hstep
  · obtain ⟨admin, -, rfl⟩ := Option.map_eq_some_iff.mp hstep
    exact ⟨hs.ledger, hs.held⟩
  · cases hstep
    exact hs.goto nofun
  · obtain ⟨-, ⟨⟩⟩ := Option.ite_none_left_eq_some.mp hstep
    exact hs.goto nofun
  · split at hstep
    · cases hstep
    · cases hstep
      exact hs.goto nofun
  · split at hstep
    · cases hstep
      exact hs.goto nofun
    · obtain ⟨actions, -, rfl⟩ := Option.map_eq_some_iff.mp hstep
      refine hs.goto fun _ _ _ _ _ _ h task htask => ?_
      cases h
      obtain ⟨index, hindex, rfl⟩ := mem_mapIdx.mp htask
      rfl
  · cases hstep
    exact hs.goto nofun
  next hphase =>
    cases hstep
    exact hs.actOn hphase
  · cases hstep
    have hidle : Logged providerEventId (s.goto q .idle) := hs.goto nofun
    exact ⟨hidle.ledger, hidle.held⟩
  · cases hstep

end

/-- The row is new, and no node is at it. -/
structure Waiting (providerEventId : String) (s : Cluster) : Prop where
  ledger : ∀ key ∈ s.db.keys, key.providerEventId ≠ providerEventId
  acted : s.acted = []
  idle : ∀ q, s.phase q = .idle

/-- **One rule acts at most once on a signal as long as its published version stays.**  Any number
of nodes process a new row, crash and process it again, while administrators work on the rules.  If
no commit makes another version the published one of a rule that has acted on the row or is run on
it, until the row is processed, then at most one version of each rule has rows in the ledger. -/
theorem one_version_of_quiet (hs : Waiting providerEventId s) (hrun : Relation.ReflTransGen
      (Turn (step setup signal providerEventId) (Quiet setup)) s t) :
    (∀ ruleId v w i j, (ruleId, v, i) ∈ t.acted → (ruleId, w, j) ∈ t.acted → v = w) ∧
      ∀ key ∈ t.db.keys, key.providerEventId = providerEventId →
        ∃ ruleId, (ruleId, key.versionId, key.index) ∈ t.acted := by
  have hnone : ∀ ruleId versionId, ¬ Busy s ruleId versionId := by
    rintro ruleId versionId (⟨index, hmem⟩ | ⟨q, tasks, results, stage, ruleIds, hq⟩)
    · rw [hs.acted] at hmem
      cases hmem
    · rw [hs.idle q] at hq
      cases hq
  have hcalm : Calm s := ⟨fun r v w hv => absurd hv (hnone r v),
    fun _ r v w _ hw => absurd hw (hnone r w)⟩
  have hlogged : Logged providerEventId s := by
    refine ⟨fun key hkey hrow => absurd hrow (hs.ledger key hkey), fun q _ _ _ _ _ _ hq => ?_⟩
    rw [hs.idle q] at hq
    cases hq
  obtain ⟨hcalm, hlogged⟩ := Turn.invariant (P := fun s => Calm s ∧ Logged providerEventId s)
    (fun _ _ _ _ h hquiet hstep => ⟨h.1.step hquiet hstep, h.2.step hstep⟩) ⟨hcalm, hlogged⟩ hrun
  exact ⟨fun r v w i j hv hw => hcalm.single r v w (.inl ⟨i, hv⟩) (.inl ⟨j, hw⟩), hlogged.ledger⟩

/-- A rule with a published version and one that waits to be published. -/
def twoVersions : Cluster where
  admin := {
    tables := {
      rules := [⟨"r", .published⟩]
      versions := [⟨"v1", "r", 1, .published, Admin.ringing⟩,
        ⟨"v2", "r", 2, .validated, Admin.ringing⟩] }
    phase := fun _ => .idle }
  db := emptyDb
  processed := false
  phase := fun _ => .idle
  acted := []

/-- Two nodes process the row, and nothing is published in between. -/
def undisturbed : List (ℕ × Move) :=
  [(0, .fetch), (1, .fetch), (0, .select fun _ => 100), (1, .select fun _ => 100), (0, .load),
    (1, .load), (0, .act), (1, .act), (0, .act), (0, .mark)]

theorem undisturbed_once : ∃ t,
    execute (step Admin.oneRule (doorbell []) "p") twoVersions undisturbed = some t ∧
      ∀ ruleId v w i j, (ruleId, v, i) ∈ t.acted → (ruleId, w, j) ∈ t.acted → v = w := by
  obtain ⟨t, hexec⟩ : ∃ t,
      execute (step Admin.oneRule (doorbell []) "p") twoVersions undisturbed = some t :=
    ⟨_, rfl⟩
  have hquiet : Allows (step Admin.oneRule (doorbell []) "p") (Quiet Admin.oneRule)
      twoVersions undisturbed :=
    ⟨trivial, trivial, trivial, trivial, trivial, trivial, trivial, trivial, trivial, trivial,
      trivial⟩
  exact ⟨t, hexec, (one_version_of_quiet ⟨fun _ h => (not_mem_nil h).elim, rfl, fun _ => rfl⟩
    (run_of_allows undisturbed hexec hquiet)).1⟩

/-- **A version that is published after a crash acts on the row again**: the rule makes two events
from one signal. -/
theorem rule_acts_twice : (execute (step Admin.oneRule (doorbell []) "p") twoVersions
        [(0, .fetch), (0, .select fun _ => 100), (0, .load), (0, .act), (0, .crash),
          (0, .administer (.publish "v2")), (0, .administer .readPublished),
          (0, .administer .readRule), (0, .administer .commit),
          (1, .fetch), (1, .select fun _ => 100), (1, .load), (1, .act)]).map
        (fun t => (t.acted, t.db.events.length))
      = some ([("r", "v1", 0), ("r", "v2", 0)], 2) :=
  rfl

end BbzPlatform.Triggers.Nodes

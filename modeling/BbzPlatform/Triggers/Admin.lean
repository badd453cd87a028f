import BbzPlatform.Lib.Turns
import BbzPlatform.Triggers.Actions

/-!
# The administration of trigger rules

A version of a rule goes from draft to validated, published and retired, and the row of the rule
mirrors whether it has a published version.  An operation reads rows, one statement at a time, and
writes when it commits.  Nothing keeps the rows it has read from changing in between, and only the
attributes whose values differ from what was read are written.
-/

namespace BbzPlatform.Triggers.Admin

open Turns Function List

/-! ## Rows -/

inductive Lifecycle where
  | draft
  | validated
  | published
  | retired
  deriving DecidableEq, Repr

/-- A row of `trigger_rules`. -/
structure RuleRow where
  id : String
  lifecycle : Lifecycle

/-- The conditions and the actions of a version. -/
structure Content where
  conditions : Fields
  actions : List Json

/-- A row of `trigger_rule_versions`. -/
structure VersionRow where
  id : String
  ruleId : String
  versionNo : ℕ
  lifecycle : Lifecycle
  content : Content

structure Tables where
  rules : List RuleRow
  versions : List VersionRow

namespace Tables

variable (t : Tables)

def hasRule (id : String) : Bool := t.rules.any (·.id = id)

def hasVersion (id : String) : Bool := t.versions.any (·.id = id)

def publishedBut (ruleId : String) (keep : Option String) : List VersionRow :=
  t.versions.filter fun v => v.ruleId = ruleId ∧ v.lifecycle = .published ∧ some v.id ≠ keep

/-- `coalesce(max(version_no), 0) + 1`. -/
def nextNo (ruleId : String) : ℕ :=
  ((t.versions.filter (·.ruleId = ruleId)).map (·.versionNo)).foldl max 0 + 1

/-- New lifecycles for rows with given ids.  An update that finds no row fails. -/
def update (versions rules : List (String × Lifecycle)) : Option Tables :=
  if versions.all (t.hasVersion ·.1) && rules.all (t.hasRule ·.1) then
    some {
      rules := t.rules.map fun r => { r with lifecycle := (rules.lookup r.id).getD r.lifecycle }
      versions := t.versions.map fun v =>
        { v with lifecycle := (versions.lookup v.id).getD v.lifecycle } }
  else none

end Tables

/-- What the code takes from elsewhere: what the publish gate uses, the rule for which the id of a
version is drawn (no id is drawn twice), and `IS DISTINCT FROM` of the database. -/
structure Setup where
  env : Surroundings
  owner : String → String
  distinct : Json → Json → Bool
  distinct_self : ∀ v, distinct v v = false

section Committing

variable (setup : Setup)

/-- Two contents differ for the database. -/
def Setup.changed (a b : Content) : Bool :=
  setup.distinct (.obj a.conditions) (.obj b.conditions) ||
    setup.distinct (.arr a.actions) (.arr b.actions)

/-- The publish gate has nothing against a content. -/
def Setup.clear (content : Content) : Bool :=
  match publishBlockers setup.env (some content.conditions) content.actions with
  | .ok [] => true
  | _ => false

/-! ## Transactions -/

/-- What a transaction is about to commit, with what it has read. -/
inductive Commit where
  | createRule (ruleId versionId : String) (content : Content)
  | addVersion (ruleId versionId : String) (versionNo : ℕ) (content : Content)
  | editDraft (row : VersionRow) (content : Content)
  | deleteDraft (row : VersionRow)
  | validate (row : VersionRow)
  | publish (row : VersionRow) (superseded : List VersionRow) (rule : RuleRow)
  | retire (row : VersionRow) (rule : Option RuleRow)
  | deleteRule (ruleId : String)

def mirror (rule : RuleRow) (lifecycle : Lifecycle) : List (String × Lifecycle) :=
  if rule.lifecycle = lifecycle then [] else [(rule.id, lifecycle)]

/-- A row with the attributes of a new content that differ from those that were read. -/
def VersionRow.edited (row : VersionRow) (read content : Content) : VersionRow :=
  { row with content := {
      conditions := if Json.eq (.obj read.conditions) (.obj content.conditions)
        then row.content.conditions else content.conditions
      actions := if Json.eq (.arr read.actions) (.arr content.actions)
        then row.content.actions else content.actions } }

/-- The rows after a commit, if it succeeds: the rows to update are there, keys are unique, the rule
of a new version exists, and the content of a published version does not change. -/
def Commit.apply (t : Tables) : Commit → Option Tables
  | .createRule ruleId versionId content =>
    if t.hasRule ruleId || t.hasVersion versionId then none
    else some ⟨t.rules ++ [⟨ruleId, .draft⟩],
      t.versions ++ [⟨versionId, ruleId, 1, .draft, content⟩]⟩
  | .addVersion ruleId versionId versionNo content =>
    if !t.hasRule ruleId || t.hasVersion versionId ||
        t.versions.any (fun v => v.ruleId = ruleId ∧ v.versionNo = versionNo) then none
    else some { t with
      versions := t.versions ++ [⟨versionId, ruleId, versionNo, .draft, content⟩] }
  | .editDraft row content =>
    if Json.eq (.obj row.content.conditions) (.obj content.conditions) &&
        Json.eq (.arr row.content.actions) (.arr content.actions) then some t
    else if !t.hasVersion row.id || t.versions.any (fun v => v.id = row.id ∧
        v.lifecycle = .published ∧
        setup.changed (v.edited row.content content).content v.content) then none
    else some { t with versions := t.versions.map fun v =>
      if v.id = row.id then v.edited row.content content else v }
  | .deleteDraft row => some { t with versions := t.versions.filter (·.id ≠ row.id) }
  | .validate row => t.update (if row.lifecycle = .draft then [(row.id, .validated)] else []) []
  | .publish row superseded rule =>
    t.update (superseded.map (fun v => (v.id, .retired)) ++ [(row.id, .published)])
      (mirror rule .published)
  | .retire row rule => t.update [(row.id, .retired)] (rule.toList.flatMap (mirror · .retired))
  | .deleteRule ruleId =>
    some ⟨t.rules.filter (·.id ≠ ruleId), t.versions.filter (·.ruleId ≠ ruleId)⟩

end Committing

/-! ## Statements -/

/-- How far a session has come. -/
inductive Phase where
  | idle
  | numbering (ruleId versionId : String) (content : Content)
  | superseding (row : VersionRow)
  | mirroring (row : VersionRow) (superseded : List VersionRow)
  | retiring (row : VersionRow)
  | unmirroring (row : VersionRow)
  | deleting (ruleId : String)
  | committing (c : Commit)

/-- The operations, the statements that go on with them, and the end. -/
inductive Move where
  | createRule (ruleId versionId : String) (content : Content)
  | addVersion (ruleId versionId : String) (content : Content)
  | editDraft (versionId : String) (content : Content)
  | deleteDraft (versionId : String)
  | validate (versionId : String)
  | publish (versionId : String)
  | retire (versionId : String)
  | deleteRule (ruleId : String)
  | readNumber
  | readPublished
  | readRule
  | commit
  | abort

structure System where
  tables : Tables
  phase : ℕ → Phase

namespace System

variable (setup : Setup) (s : System)

def goto (p : ℕ) (phase : Phase) : System := { s with phase := update s.phase p phase }

/-- `get_version`. -/
def version (id : String) : Option VersionRow := s.tables.versions.find? (·.id = id)

/-- `get(TriggerRule, id)`. -/
def rule (id : String) : Option RuleRow := s.tables.rules.find? (·.id = id)

/-- The first statement of an operation, and its checks. -/
def begins : Move → Option Phase
  | .createRule ruleId versionId content =>
    if setup.owner versionId = ruleId then
      some (.committing (.createRule ruleId versionId content))
    else none
  | .addVersion ruleId versionId content =>
    if setup.owner versionId = ruleId ∧ (s.rule ruleId).isSome then
      some (.numbering ruleId versionId content)
    else none
  | .editDraft versionId content =>
    ((s.version versionId).filter (·.lifecycle = .draft)).map
      fun row => .committing (.editDraft row content)
  | .deleteDraft versionId =>
    ((s.version versionId).filter (·.lifecycle = .draft)).map
      fun row => .committing (.deleteDraft row)
  | .validate versionId =>
    ((s.version versionId).filter fun row =>
      (row.lifecycle = .draft ∨ row.lifecycle = .validated) ∧ setup.clear row.content).map
      fun row => .committing (.validate row)
  | .publish versionId =>
    ((s.version versionId).filter fun row =>
      row.lifecycle = .validated ∧ setup.clear row.content).map .superseding
  | .retire versionId =>
    ((s.version versionId).filter (·.lifecycle = .published)).map .retiring
  | .deleteRule ruleId => (s.rule ruleId).map fun _ => .deleting ruleId
  | _ => none

/-- The statements behind the first. -/
def continues : Phase → Move → Option Phase
  | .numbering ruleId versionId content, .readNumber =>
    some (.committing (.addVersion ruleId versionId (s.tables.nextNo ruleId) content))
  | .superseding row, .readPublished =>
    some (.mirroring row (s.tables.publishedBut row.ruleId (some row.id)))
  | .mirroring row superseded, .readRule =>
    (s.rule row.ruleId).map fun rule => .committing (.publish row superseded rule)
  | .retiring row, .readPublished =>
    some (if (s.tables.publishedBut row.ruleId (some row.id)).isEmpty then .unmirroring row
      else .committing (.retire row none))
  | .unmirroring row, .readRule =>
    (s.rule row.ruleId).map fun rule => .committing (.retire row (some rule))
  | .deleting ruleId, .readPublished =>
    if (s.tables.publishedBut ruleId none).isEmpty then some (.committing (.deleteRule ruleId))
    else none
  | _, _ => none

/-- A session makes a move.  A check that fails, a commit that fails and a crash are an abort. -/
def step (p : ℕ) (m : Move) : Option System :=
  match s.phase p, m with
  | _, .abort => some (s.goto p .idle)
  | .committing c, .commit =>
    (c.apply setup s.tables).map fun t => { s.goto p .idle with tables := t }
  | .idle, m => (s.begins setup m).map (s.goto p)
  | phase, m => (s.continues phase m).map (s.goto p)

end System

/-! ## One rule -/

/-- One rule, and contents that differ if they are not the same. -/
def oneRule : Setup where
  env := plainSurroundings
  owner _ := "r"
  distinct a b := decide (a ≠ b)
  distinct_self v := by simp

def notifying : Content := ⟨[], [.obj [("type", .str "notify")]]⟩

def ringing : Content := ⟨[], [.obj [("type", .str "create_event"), ("title", .str "Ring")]]⟩

end BbzPlatform.Triggers.Admin

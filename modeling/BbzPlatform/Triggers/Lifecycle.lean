import BbzPlatform.Triggers.Commits

/-!
# The lifecycle of trigger rules

Sessions read and commit in any order.  The operations keep to the lifecycle exactly as long as no
commit overlooks what was committed since its reads.
-/

namespace BbzPlatform.Triggers.Admin

open Turns Function List

/-- What a session has read belongs together. -/
def Phase.Valid (setup : Setup) : Phase → Prop
  | .idle | .deleting _ => True
  | .numbering ruleId versionId _ => setup.owner versionId = ruleId
  | .superseding row | .retiring row | .unmirroring row => setup.owner row.id = row.ruleId
  | .mirroring row superseded => setup.owner row.id = row.ruleId ∧
      ∀ v ∈ superseded, v.id ≠ row.id ∧ setup.owner v.id = row.ruleId
  | .committing c => c.Valid setup

/-- Sound tables, and sessions that have read them. -/
structure System.Sound (setup : Setup) (s : System) : Prop where
  tables : s.tables.Sound setup
  phases : ∀ p, (s.phase p).Valid setup

/-- The tables stay proper and the contents frozen, if the move is possible. -/
def Keeps (setup : Setup) (s : System) (p : ℕ) (m : Move) : Prop :=
  ∀ s', s.step setup p m = some s' →
    Proper s'.tables ∧ Frozen setup s.tables s'.tables

/-- A move that commits overlooks nothing. -/
def Fits (setup : Setup) (s : System) (p : ℕ) : Move → Prop
  | .commit => ∀ c, s.phase p = .committing c → c.Fits setup s.tables
  | _ => True

variable {setup : Setup} {t : Tables} {id : String} {row : VersionRow} {s s' : System} {p : ℕ}
  {m : Move} {phase : Phase}

section

variable (hs : s.Sound setup)
include hs

theorem version_drawn {q : VersionRow → Bool}
    (h : (s.version id).filter q = some row) : setup.owner row.id = row.ruleId := by
  obtain ⟨hfind, -⟩ := Option.filter_eq_some_iff.mp h
  exact hs.tables.drawn row (mem_of_find?_eq_some hfind)

theorem begins_valid (h : s.begins setup m = some phase) : phase.Valid setup := by
  cases m with
  | createRule ruleId versionId content =>
    obtain ⟨howner, ⟨⟩⟩ := Option.ite_none_right_eq_some.mp h
    exact howner
  | addVersion ruleId versionId content =>
    obtain ⟨hfound, ⟨⟩⟩ := Option.ite_none_right_eq_some.mp h
    exact hfound.1
  | editDraft versionId content | deleteDraft versionId | validate versionId | deleteRule ruleId =>
    obtain ⟨row, -, rfl⟩ := Option.map_eq_some_iff.mp h
    trivial
  | publish versionId | retire versionId =>
    obtain ⟨row, hrow, rfl⟩ := Option.map_eq_some_iff.mp h
    exact version_drawn hs hrow
  | readNumber | readPublished | readRule | commit | abort => cases h

theorem continues_valid {phase' : Phase} (hvalid : phase.Valid setup)
    (h : s.continues phase m = some phase') : phase'.Valid setup := by
  have hsuperseded : ∀ (row : VersionRow), ∀ v ∈ s.tables.publishedBut row.ruleId (some row.id),
      v.id ≠ row.id ∧ setup.owner v.id = row.ruleId := by
    intro row v hv
    obtain ⟨hv, hfound⟩ := mem_filter.mp hv
    obtain ⟨hrule, -, hne⟩ := of_decide_eq_true hfound
    exact ⟨fun hid => hne (congrArg some hid), hrule ▸ hs.tables.drawn v hv⟩
  have hrule : ∀ {id rule}, s.rule id = some rule → rule.id = id := by
    intro id rule hfind
    simpa using find?_some hfind
  cases m with
  | readNumber =>
    cases phase with
    | numbering ruleId versionId content =>
      cases h
      exact hvalid
    | _ => cases h
  | readPublished =>
    cases phase with
    | superseding row =>
      cases h
      exact ⟨hvalid, hsuperseded row⟩
    | retiring row =>
      cases h
      split
      · exact hvalid
      · exact ⟨hvalid, nofun⟩
    | deleting ruleId =>
      obtain ⟨-, ⟨⟩⟩ := Option.ite_none_right_eq_some.mp h
      trivial
    | _ => cases h
  | readRule =>
    cases phase with
    | mirroring row superseded =>
      obtain ⟨rule, hfind, rfl⟩ := Option.map_eq_some_iff.mp h
      exact ⟨hvalid.1, hrule hfind, hvalid.2⟩
    | unmirroring row =>
      obtain ⟨rule, hfind, rfl⟩ := Option.map_eq_some_iff.mp h
      refine ⟨hvalid, fun r hr => ?_⟩
      cases hr
      exact hrule hfind
    | _ => cases h
  | _ => cases phase <;> cases h

/-- **What a move does**: it reads, or it commits. -/
theorem step_cases (h : s.step setup p m = some s') :
    (∃ phase : Phase, phase.Valid setup ∧ s' = s.goto p phase ∧
        (m = .commit → ∀ c, s.phase p ≠ .committing c)) ∨
      ∃ c t, m = .commit ∧ s.phase p = .committing c ∧ c.apply setup s.tables = some t ∧
        s' = { s.goto p .idle with tables := t } := by
  have hvalid := hs.phases p
  unfold System.step at h
  split at h
  · cases h
    exact .inl ⟨.idle, trivial, rfl, nofun⟩
  next c hphase =>
    obtain ⟨t, ht, rfl⟩ := Option.map_eq_some_iff.mp h
    exact .inr ⟨c, t, rfl, hphase, ht, rfl⟩
  next hphase _ =>
    obtain ⟨phase, hbegins, rfl⟩ := Option.map_eq_some_iff.mp h
    exact .inl ⟨phase, begins_valid hs hbegins, rfl, fun _ c hc => by cases hphase.symm.trans hc⟩
  next hcommit =>
    obtain ⟨phase, hcontinues, rfl⟩ := Option.map_eq_some_iff.mp h
    exact .inl ⟨phase, continues_valid hs hvalid hcontinues, rfl, fun hm c hc => hcommit c hc hm⟩

theorem System.Sound.goto (ht : t.Sound setup)
    (hvalid : phase.Valid setup) : System.Sound setup { s.goto p phase with tables := t } :=
  ⟨ht, forall_update (Q := fun _ phase => Phase.Valid setup phase) hvalid hs.phases⟩

/-- **A move keeps to the lifecycle exactly if it overlooks nothing.** -/
theorem keeps_iff_fits (h : s.step setup p m = some s') :
    (Keeps setup s p m ↔ Fits setup s p m) ∧ (Fits setup s p m → s'.Sound setup) := by
  have hkeeps : Keeps setup s p m ↔
      Proper s'.tables ∧ Frozen setup s.tables s'.tables := by
    refine ⟨fun hkeeps => hkeeps s' h, fun hboth u hu => ?_⟩
    cases h.symm.trans hu
    exact hboth
  rw [hkeeps]
  rcases step_cases hs h with ⟨phase, hvalid, rfl, hnot⟩ | ⟨c, t, rfl, hphase, happly, rfl⟩
  · have hfits : Fits setup s p m := by
      cases m with
      | commit => exact fun c hc => absurd hc (hnot rfl c)
      | _ => trivial
    have hkept : Frozen setup s.tables s.tables := .of_subset hs.tables (Subset.refl _)
    exact ⟨iff_of_true ⟨hs.tables.proper, hkept⟩ hfits, fun _ => hs.goto hs.tables hvalid⟩
  · have hvalid := hs.phases p
    rw [hphase] at hvalid
    obtain ⟨hiff, hsound⟩ := commit_iff hs.tables hvalid happly
    have hfits : Fits setup s p .commit ↔ c.Fits setup s.tables := by
      refine ⟨fun h => h c hphase, fun h c' hc' => ?_⟩
      cases hphase.symm.trans hc'
      exact h
    rw [hfits]
    exact ⟨hiff, fun hfit => hs.goto (hsound (hiff.mpr hfit).1) trivial⟩

end

/-- **The lifecycle invariant holds along an interleaving exactly if no commit overlooks anything.**
From sound tables and idle sessions, any statements of any sessions are executed in any order.
After each of them the tables are proper and no content but that of drafts has changed, exactly if
each commit fits the tables that it finds. -/
theorem lifecycle_iff_fits (hs : s.Sound setup) {moves : List (ℕ × Move)}
    (hexec : execute (System.step setup) s moves = some s') :
    Allows (System.step setup) (Keeps setup) s moves ↔
      Allows (System.step setup) (Fits setup) s moves :=
  allows_congr (fun _ _ _ _ hs hstep => (keeps_iff_fits hs hstep).1)
    (fun _ _ _ _ hs hfits hstep => (keeps_iff_fits hs hstep).2 hfits) hs hexec

/-! ## Two publishers -/

/-- No rows, and idle sessions. -/
def empty : System := ⟨⟨[], []⟩, fun _ => .idle⟩

theorem empty_sound (setup : Setup) : empty.Sound setup :=
  ⟨⟨⟨nofun, nofun, nofun⟩, nodup_nil, nofun, nofun⟩, fun _ => trivial⟩

/-- A session makes a rule and publishes its version. -/
def publishing : List (ℕ × Move) :=
  [(0, .createRule "r" "v1" notifying), (0, .commit), (0, .validate "v1"), (0, .commit),
    (0, .publish "v1"), (0, .readPublished), (0, .readRule), (0, .commit)]

theorem publishing_keeps : Allows (System.step oneRule) (Keeps oneRule) empty publishing := by
  obtain ⟨s, hexec⟩ : ∃ s, execute (System.step oneRule) empty publishing = some s :=
    ⟨_, rfl⟩
  refine (lifecycle_iff_fits (empty_sound oneRule) hexec).mpr
    ⟨trivial, fun c hc => ?_, trivial, fun c hc => ?_, trivial, trivial, trivial,
      fun c hc => ?_, trivial⟩
  · obtain rfl := Phase.committing.inj hc
    trivial
  · obtain rfl := Phase.committing.inj hc
    intro _ v hv _
    cases mem_singleton.mp hv
    decide
  · obtain rfl := Phase.committing.inj hc
    refine ⟨fun v hv _ _ => ?_, by decide⟩
    cases mem_singleton.mp hv
    exact .inl rfl

/-- **Two sessions publish a version each, and both stay published; an edit changes a version that
was validated since it was read.** -/
theorem published_twice : (execute (System.step oneRule) empty
        [(0, .createRule "r" "v1" notifying), (0, .commit), (0, .validate "v1"), (0, .commit),
          (0, .addVersion "r" "v2" ringing), (0, .readNumber), (0, .commit), (0, .validate "v2"),
          (0, .commit), (0, .publish "v1"), (0, .readPublished), (1, .publish "v2"),
          (1, .readPublished), (0, .readRule), (0, .commit), (1, .readRule), (1, .commit)]).map
        (fun s => s.tables.versions.map fun v => (v.id, v.ruleId, v.lifecycle))
      = some [("v1", "r", .published), ("v2", "r", .published)] ∧
    (execute (System.step oneRule) empty
        [(0, .createRule "r" "v1" notifying), (0, .commit), (1, .editDraft "v1" ringing),
          (0, .validate "v1"), (0, .commit)]).map
        (fun s => s.tables.versions.map fun v => (v.lifecycle, v.content.actions))
      = some [(.validated, notifying.actions)] ∧ (execute (System.step oneRule) empty
        [(0, .createRule "r" "v1" notifying), (0, .commit), (1, .editDraft "v1" ringing),
          (0, .validate "v1"), (0, .commit), (1, .commit)]).map
        (fun s => s.tables.versions.map fun v => (v.lifecycle, v.content.actions))
      = some [(.validated, ringing.actions)] :=
  ⟨rfl, rfl, rfl⟩

end BbzPlatform.Triggers.Admin

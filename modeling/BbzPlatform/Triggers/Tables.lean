import BbzPlatform.Triggers.Admin

/-!
# The tables of the trigger rules

The tables are proper if a rule has at most one published version, its row says whether it has one,
and the numbers of its versions are distinct.  A commit that overlooks nothing keeps them so.  Here
is what the keys of the tables give, and what an update of lifecycles does to them.
-/

namespace BbzPlatform.Triggers.Admin

open Function List

/-! ## What is to hold -/

/-- A rule has at most one published version, its row mirrors whether it has one, and its versions
have distinct numbers. -/
structure Proper (t : Tables) : Prop where
  single : ∀ v ∈ t.versions, ∀ w ∈ t.versions, v.ruleId = w.ruleId →
    v.lifecycle = .published → w.lifecycle = .published → v.id = w.id
  mirrored : ∀ r ∈ t.rules, r.lifecycle = .published ↔
    ∃ v ∈ t.versions, v.ruleId = r.id ∧ v.lifecycle = .published
  numbered : ∀ v ∈ t.versions, ∀ w ∈ t.versions, v.ruleId = w.ruleId →
    v.versionNo = w.versionNo → v.id = w.id

/-- The contents of versions that are no longer drafts do not change. -/
def Frozen (setup : Setup) (t t' : Tables) : Prop :=
  ∀ v ∈ t.versions, v.lifecycle ≠ .draft → ∀ w ∈ t'.versions, w.id = v.id →
    setup.changed w.content v.content = false

/-- A commit overlooks nothing that matters to it.  A publish has seen the version that is published
now, and a rule that it took for published still is; a retirement that sets the rule to retired
leaves no published version, and one that does not finds its version retired already; a version that
is validated or deleted as a draft is not published by now, and one that is edited is a draft still,
unless the edit changes nothing. -/
def Commit.Fits (setup : Setup) (t : Tables) : Commit → Prop
  | .createRule .. | .addVersion .. | .deleteRule _ => True
  | .editDraft row content => ∀ v ∈ t.versions, v.id = row.id → v.lifecycle = .draft ∨
      setup.changed (v.edited row.content content).content v.content = false
  | .deleteDraft row => ∀ v ∈ t.versions, v.id = row.id → v.lifecycle ≠ .published
  | .validate row => row.lifecycle = .draft →
      ∀ v ∈ t.versions, v.id = row.id → v.lifecycle ≠ .published
  | .publish row superseded rule =>
    (∀ v ∈ t.versions, v.ruleId = row.ruleId → v.lifecycle = .published →
      v.id = row.id ∨ v.id ∈ superseded.map (·.id)) ∧
    (rule.lifecycle = .published →
      ∀ r ∈ t.rules, r.id = rule.id → r.lifecycle = .published)
  | .retire row rule =>
    ((∃ r ∈ rule, r.lifecycle ≠ .retired) → ∀ v ∈ t.versions, v.ruleId = row.ruleId →
      v.lifecycle = .published → v.id = row.id) ∧
    ((∀ r ∈ rule, r.lifecycle = .retired) →
      ∀ v ∈ t.versions, v.id = row.id → v.lifecycle ≠ .published)

/-! ## Tables with keys -/

/-- Proper tables with unique and foreign keys. -/
structure Tables.Sound (setup : Setup) (t : Tables) : Prop where
  proper : Proper t
  nodup : (t.versions.map (·.id)).Nodup
  owned : ∀ v ∈ t.versions, ∃ r ∈ t.rules, r.id = v.ruleId
  drawn : ∀ v ∈ t.versions, setup.owner v.id = v.ruleId

/-- What a transaction has read belongs together. -/
def Commit.Valid (setup : Setup) : Commit → Prop
  | .createRule ruleId versionId _ | .addVersion ruleId versionId _ _ =>
    setup.owner versionId = ruleId
  | .publish row superseded rule => setup.owner row.id = row.ruleId ∧ rule.id = row.ruleId ∧
      ∀ v ∈ superseded, v.id ≠ row.id ∧ setup.owner v.id = row.ruleId
  | .retire row rule => setup.owner row.id = row.ruleId ∧ ∀ r ∈ rule, r.id = row.ruleId
  | _ => True

variable {setup : Setup} {t t' : Tables} {id : String} {v w : VersionRow}
  {versions rules : List (String × Lifecycle)}

theorem hasRule_iff : t.hasRule id = true ↔ ∃ r ∈ t.rules, r.id = id := by
  simp [Tables.hasRule]

theorem hasVersion_iff : t.hasVersion id = true ↔ ∃ v ∈ t.versions, v.id = id := by
  simp [Tables.hasVersion]

theorem hasRule_eq_false : t.hasRule id = false ↔ ∀ r ∈ t.rules, r.id ≠ id := by
  simp [Tables.hasRule]

theorem hasVersion_eq_false : t.hasVersion id = false ↔ ∀ v ∈ t.versions, v.id ≠ id := by
  simp [Tables.hasVersion]

theorem eq_of_id (hnodup : (t.versions.map (·.id)).Nodup)
    (hv : v ∈ t.versions) (hw : w ∈ t.versions) (h : v.id = w.id) : v = w :=
  inj_on_of_nodup_map hnodup hv hw h

theorem changed_self (content : Content) : setup.changed content content = false := by
  rw [Setup.changed, setup.distinct_self, setup.distinct_self, Bool.or_false]

theorem Frozen.of_kept (hs : t.Sound setup)
    (h : ∀ w ∈ t'.versions, (∃ v ∈ t.versions, v.id = w.id ∧ v.content = w.content) ∨
      t.hasVersion w.id = false) : Frozen setup t t' := by
  intro v hv _ w hw hid
  rcases h w hw with ⟨u, hu, huid, hcontent⟩ | hnew
  · rw [← hcontent, eq_of_id hs.nodup hu hv (huid.trans hid)]
    exact changed_self _
  · exact absurd hid.symm (hasVersion_eq_false.mp hnew v hv)

theorem Frozen.of_subset (hs : t.Sound setup) (h : t'.versions ⊆ t.versions) : Frozen setup t t' :=
  .of_kept hs fun w hw => .inl ⟨w, h hw, rfl, rfl⟩

/-- **A published version that goes without its rule leaves the tables improper.** -/
theorem not_proper_of_lost (hs : t.Sound setup) (hv : v ∈ t.versions)
    (hpublished : v.lifecycle = .published) (hrules : t.rules ⊆ t'.rules)
    (hversions : ∀ w ∈ t'.versions, w.ruleId = v.ruleId → w.lifecycle = .published →
      ∃ u ∈ t.versions, u.ruleId = w.ruleId ∧ u.lifecycle = .published ∧ u.id ≠ v.id) :
    ¬ Proper t' := by
  intro hproper
  obtain ⟨r, hr, hrid⟩ := hs.owned v hv
  have hrule : r.lifecycle = .published :=
    (hs.proper.mirrored r hr).mpr ⟨v, hv, hrid.symm, hpublished⟩
  obtain ⟨w, hw, hwid, hwpublished⟩ := (hproper.mirrored r (hrules hr)).mp hrule
  have hsame : w.ruleId = v.ruleId := hwid.trans hrid
  obtain ⟨u, hu, huid, hupublished, hne⟩ := hversions w hw hsame hwpublished
  exact hne (hs.proper.single u hu v hv (huid.trans hsame) hupublished hpublished)

/-! ## Rows that go, come or change their content -/

section

variable (hs : t.Sound setup)
include hs

/-- Rows go, but neither a published version without its rule nor a rule without its versions. -/
theorem Tables.Sound.filter (keepRule : RuleRow → Bool) (keep : VersionRow → Bool)
    (hpublished : ∀ r, keepRule r → ∀ v ∈ t.versions, v.ruleId = r.id →
      v.lifecycle = .published → keep v)
    (howned : ∀ v, keep v → ∀ r : RuleRow, r.id = v.ruleId → keepRule r) :
    Tables.Sound setup ⟨t.rules.filter keepRule, t.versions.filter keep⟩ := by
  have hmem : ∀ {v}, v ∈ t.versions.filter keep → v ∈ t.versions := mem_of_mem_filter
  refine ⟨⟨fun v hv w hw => ?_, fun r hr => ?_, fun v hv w hw => ?_⟩,
    hs.nodup.sublist (filter_sublist.map _), fun v hv => ?_, fun v hv => hs.drawn v (hmem hv)⟩
  · exact hs.proper.single v (hmem hv) w (hmem hw)
  · obtain ⟨hr, hkeep⟩ := mem_filter.mp hr
    rw [hs.proper.mirrored r hr]
    refine exists_congr fun v => ⟨fun ⟨hv, hrule, hlive⟩ => ⟨?_, hrule, hlive⟩,
      fun ⟨hv, hrest⟩ => ⟨hmem hv, hrest⟩⟩
    exact mem_filter.mpr ⟨hv, hpublished r hkeep v hv hrule hlive⟩
  · exact hs.proper.numbered v (hmem hv) w (hmem hw)
  · obtain ⟨hv, hkeep⟩ := mem_filter.mp hv
    obtain ⟨r, hr, hrid⟩ := hs.owned v hv
    exact ⟨r, mem_filter.mpr ⟨hr, howned v hkeep r hrid⟩, hrid⟩

theorem Tables.Sound.append (rules : List RuleRow)
    (hdraft : v.lifecycle = .draft) (hdrawn : setup.owner v.id = v.ruleId)
    (hid : t.hasVersion v.id = false)
    (hno : ∀ w ∈ t.versions, w.ruleId = v.ruleId → w.versionNo ≠ v.versionNo)
    (howned : ∃ r ∈ t.rules ++ rules, r.id = v.ruleId)
    (hrules : ∀ r ∈ rules, r.lifecycle = .draft ∧ t.hasRule r.id = false) :
    Tables.Sound setup ⟨t.rules ++ rules, t.versions ++ [v]⟩ ∧
      Frozen setup t ⟨t.rules ++ rules, t.versions ++ [v]⟩ := by
  have hmem : ∀ {w}, w ∈ t.versions ++ [v] → w ∈ t.versions ∨ w = v := by
    intro w hw
    exact (mem_append.mp hw).imp_right mem_singleton.mp
  have hpublished : ∀ {w}, w ∈ t.versions ++ [v] → w.lifecycle = .published → w ∈ t.versions := by
    intro w hw hwp
    rcases hmem hw with hw | rfl
    · exact hw
    · rw [hdraft] at hwp
      cases hwp
  refine ⟨⟨⟨fun u hu w hw hrule hup hwp => ?_, fun r hr => ?_, fun u hu w hw hrule hsame => ?_⟩,
    ?_, fun w hw => ?_, fun w hw => ?_⟩, .of_kept hs fun w hw => ?_⟩
  · exact hs.proper.single u (hpublished hu hup) w (hpublished hw hwp) hrule hup hwp
  · rcases mem_append.mp hr with hr | hr
    · rw [hs.proper.mirrored r hr]
      exact exists_congr fun w => ⟨fun ⟨hw, hrest⟩ => ⟨mem_append_left _ hw, hrest⟩,
        fun ⟨hw, hrest⟩ => ⟨hpublished hw hrest.2, hrest⟩⟩
    · obtain ⟨hrdraft, hrnew⟩ := hrules r hr
      refine iff_of_false (by simp [hrdraft]) ?_
      rintro ⟨w, hw, hwrule, hwp⟩
      obtain ⟨r', hr', hrid⟩ := hs.owned w (hpublished hw hwp)
      exact hasRule_eq_false.mp hrnew r' hr' (hrid.trans hwrule)
  · rcases hmem hu with hold | hnew <;> rcases hmem hw with hold' | hnew'
    · exact hs.proper.numbered u hold w hold' hrule hsame
    · exact absurd (hnew' ▸ hsame) (hno u hold (hnew' ▸ hrule))
    · exact absurd (hnew ▸ hsame.symm) (hno w hold' (hnew ▸ hrule.symm))
    · rw [hnew, hnew']
  · rw [map_append, map_singleton]
    refine hs.nodup.append (nodup_singleton _) (disjoint_singleton.mpr ?_)
    simpa using hasVersion_eq_false.mp hid
  · rcases hmem hw with hw | rfl
    · obtain ⟨r, hr, hrid⟩ := hs.owned w hw
      exact ⟨r, mem_append_left _ hr, hrid⟩
    · exact howned
  · rcases hmem hw with hw | rfl
    · exact hs.drawn w hw
    · exact hdrawn
  · rcases hmem hw with hw | rfl
    · exact .inl ⟨w, hw, rfl, rfl⟩
    · exact .inr hid

theorem Tables.Sound.map_content (f : VersionRow → Content) :
    Tables.Sound setup
      { t with versions := t.versions.map fun v => { v with content := f v } } := by
  refine ⟨⟨?_, ?_, ?_⟩, ?_, ?_, ?_⟩
  · simpa only [forall_mem_map] using hs.proper.single
  · simpa only [mem_map, exists_exists_and_eq_and] using hs.proper.mirrored
  · simpa only [forall_mem_map] using hs.proper.numbered
  · simpa only [map_map, comp_def] using hs.nodup
  · simpa only [forall_mem_map] using hs.owned
  · simpa only [forall_mem_map] using hs.drawn

end

/-! ## Updates of lifecycles -/

/-- The lifecycle that an update leaves in a row. -/
def after (changes : List (String × Lifecycle)) (id : String) (old : Lifecycle) : Lifecycle :=
  (changes.lookup id).getD old

theorem after_nil (id : String) (old : Lifecycle) : after [] id old = old := rfl

theorem after_cons (key id : String) (new old : Lifecycle) (changes : List (String × Lifecycle)) :
    after ((key, new) :: changes) id old = if id = key then new else after changes id old := by
  rw [after, lookup_cons]
  by_cases h : id = key
  · simp [h]
  · have hbeq : (id == key) = false := by simpa using h
    rw [hbeq, if_neg h, after]

theorem after_singleton (key id : String) (new old : Lifecycle) :
    after [(key, new)] id old = if id = key then new else old :=
  after_cons key id new old []

/-- An update finds its rows, and changes nothing but lifecycles. -/
theorem update_some (h : t.update versions rules = some t') :
    (∀ p ∈ versions, ∃ v ∈ t.versions, v.id = p.1) ∧ (∀ p ∈ rules, ∃ r ∈ t.rules, r.id = p.1) ∧
      t' = ⟨t.rules.map fun r => { r with lifecycle := after rules r.id r.lifecycle },
        t.versions.map fun v => { v with lifecycle := after versions v.id v.lifecycle }⟩ := by
  unfold Tables.update at h
  split at h
  next hfound =>
    obtain ⟨hversions, hrules⟩ := (Bool.and_eq_true _ _).mp hfound
    cases h
    exact ⟨fun p hp => hasVersion_iff.mp (all_eq_true.mp hversions p hp),
      fun p hp => hasRule_iff.mp (all_eq_true.mp hrules p hp), rfl⟩
  · cases h

section

variable (hs : t.Sound setup) (h : t.update versions rules = some t')
include hs h

theorem proper_update_iff :
    Proper t' ↔
      (∀ v ∈ t.versions, ∀ w ∈ t.versions, v.ruleId = w.ruleId →
        after versions v.id v.lifecycle = .published →
        after versions w.id w.lifecycle = .published → v.id = w.id) ∧
      ∀ r ∈ t.rules, after rules r.id r.lifecycle = .published ↔
        ∃ v ∈ t.versions, v.ruleId = r.id ∧ after versions v.id v.lifecycle = .published := by
  obtain ⟨-, -, rfl⟩ := update_some h
  refine ⟨fun hproper => ⟨?_, ?_⟩, fun ⟨hsingle, hmirrored⟩ => ⟨?_, ?_, ?_⟩⟩
  · simpa only [forall_mem_map] using hproper.single
  · simpa only [mem_map, exists_exists_and_eq_and, forall_exists_index, and_imp,
      forall_apply_eq_imp_iff₂] using hproper.mirrored
  · simpa only [forall_mem_map] using hsingle
  · simpa only [mem_map, exists_exists_and_eq_and, forall_exists_index, and_imp,
      forall_apply_eq_imp_iff₂] using hmirrored
  · simpa only [forall_mem_map] using hs.proper.numbered

theorem sound_update (hproper : Proper t') : t'.Sound setup := by
  obtain ⟨-, -, rfl⟩ := update_some h
  refine ⟨hproper, ?_, ?_, ?_⟩
  · simpa only [map_map, comp_def] using hs.nodup
  · simpa only [mem_map, exists_exists_and_eq_and, forall_exists_index, and_imp,
      forall_apply_eq_imp_iff₂] using hs.owned
  · simpa only [forall_mem_map] using hs.drawn

theorem frozen_update : Frozen setup t t' := by
  obtain ⟨-, -, rfl⟩ := update_some h
  refine .of_kept hs fun w hw => ?_
  obtain ⟨v, hv, rfl⟩ := mem_map.mp hw
  exact .inl ⟨v, hv, rfl, rfl⟩

end

end BbzPlatform.Triggers.Admin

import BbzPlatform.Triggers.Tables

/-!
# Commits to the tables of the trigger rules

A commit leaves proper tables, and the contents of all versions but drafts as they were, exactly if
it overlooks nothing that was committed since its reads.
-/

namespace BbzPlatform.Triggers.Admin

open List

variable {setup : Setup} {t t' : Tables} {ruleId versionId : String} {v w row : VersionRow}
  {superseded : List VersionRow} {rule : RuleRow} {content : Content}

theorem after_publish (superseded : List VersionRow) (key id : String) (old : Lifecycle) :
    after (superseded.map (fun v => (v.id, .retired)) ++ [(key, .published)]) id old
      = if id ∈ superseded.map (·.id) then .retired else if id = key then .published else old := by
  induction superseded with
  | nil => exact (after_singleton key id .published old).trans (by simp)
  | cons v superseded ih =>
    rw [map_cons, cons_append, after_cons, ih]
    by_cases h : id = v.id <;> simp [h]

theorem after_mirror (rule : RuleRow) (new : Lifecycle) (id : String) (old : Lifecycle) :
    after (mirror rule new) id old
      = if rule.lifecycle ≠ new ∧ id = rule.id then new else old := by
  unfold mirror
  split
  next h =>
    rw [after_nil, if_neg fun hboth => hboth.1 h]
  next h =>
    rw [after_singleton]
    simp [h]

theorem published_after_iff (hrow : row.id ∉ superseded.map (·.id)) (v : VersionRow) :
    after (superseded.map (fun v => (v.id, .retired)) ++ [(row.id, .published)]) v.id
        v.lifecycle = .published ↔
      v.id = row.id ∨ v.id ∉ superseded.map (·.id) ∧ v.lifecycle = .published := by
  rw [after_publish]
  by_cases hmem : v.id ∈ superseded.map (·.id)
  · have hne : v.id ≠ row.id := fun hid => hrow (hid ▸ hmem)
    simp [hne, hmem]
  · by_cases hid : v.id = row.id
    · simp [hid, hrow]
    · simp only [if_neg hmem, hid, if_false, false_or]
      exact ⟨fun hpublished => ⟨hmem, hpublished⟩, And.right⟩

variable (hs : t.Sound setup)
include hs

/-- A version that is not published by now loses nothing. -/
theorem proper_unpublished {new : Lifecycle} (hnew : new ≠ .published)
    (h : t.update [(row.id, new)] [] = some t') :
    Proper t' ↔ ∀ v ∈ t.versions, v.id = row.id → v.lifecycle ≠ .published := by
  constructor
  · intro hproper v hv hid hpublished
    obtain ⟨-, -, rfl⟩ := update_some h
    refine not_proper_of_lost hs hv hpublished (by simp [after_nil]) (fun w hw hrule hw' => ?_)
      hproper
    obtain ⟨u, hu, rfl⟩ := mem_map.mp hw
    simp only [after_singleton] at hw'
    split_ifs at hw' with hne
    · exact absurd hw' hnew
    · exact ⟨u, hu, rfl, hw', hid ▸ hne⟩
  · intro hnone
    have hsame : ∀ v ∈ t.versions, after [(row.id, new)] v.id v.lifecycle = .published ↔
        v.lifecycle = .published := by
      intro v hv
      rw [after_singleton]
      split_ifs with hid
      · exact iff_of_false hnew (hnone v hv hid)
      · exact Iff.rfl
    refine (proper_update_iff hs h).mpr ⟨fun v hv w hw hrule hv' hw' => ?_, fun r hr => ?_⟩
    · exact hs.proper.single v hv w hw hrule ((hsame v hv).mp hv') ((hsame w hw).mp hw')
    · rw [after_nil, hs.proper.mirrored r hr]
      exact exists_congr fun v => and_congr_right fun hv => and_congr_right fun _ =>
        (hsame v hv).symm

section Publish

variable (hvalid : (Commit.publish row superseded rule).Valid setup)
include hvalid

theorem ruleId_of_publish (hv : v ∈ t.versions) (h : v.id ∈ superseded.map (·.id) ∨ v.id = row.id) :
    v.ruleId = row.ruleId := by
  obtain ⟨howner, -, hsuperseded⟩ := hvalid
  rcases h with hmem | hid
  · obtain ⟨w, hw, hid⟩ := mem_map.mp hmem
    rw [← hs.drawn v hv, ← hid, (hsuperseded w hw).2]
  · rw [← hs.drawn v hv, hid, howner]

theorem single_of_fits (hfits : (Commit.publish row superseded rule).Fits setup t)
    (hv : v ∈ t.versions) (hw : w ∈ t.versions) (hsame : v.ruleId = w.ruleId)
    (hv' : v.id = row.id ∨ v.id ∉ superseded.map (·.id) ∧ v.lifecycle = .published)
    (hw' : w.id = row.id ∨ w.id ∉ superseded.map (·.id) ∧ w.lifecycle = .published) :
    v.id = w.id := by
  by_cases hvrule : v.ruleId = row.ruleId
  · -- a published version of the rule is the row, once the others are retired
    have honly : ∀ x ∈ t.versions, x.ruleId = row.ruleId →
        (x.id = row.id ∨ x.id ∉ superseded.map (·.id) ∧ x.lifecycle = .published) →
        x.id = row.id := by
      rintro x hx hxrule (hid | ⟨hmem, hpublished⟩)
      · exact hid
      · exact (hfits.1 x hx hxrule hpublished).resolve_right hmem
    rw [honly v hv hvrule hv', honly w hw (hsame.symm.trans hvrule) hw']
  · have hne : ∀ x ∈ t.versions, x.ruleId ≠ row.ruleId → x.id ≠ row.id :=
      fun x hx hxrule hid => hxrule (ruleId_of_publish hs hvalid hx (.inr hid))
    exact hs.proper.single v hv w hw hsame (hv'.resolve_left (hne v hv hvrule)).2
      (hw'.resolve_left (hne w hw (hsame ▸ hvrule))).2

/-- **A publish is proper exactly if it has seen the version that is published now**, and a rule
that it took for published still is. -/
theorem proper_publish (h : (Commit.publish row superseded rule).apply setup t = some t') :
    Proper t' ↔ (Commit.publish row superseded rule).Fits setup t := by
  have hrule : rule.id = row.ruleId := hvalid.2.1
  have hrow : row.id ∉ superseded.map (·.id) := by
    intro hmem
    obtain ⟨v, hv, hid⟩ := mem_map.mp hmem
    exact (hvalid.2.2 v hv).1 hid
  obtain ⟨hversions, -, -⟩ := update_some h
  obtain ⟨u, hu, huid⟩ := hversions (row.id, .published) (by simp)
  have hurule : u.ruleId = row.ruleId := ruleId_of_publish hs hvalid hu (.inr huid)
  rw [proper_update_iff hs h]
  simp only [published_after_iff hrow, after_mirror]
  constructor
  · rintro ⟨hsingle, hmirrored⟩
    refine ⟨fun v hv hvrule hpublished => ?_, fun hread r hr hrid => ?_⟩
    · by_contra hnot
      obtain ⟨hne, hmem⟩ := not_or.mp hnot
      exact hne ((hsingle v hv u hu (hvrule.trans hurule.symm) (.inr ⟨hmem, hpublished⟩)
        (.inl huid)).trans huid)
    · have hthere := (hmirrored r hr).mpr
        ⟨u, hu, by rw [hurule, hrid, hrule], .inl huid⟩
      rwa [if_neg fun hboth => hboth.1 hread] at hthere
  · intro hfits
    refine ⟨fun v hv w hw hsame hv' hw' => single_of_fits hs hvalid hfits hv hw hsame hv' hw',
      fun r hr => ?_⟩
    by_cases hrid : r.id = row.ruleId
    · refine iff_of_true ?_ ⟨u, hu, hurule.trans hrid.symm, .inl huid⟩
      by_cases hpublished : rule.lifecycle = .published
      · rw [if_neg fun hboth => hboth.1 hpublished]
        exact hfits.2 hpublished r hr (hrid.trans hrule.symm)
      · rw [if_pos ⟨hpublished, hrid.trans hrule.symm⟩]
    · rw [if_neg fun hboth => hrid (hboth.2.trans hrule), hs.proper.mirrored r hr]
      refine exists_congr fun v => and_congr_right fun hv => and_congr_right fun hvrule => ?_
      have hfar : ¬ (v.id ∈ superseded.map (·.id) ∨ v.id = row.id) :=
        fun hnear => hrid (hvrule ▸ ruleId_of_publish hs hvalid hv hnear)
      obtain ⟨hmem, hid⟩ := not_or.mp hfar
      exact ⟨fun hpublished => .inr ⟨hmem, hpublished⟩, fun hnow => (hnow.resolve_left hid).2⟩

end Publish

/-- A retirement that sets the rule to retired is proper exactly if no other version of the rule is
published. -/
theorem proper_retire_mirrored (howner : setup.owner row.id = row.ruleId)
    (hrule : rule.id = row.ruleId)
    (h : t.update [(row.id, .retired)] [(rule.id, .retired)] = some t') :
    Proper t' ↔ ∀ v ∈ t.versions, v.ruleId = row.ruleId → v.lifecycle = .published →
      v.id = row.id := by
  obtain ⟨-, hrules, -⟩ := update_some h
  obtain ⟨r, hr, hrid⟩ := hrules (rule.id, .retired) mem_cons_self
  have hafter : ∀ v : VersionRow, after [(row.id, .retired)] v.id v.lifecycle = .published ↔
      v.id ≠ row.id ∧ v.lifecycle = .published := by
    intro v
    rw [after_singleton]
    by_cases hid : v.id = row.id <;> simp [hid]
  rw [proper_update_iff hs h]
  simp only [hafter]
  simp only [after_singleton]
  constructor
  · rintro ⟨-, hmirrored⟩ v hv hvrule hpublished
    by_contra hne
    have hthere := (hmirrored r hr).mpr
      ⟨v, hv, by rw [hvrule, hrid, hrule], hne, hpublished⟩
    rw [if_pos hrid] at hthere
    cases hthere
  · intro honly
    refine ⟨fun v hv w hw hsame hv' hw' => hs.proper.single v hv w hw hsame hv'.2 hw'.2,
      fun r hr => ?_⟩
    by_cases hrid : r.id = rule.id
    · refine iff_of_false (by simp [hrid]) ?_
      rintro ⟨v, hv, hvrule, hne, hpublished⟩
      exact hne (honly v hv (by rw [hvrule, hrid, hrule]) hpublished)
    · rw [if_neg hrid, hs.proper.mirrored r hr]
      refine exists_congr fun v => and_congr_right fun hv => and_congr_right fun hvrule => ?_
      have hne : v.id ≠ row.id := by
        intro hid
        refine hrid ?_
        rw [← hvrule, ← hs.drawn v hv, hid, howner, hrule]
      exact ⟨fun hpublished => ⟨hne, hpublished⟩, And.right⟩

theorem proper_retire {rule : Option RuleRow} (hvalid : (Commit.retire row rule).Valid setup)
    (h : (Commit.retire row rule).apply setup t = some t') :
    Proper t' ↔ (Commit.retire row rule).Fits setup t := by
  obtain ⟨howner, hrule⟩ := hvalid
  by_cases hwritten : ∃ r ∈ rule, r.lifecycle ≠ .retired
  · obtain ⟨r, rfl, hread⟩ := hwritten
    have hmirror : (some r).toList.flatMap (mirror · .retired) = [(r.id, .retired)] := by
      simp [mirror, hread]
    rw [Commit.apply, hmirror] at h
    rw [proper_retire_mirrored hs howner (hrule r rfl) h]
    refine ⟨fun honly => ⟨fun _ => honly, fun hall => absurd (hall r rfl) hread⟩,
      fun hfits => hfits.1 ⟨r, rfl, hread⟩⟩
  · have hall : ∀ r ∈ rule, r.lifecycle = .retired := by
      intro r hr
      by_contra hread
      exact hwritten ⟨r, hr, hread⟩
    have hmirror : rule.toList.flatMap (mirror · .retired) = [] := by
      cases rule with
      | none => rfl
      | some r => simp [mirror, hall r rfl]
    rw [Commit.apply, hmirror] at h
    rw [proper_unpublished hs (by decide) h]
    exact ⟨fun hnone => ⟨fun hread => absurd hread hwritten, fun _ => hnone⟩,
      fun hfits => hfits.2 hall⟩

theorem sound_deleteDraft (h : (Commit.deleteDraft row).apply setup t = some t')
    (hnone : (Commit.deleteDraft row).Fits setup t) : t'.Sound setup := by
  cases h
  have hsound := hs.filter (fun _ => true) (·.id ≠ row.id)
    (fun _ _ v hv _ hlive => by simpa using fun hid => hnone v hv hid hlive) fun _ _ _ _ => rfl
  rwa [filter_true] at hsound

theorem proper_deleteDraft (h : (Commit.deleteDraft row).apply setup t = some t') :
    Proper t' ↔ (Commit.deleteDraft row).Fits setup t := by
  refine ⟨fun hproper v hv hid hpublished => ?_, fun hnone => (sound_deleteDraft hs h hnone).proper⟩
  cases h
  refine absurd hproper (not_proper_of_lost hs hv hpublished (Subset.refl _)
    fun w hw _ hw' => ?_)
  obtain ⟨hw, hne⟩ := mem_filter.mp hw
  exact ⟨w, hw, rfl, hw', by simpa [hid] using hne⟩

theorem sound_deleteRule (h : (Commit.deleteRule ruleId).apply setup t = some t') :
    t'.Sound setup := by
  cases h
  exact hs.filter _ _ (fun r hkeep v _ hrule _ => by simpa [hrule] using hkeep)
    fun v hkeep r hrid => by simpa [hrid] using hkeep

/-- **An edit keeps the contents of other versions than drafts exactly if it finds a draft**, or
changes nothing. -/
theorem editDraft_iff (h : (Commit.editDraft row content).apply setup t = some t') :
    t'.Sound setup ∧
      (Frozen setup t t' ↔ (Commit.editDraft row content).Fits setup t) := by
  rw [Commit.apply] at h
  split at h
  next hsame =>
    obtain ⟨hconditions, hactions⟩ := (Bool.and_eq_true _ _).mp hsame
    cases h
    refine ⟨hs, iff_of_true (.of_subset hs (Subset.refl _)) fun v hv hid => ?_⟩
    rw [VersionRow.edited, if_pos hconditions, if_pos hactions]
    exact .inr (changed_self _)
  · split at h
    · cases h
    · cases h
      have hkept : (fun v : VersionRow => if v.id = row.id then v.edited row.content content else v)
          = fun v => { v with content :=
              if v.id = row.id then (v.edited row.content content).content else v.content } := by
        funext v
        split <;> rfl
      rw [hkept]
      refine ⟨hs.map_content _, fun hfrozen v hv hid => ?_, fun hfits v hv hnot w hw hid => ?_⟩
      · by_cases hdraft : v.lifecycle = .draft
        · exact .inl hdraft
        · have hchanged := hfrozen v hv hdraft _ (mem_map_of_mem hv) rfl
          rw [if_pos hid] at hchanged
          exact .inr hchanged
      · obtain ⟨u, hu, rfl⟩ := mem_map.mp hw
        obtain rfl : u = v := eq_of_id hs.nodup hu hv hid
        dsimp only
        split_ifs with hrow
        · exact (hfits u hu hrow).resolve_left hnot
        · exact changed_self _

theorem createRule_sound (hvalid : setup.owner versionId = ruleId)
    (h : (Commit.createRule ruleId versionId content).apply setup t = some t') :
    t'.Sound setup ∧ Frozen setup t t' := by
  rw [Commit.apply] at h
  split_ifs at h with hfree
  obtain ⟨hrule, hversion⟩ := Bool.or_eq_false_iff.mp (Bool.eq_false_of_not_eq_true hfree)
  cases h
  refine hs.append _ rfl hvalid hversion (fun w hw hwrule => ?_)
    ⟨⟨ruleId, .draft⟩, by simp, rfl⟩ (by simp [hrule])
  obtain ⟨r, hr, hrid⟩ := hs.owned w hw
  exact absurd (hrid.trans hwrule) (hasRule_eq_false.mp hrule r hr)

theorem addVersion_sound {versionNo : ℕ} (hvalid : setup.owner versionId = ruleId)
    (h : (Commit.addVersion ruleId versionId versionNo content).apply setup t = some t') :
    t'.Sound setup ∧ Frozen setup t t' := by
  rw [Commit.apply] at h
  split_ifs at h with hfree
  obtain ⟨hfree, hno⟩ := Bool.or_eq_false_iff.mp (Bool.eq_false_of_not_eq_true hfree)
  obtain ⟨hrule, hversion⟩ := Bool.or_eq_false_iff.mp hfree
  obtain ⟨r, hr, hrid⟩ := hasRule_iff.mp (Bool.not_eq_false' .. ▸ hrule)
  have hnumber : ∀ w ∈ t.versions, w.ruleId = ruleId → w.versionNo ≠ versionNo := by
    simpa using hno
  have hsound := hs.append [] (v := ⟨versionId, ruleId, versionNo, .draft, content⟩)
    rfl hvalid hversion hnumber ⟨r, by simpa using hr, hrid⟩ (by simp)
  rw [append_nil] at hsound
  cases h
  exact hsound

theorem validate_iff (h : (Commit.validate row).apply setup t = some t') :
    Proper t' ↔ (Commit.validate row).Fits setup t := by
  rw [Commit.apply] at h
  by_cases hdraft : row.lifecycle = .draft
  · rw [if_pos hdraft] at h
    rw [proper_unpublished hs (by decide) h]
    exact ⟨fun hnone _ => hnone, fun hfits => hfits hdraft⟩
  · rw [if_neg hdraft] at h
    refine iff_of_true ((proper_update_iff hs h).mpr ?_) fun hread => absurd hread hdraft
    simp only [after_nil]
    exact ⟨hs.proper.single, hs.proper.mirrored⟩

/-- **A commit leaves sound tables and keeps the contents exactly if it overlooks nothing.** -/
theorem commit_iff {c : Commit} (hvalid : c.Valid setup) (h : c.apply setup t = some t') :
    (Proper t' ∧ Frozen setup t t' ↔ c.Fits setup t) ∧ (Proper t' → t'.Sound setup) := by
  cases c with
  | createRule ruleId versionId content =>
    obtain ⟨hsound, hfrozen⟩ := createRule_sound hs hvalid h
    exact ⟨iff_of_true ⟨hsound.proper, hfrozen⟩ trivial, fun _ => hsound⟩
  | addVersion ruleId versionId versionNo content =>
    obtain ⟨hsound, hfrozen⟩ := addVersion_sound hs hvalid h
    exact ⟨iff_of_true ⟨hsound.proper, hfrozen⟩ trivial, fun _ => hsound⟩
  | editDraft row content =>
    obtain ⟨hsound, hiff⟩ := editDraft_iff hs h
    exact ⟨(and_iff_right hsound.proper).trans hiff, fun _ => hsound⟩
  | deleteDraft row =>
    have hfrozen : Frozen setup t t' := .of_subset hs (by cases h; exact filter_subset_self _)
    have hproper := proper_deleteDraft hs h
    exact ⟨(and_iff_left hfrozen).trans hproper, fun h' => sound_deleteDraft hs h (hproper.mp h')⟩
  | validate row =>
    exact ⟨(and_iff_left (frozen_update hs h)).trans (validate_iff hs h), sound_update hs h⟩
  | publish row superseded rule =>
    exact ⟨(and_iff_left (frozen_update hs h)).trans (proper_publish hs hvalid h),
      sound_update hs h⟩
  | retire row rule =>
    exact ⟨(and_iff_left (frozen_update hs h)).trans (proper_retire hs hvalid h),
      sound_update hs h⟩
  | deleteRule ruleId =>
    have hsound := sound_deleteRule hs h
    have hfrozen : Frozen setup t t' := .of_subset hs (by cases h; exact filter_subset_self _)
    exact ⟨iff_of_true ⟨hsound.proper, hfrozen⟩ trivial, fun _ => hsound⟩

end BbzPlatform.Triggers.Admin

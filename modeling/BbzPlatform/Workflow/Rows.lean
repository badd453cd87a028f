import BbzPlatform.Workflow.Runs
import BbzPlatform.Workflow.Service

/-!
# The rows after a result is written

The service writes the engine's result on token rows, which the engine itself never
sees.  Up to the order of the rows this is what `applyResult` does to the tokens.
-/

namespace BbzPlatform.Workflow

open List

variable {ι : Type} [LinearOrder ι]

/-- The rows made for the spawned pairs: waiting, without a deadline, under new ids. -/
structure Inserted (old : List ι) (pairs : List (String × Option String))
    (rows : List (TokenRow ι)) : Prop where
  places : rows.map (fun t => (t.nodeKey, t.inboundEdgeKey)) = pairs
  waiting : ∀ t ∈ rows, t.state = .waiting
  unarmed : ∀ t ∈ rows, t.resumeAt = none
  nodup : (rows.map (·.id)).Nodup
  fresh : ∀ t ∈ rows, t.id ∉ old

/-- The rows made for the spawned pairs, given the ids in use. -/
def newRows (env : Env ι) : List ι → List (String × Option String) → List (TokenRow ι)
  | _, [] => []
  | used, p :: pairs =>
    ⟨env.fresh used, p.1, p.2, .waiting, none, env.txNow⟩
      :: newRows env (used ++ [env.fresh used]) pairs

omit [LinearOrder ι] in
theorem inserted_newRows (env : Env ι) (used : List ι) (pairs : List (String × Option String)) :
    Inserted used pairs (newRows env used pairs) := by
  induction pairs generalizing used with
  | nil => exact ⟨rfl, by simp [newRows], by simp [newRows], by simp [newRows], by simp [newRows]⟩
  | cons p pairs ih =>
    have hrest := ih (used ++ [env.fresh used])
    have hfresh : ∀ t ∈ newRows env (used ++ [env.fresh used]) pairs,
        t.id ∉ used ∧ t.id ≠ env.fresh used := by
      intro t ht
      simpa [not_or] using hrest.fresh t ht
    refine ⟨?_, ?_, ?_, ?_, ?_⟩
    · rw [newRows, map_cons, hrest.places]
    · simpa [newRows] using hrest.waiting
    · simpa [newRows] using hrest.unarmed
    · rw [newRows, map_cons, nodup_cons]
      refine ⟨fun hmem => ?_, hrest.nodup⟩
      obtain ⟨t, ht, hid⟩ := mem_map.mp hmem
      exact (hfresh t ht).2 hid
    · intro t ht
      rcases mem_cons.mp ht with rfl | ht
      · exact env.fresh_notMem _
      · exact (hfresh t ht).1

variable {r : EngineResult ι} {rows : List (TokenRow ι)} {inst : Instance ι} {env : Env ι}

/-- Setting the states of the rows is setting those of the tokens. -/
theorem kept_rows
    (hpark : ∀ row ∈ rows, row.id ∈ r.parked → row.id ∉ r.consumed ∧ row.state ≠ .consumed) :
    kept ((rows.filter (·.state ≠ .consumed)).map TokenRow.token) r
      = ((rows.map (TokenRow.restate r)).filter (·.state ≠ .consumed)).map TokenRow.token := by
  unfold kept
  induction rows with
  | nil => rfl
  | cons row rows ih =>
    have ih := ih fun row' h => hpark row' (mem_cons_of_mem _ h)
    have hhead := hpark row mem_cons_self
    by_cases hp : row.id ∈ r.parked
    · simpa [TokenRow.restate, TokenRow.token, hp, hhead hp] using ih
    · by_cases hc : row.id ∈ r.consumed
      · by_cases hs : row.state = .consumed <;>
          simpa [TokenRow.restate, TokenRow.token, hp, hc, hs] using ih
      · by_cases hs : row.state = .consumed <;>
          simpa [TokenRow.restate, TokenRow.token, hp, hc, hs] using ih

omit [LinearOrder ι] in
theorem Inserted.spawnedTokens {old : List ι} {pairs : List (String × Option String)}
    (h : Inserted old pairs rows) : Workflow.spawnedTokens (rows.map (·.id)) pairs
      = (rows.filter (·.state ≠ .consumed)).map TokenRow.token := by
  obtain ⟨rfl, hwait, -, -, -⟩ := h
  induction rows with
  | nil => rfl
  | cons row rows ih =>
    have hs := hwait row mem_cons_self
    have ih := ih fun row' h => hwait row' (mem_cons_of_mem _ h)
    simpa [Workflow.spawnedTokens, TokenRow.token, hs] using ih

namespace Instance

omit [LinearOrder ι] in
/-- Inserting rows touches nothing else. -/
theorem foldl_insertToken (inst : Instance ι) (pairs : List (String × Option String)) :
    pairs.foldl (fun i p => i.insertToken env .waiting p) inst
      = { inst with tokens := inst.tokens ++ newRows env (inst.tokens.map (·.id)) pairs } := by
  induction pairs generalizing inst with
  | nil => simp [newRows]
  | cons p pairs ih =>
    rw [foldl_cons, ih]
    simp [Instance.insertToken, newRows]

omit [LinearOrder ι] in
/-- Recording decisions touches nothing else. -/
theorem foldl_addDecision (inst : Instance ι) (made : List DecisionMade) :
    made.foldl (fun i d => i.addDecision ⟨d.connectorNodeKey, d.chosenEdgeKeys, true, none⟩) inst
      = { inst with decisions := inst.decisions ++
            made.map fun d => ⟨d.connectorNodeKey, d.chosenEdgeKeys, true, none⟩ } := by
  induction made generalizing inst with
  | nil => simp
  | cons d made ih =>
    rw [foldl_cons, ih]
    simp [Instance.addDecision]

/-- **What writing a result does**: the states of the loaded rows are set, rows are made
for the spawned tokens, the reported decisions are recorded, and a running instance
without tokens is completed. -/
theorem apply_eq (inst : Instance ι) (env : Env ι) (r : EngineResult ι) :
    inst.apply env r =
      { inst with
        tokens := inst.tokens.map (TokenRow.restate r)
          ++ newRows env (inst.tokens.map (·.id)) r.spawned
        decisions := inst.decisions ++
          r.decisions.map fun d => ⟨d.connectorNodeKey, d.chosenEdgeKeys, true, none⟩
        status := if r.completed ∧ inst.status = .running then .completed else inst.status } := by
  have hstates : (inst.setState r.consumed .consumed).setState r.parked .waiting
      = { inst with tokens := inst.tokens.map (TokenRow.restate r) } := by
    simp only [setState, map_map]
    congr 1
    refine map_congr_left fun t _ => ?_
    simp only [Function.comp_apply, TokenRow.restate]
    split_ifs <;> simp_all
  have hids : (inst.tokens.map (TokenRow.restate r)).map (·.id) = inst.tokens.map (·.id) := by
    rw [map_map]
    rfl
  simp only [apply, hstates, foldl_insertToken, foldl_addDecision, hids]
  split_ifs <;> rfl

theorem liveTokens_perm (inst : Instance ι) :
    inst.liveTokens.Perm ((inst.tokens.filter (·.state ≠ .consumed)).map TokenRow.token) :=
  (perm_insertionSort _ _).map _

theorem mem_liveTokens {t : Token ι} :
    t ∈ inst.liveTokens ↔ ∃ row ∈ inst.tokens, row.state ≠ .consumed ∧ row.token = t := by
  rw [inst.liveTokens_perm.mem_iff]
  simp [and_assoc]

theorem nodup_liveTokens (hnodup : (inst.tokens.map (·.id)).Nodup) :
    (inst.liveTokens.map (·.id)).Nodup := by
  rw [(inst.liveTokens_perm.map _).nodup_iff, map_map]
  exact hnodup.sublist (filter_sublist.map _)

/-- **Writing a result on the rows is writing it on the tokens.** -/
theorem applyResult_perm {g : DerivedGraph} {c : Call ι} (env : Env ι)
    (hnodup : (inst.tokens.map (·.id)).Nodup)
    (htok : c.tokens = inst.liveTokens) (hr : c.outcome g = .ok r) :
    ∃ ids, FreshIds ids c.tokens r ∧
      (applyResult ids c.tokens r).Perm (inst.apply env r).liveTokens := by
  have hnew := inserted_newRows env (inst.tokens.map (·.id)) r.spawned
  obtain ⟨hcons, hpark, hdisj⟩ := Call.reported_ids (htok ▸ nodup_liveTokens hnodup) hr
  have hids : ∀ i ∈ c.tokens.map (·.id), i ∈ inst.tokens.map (·.id) := by
    intro i hi
    obtain ⟨t, ht, rfl⟩ := mem_map.mp hi
    obtain ⟨row, hrow, -, rfl⟩ := mem_liveTokens.mp (htok ▸ ht)
    exact mem_map_of_mem hrow
  -- a consumed row is not among the tokens, so its state is not touched
  have hdead : ∀ row ∈ inst.tokens, row.state = .consumed → row.id ∉ c.tokens.map (·.id) := by
    intro row hrow hs hmem
    obtain ⟨t, ht, hid⟩ := mem_map.mp hmem
    obtain ⟨row', hrow', hs', rfl⟩ := mem_liveTokens.mp (htok ▸ ht)
    exact hs' (inj_on_of_nodup_map hnodup hrow' hrow hid ▸ hs)
  refine ⟨_, ⟨?_, hnew.nodup, ?_⟩, ?_⟩
  · rw [length_map, ← length_map (fun t => (t.nodeKey, t.inboundEdgeKey)), hnew.places]
  · intro i hi hmem
    obtain ⟨row, hrow, rfl⟩ := mem_map.mp hi
    exact hnew.fresh row hrow (hids _ hmem)
  · refine Perm.trans ?_ (liveTokens_perm _).symm
    have hkept : (kept c.tokens r).Perm
        (((inst.tokens.map (TokenRow.restate r)).filter (·.state ≠ .consumed)).map
          TokenRow.token) := by
      refine (((htok ▸ inst.liveTokens_perm).filter _).map _).trans (.of_eq (kept_rows ?_))
      intro row hrow hp
      exact ⟨fun hc => hdisj hc hp, fun hs => hdead row hrow hs (hpark hp)⟩
    rw [apply_eq, applyResult, hnew.spawnedTokens, filter_append, map_append]
    exact hkept.append_right _

end Instance

end BbzPlatform.Workflow

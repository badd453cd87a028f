import BbzPlatform.Events.Notes
import Mathlib.Data.List.Chain

/-!
# Note threads are linear

The versions of a thread stand in the table in the order in which they were written, because an
edit appends and always succeeds the current version.  `Threaded` says so for every thread of the
table; a new note starts a thread of its own and an edit makes one thread longer by one.

A reader sorts and groups the rows.  Sorting by version puts the versions of a thread back in the
order in which they stand in the table, whatever the order in which the rows arrive.
-/

namespace BbzPlatform.Events

open List

/-- The versions of a thread, in the order of the table. -/
def thread (table : List NoteRow) (root : String) : List NoteRow := table.filter (·.root = root)

/-- **A linear thread**: it starts at its root, the versions are numbered from one, each names its
successor, and the last one is the only one without. -/
structure Linear (root : String) (rows : List NoteRow) : Prop where
  first : rows.head?.map NoteRow.id = some root
  numbered : rows.map NoteRow.version = range' 1 rows.length
  linked : rows.IsChain fun a b => a.supersededById = some b.id
  current : ∃ earlier current, rows = earlier ++ [current] ∧ current.supersededById = none ∧
    ∀ row ∈ earlier, row.supersededById ≠ none

def NoteRow.written (row : NoteRow) : Written := ⟨row.id, row.root, row.body⟩

/-- The invariant of the table, and of what was written. -/
structure Threaded (s : Notes) : Prop where
  ids : (s.table.map NoteRow.id).Nodup
  roots : ∀ row ∈ s.table, ∀ root, row.threadId = some root →
    ∃ first ∈ s.table, first.id = root ∧ first.threadId = none
  events : ∀ row ∈ s.table, ∀ row' ∈ s.table, row.root = row'.root → row.eventId = row'.eventId
  linear : ∀ row ∈ s.table, Linear row.root (thread s.table row.root)
  ledger : s.table.map NoteRow.written = s.written

/-! ## What the requests do -/

variable {row row' referenced old : NoteRow} {table table' rows earlier versions : List NoteRow}
  {eventExists : String → Bool} {eventId root body userId newId oldId : String} {s : Notes}
  {supply : Supply}

theorem insertNote_ok (h : insertNote table row = .ok table') :
    row.id ∉ table.map NoteRow.id ∧ table' = table ++ [row] := by
  unfold insertNote at h
  split_ifs at h with hnew
  cases h
  exact ⟨hnew, rfl⟩

theorem addNote_ok {kind : EventNoteKind}
    (h : addNote eventExists table supply eventId kind body userId = .ok (row, table')) :
    row.id ∉ table.map NoteRow.id ∧ table' = table ++ [row] ∧ row.threadId = none ∧
      row.version = 1 ∧ row.supersededById = none ∧
      row.written = ⟨supply.newId, supply.newId, strip body⟩ := by
  revert h
  fun_cases addNote eventExists table supply eventId kind body userId <;> intro h <;> try cases h
  next hinsert =>
    obtain ⟨rfl, rfl⟩ := Prod.mk.inj (Except.ok.inj h)
    obtain ⟨hnew, htable⟩ := insertNote_ok hinsert
    exact ⟨hnew, htable, rfl, rfl, rfl, rfl⟩

/-- An edit succeeds the current version of the thread of the version it names, with the text of the
request. -/
theorem editNote_ok {noteId : String}
    (h : editNote eventExists table supply eventId noteId body userId = .ok (row, table')) :
    ∃ referenced, table.find? (·.id = noteId) = some referenced ∧
      ∃ old, currentRows table referenced.eventId referenced.root = [old] ∧
      row.id ∉ table.map NoteRow.id ∧ table' = (table ++ [row]).map (supersede old.id row.id) ∧
      row.eventId = referenced.eventId ∧ row.threadId = some referenced.root ∧
      row.version = old.version + 1 ∧ row.supersededById = none ∧
      row.written = ⟨supply.newId, referenced.root, strip body⟩ := by
  revert h
  fun_cases editNote eventExists table supply eventId noteId body userId <;> intro h <;> try cases h
  next referenced hfind hevent old hold _ _ _ hinsert =>
    obtain ⟨rfl, rfl⟩ := Prod.mk.inj (Except.ok.inj h)
    obtain rfl := not_not.mp hevent
    obtain ⟨hnew, rfl⟩ := insertNote_ok hinsert
    exact ⟨referenced, hfind, old, hold, hnew, rfl, rfl, rfl, rfl, rfl, rfl⟩

/-! ## Threads of a changed table -/

theorem mem_thread : row ∈ thread table root ↔ row ∈ table ∧ row.root = root := by
  simp [thread]

theorem thread_append (table : List NoteRow) (row : NoteRow) (root : String) :
    thread (table ++ [row]) root =
      thread table root ++ if row.root = root then [row] else [] := by
  by_cases h : row.root = root <;> simp [thread, h]

theorem thread_map (table : List NoteRow) {f : NoteRow → NoteRow}
    (hf : ∀ row, (f row).root = row.root) (root : String) :
    thread (table.map f) root = (thread table root).map f := by
  simp only [thread, filter_map]
  congr 2
  funext row
  simp [hf]

@[simp] theorem supersede_id (id newId : String) (row : NoteRow) :
    (supersede id newId row).id = row.id := by
  unfold supersede
  split <;> rfl

@[simp] theorem supersede_threadId (id newId : String) (row : NoteRow) :
    (supersede id newId row).threadId = row.threadId := by
  unfold supersede
  split <;> rfl

@[simp] theorem supersede_eventId (id newId : String) (row : NoteRow) :
    (supersede id newId row).eventId = row.eventId := by
  unfold supersede
  split <;> rfl

@[simp] theorem supersede_body (id newId : String) (row : NoteRow) :
    (supersede id newId row).body = row.body := by
  unfold supersede
  split <;> rfl

@[simp] theorem supersede_root (id newId : String) (row : NoteRow) :
    (supersede id newId row).root = row.root := by
  simp [NoteRow.root]

theorem supersede_of_ne {id : String} (h : row.id ≠ id) : supersede id newId row = row := if_neg h

/-- The other threads do not change. -/
theorem map_supersede_eq {id : String} (h : ∀ row ∈ rows, row.id ≠ id) :
    rows.map (supersede id newId) = rows := by
  rw [map_congr_left fun row hrow => supersede_of_ne (h row hrow), map_id']

theorem map_written_supersede (table : List NoteRow) (id newId : String) :
    (table.map (supersede id newId)).map NoteRow.written = table.map NoteRow.written := by
  rw [map_map]
  exact map_congr_left fun row _ => by simp [NoteRow.written]

namespace Threaded

theorem empty : Threaded ⟨[], []⟩ where
  ids := nodup_nil
  roots := fun _ h => by cases h
  events := fun _ h => by cases h
  linear := fun _ h => by cases h
  ledger := rfl

section

variable (h : Threaded s) (hrow : row ∈ s.table)
include h hrow

theorem exists_first :
    ∃ first ∈ s.table, first.id = row.root ∧ first.threadId = none := by
  cases hthread : row.threadId with
  | none => exact ⟨row, hrow, by simp [NoteRow.root, hthread], hthread⟩
  | some root =>
    obtain ⟨first, hfirst, hid, hnone⟩ := h.roots row hrow root hthread
    exact ⟨first, hfirst, by simp [NoteRow.root, hthread, hid], hnone⟩

theorem eq_of_id (hrow' : row' ∈ s.table)
    (hid : row.id = row'.id) : row = row' :=
  inj_on_of_nodup_map h.ids hrow hrow' hid

/-- The condition of `edit_note` selects the thread. -/
theorem selects_iff (hreferenced : referenced ∈ s.table) :
    row.id = referenced.root ∨ row.threadId = some referenced.root ↔
      row.root = referenced.root := by
  constructor
  · rintro (hid | hthread)
    · obtain ⟨first, hfirst, hroot, hnone⟩ := h.exists_first hreferenced
      have heq := h.eq_of_id hrow hfirst (hid.trans hroot.symm)
      rw [NoteRow.root, heq, hnone, Option.getD_none, hroot]
    · rw [NoteRow.root, hthread, Option.getD_some]
  · intro hroot
    cases hthread : row.threadId with
    | none => exact .inl (by rw [← hroot, NoteRow.root, hthread, Option.getD_none])
    | some root => exact .inr (by rw [← hroot, NoteRow.root, hthread, Option.getD_some])

end

/-- **A new note starts a thread.** -/
theorem add (h : Threaded s) (hnew : row.id ∉ s.table.map NoteRow.id)
    (hthread : row.threadId = none) (hversion : row.version = 1)
    (hcurrent : row.supersededById = none) :
    Threaded ⟨s.table ++ [row], s.written ++ [row.written]⟩ := by
  have hroot : row.root = row.id := by rw [NoteRow.root, hthread, Option.getD_none]
  have hother : ∀ row' ∈ s.table, row.root ≠ row'.root := by
    intro row' hrow' heq
    obtain ⟨first, hfirst, hid, -⟩ := h.exists_first hrow'
    exact hnew (mem_map.mpr ⟨first, hfirst, by rw [hid, ← heq, hroot]⟩)
  refine ⟨?_, fun row' hrow' root hroot' => ?_, fun a ha b hb heq => ?_, fun row' hrow' => ?_, ?_⟩
  · rw [map_append]
    exact h.ids.append (nodup_singleton _) (disjoint_singleton.mpr hnew)
  · rcases mem_append.mp hrow' with hold | hadded
    · obtain ⟨first, hfirst, hid⟩ := h.roots row' hold root hroot'
      exact ⟨first, mem_append_left _ hfirst, hid⟩
    · rw [mem_singleton.mp hadded, hthread] at hroot'
      cases hroot'
  · rcases mem_append.mp ha with ha | ha <;> rcases mem_append.mp hb with hb | hb
    · exact h.events a ha b hb heq
    · exact absurd (mem_singleton.mp hb ▸ heq.symm) (hother a ha)
    · exact absurd (mem_singleton.mp ha ▸ heq) (hother b hb)
    · rw [mem_singleton.mp ha, mem_singleton.mp hb]
  · rw [thread_append]
    rcases mem_append.mp hrow' with hold | hadded
    · rw [if_neg (hother row' hold), append_nil]
      exact h.linear row' hold
    · have hnone : thread s.table row.root = [] := by
        rw [eq_nil_iff_forall_not_mem]
        intro a ha
        exact hother a (mem_thread.mp ha).1 (mem_thread.mp ha).2.symm
      rw [mem_singleton.mp hadded, if_pos rfl, hnone, nil_append]
      refine ⟨by rw [hroot]; rfl, by simp [hversion], isChain_singleton _, [], row, rfl,
        hcurrent, fun _ hmem => by cases hmem⟩
  · rw [map_append, h.ledger, map_singleton]

end Threaded

/-- A version longer. -/
theorem Linear.extend
    (h : Linear root (earlier ++ [old])) (hearlier : ∀ row ∈ earlier, row.supersededById ≠ none)
    (hversion : row.version = old.version + 1) (hcurrent : row.supersededById = none) :
    Linear root (earlier ++ [{ old with supersededById := some row.id }] ++ [row]) := by
  obtain ⟨hchain, -, hlast⟩ := isChain_append.mp h.linked
  refine ⟨?_, ?_, ?_, earlier ++ [{ old with supersededById := some row.id }], row, rfl, hcurrent,
    fun row' hrow' => ?_⟩
  · have hfirst := h.first
    cases earlier <;> exact hfirst
  · have hnumbered := h.numbered
    rw [map_append, length_append, length_singleton, range'_concat] at hnumbered
    obtain ⟨hinit, hold⟩ := append_inj' hnumbered rfl
    have hold : old.version = 1 + 1 * earlier.length := singleton_inj.mp hold
    rw [map_append, map_append, length_append, length_append,
      length_singleton, length_singleton, range'_concat, range'_concat, hinit]
    simp only [map_cons, map_nil, hversion, hold]
    rfl
  · refine isChain_append.mpr ⟨isChain_append.mpr ⟨hchain, isChain_singleton _, ?_⟩,
      isChain_singleton _, ?_⟩
    · intro a ha b hb
      cases hb
      exact hlast a ha old rfl
    · intro a ha b hb
      rw [getLast?_concat] at ha
      cases ha
      cases hb
      rfl
  · exact forall_mem_append.mpr
      ⟨hearlier, forall_mem_singleton.mpr (Option.some_ne_none _)⟩ row' hrow'

namespace Threaded

/-- What an edit selects is the last version of the thread. -/
theorem thread_eq (h : Threaded s) (hreferenced : referenced ∈ s.table)
    (hold : currentRows s.table referenced.eventId referenced.root = [old]) :
    old ∈ s.table ∧ old.root = referenced.root ∧ ∃ earlier,
      thread s.table referenced.root = earlier ++ [old] ∧
        ∀ row ∈ earlier, row.supersededById ≠ none := by
  have hmem : old ∈ currentRows s.table referenced.eventId referenced.root := by simp [hold]
  obtain ⟨hin, hcond⟩ := mem_filter.mp hmem
  obtain ⟨-, hcurrent, hselects⟩ := of_decide_eq_true hcond
  have hroot := (h.selects_iff hin hreferenced).mp hselects
  obtain ⟨earlier, current, hthread, -, hearlier⟩ := (h.linear referenced hreferenced).current
  have hcases : old ∈ earlier ++ [current] := hthread ▸ mem_thread.mpr ⟨hin, hroot⟩
  rcases mem_append.mp hcases with hmem | hmem
  · exact absurd hcurrent (hearlier old hmem)
  · cases mem_singleton.mp hmem
    exact ⟨hin, hroot, earlier, hthread, hearlier⟩

theorem thread_supersede (h : Threaded s)
    (hrows : thread s.table root = earlier ++ [old]) (newId : String) :
    thread (s.table.map (supersede old.id newId)) root =
      earlier ++ [{ old with supersededById := some newId }] := by
  have hids : ((earlier ++ [old]).map NoteRow.id).Nodup :=
    hrows ▸ h.ids.sublist (filter_sublist.map NoteRow.id)
  have hne : ∀ row' ∈ earlier, row'.id ≠ old.id := by
    intro row' hrow' heq
    rw [map_append, nodup_append] at hids
    exact hids.2.2 _ (mem_map_of_mem hrow') _ (mem_singleton_self _) heq
  rw [thread_map _ (supersede_root _ _), hrows, map_append, map_supersede_eq hne,
    map_singleton, supersede, if_pos rfl]

theorem mem_edited (h : row' ∈ table.map (supersede oldId row.id) ++ [row]) :
    (∃ row₀ ∈ table, row' = supersede oldId row.id row₀) ∨ row' = row := by
  rcases mem_append.mp h with h | h
  · obtain ⟨row₀, hrow₀, rfl⟩ := mem_map.mp h
    exact .inl ⟨row₀, hrow₀, rfl⟩
  · exact .inr (mem_singleton.mp h)

theorem origin_of_edited
    (hreferenced : referenced ∈ table) (hevent : row.eventId = referenced.eventId)
    (hroot : row.root = referenced.root) (h : row' ∈ table.map (supersede oldId row.id) ++ [row]) :
    ∃ row₀ ∈ table, row'.root = row₀.root ∧ row'.eventId = row₀.eventId := by
  rcases mem_edited h with ⟨row₀, hrow₀, rfl⟩ | rfl
  · exact ⟨row₀, hrow₀, by simp, by simp⟩
  · exact ⟨referenced, hreferenced, hroot, hevent⟩

theorem map_id_supersede (table : List NoteRow) (id newId : String) :
    (table.map (supersede id newId)).map NoteRow.id = table.map NoteRow.id := by
  rw [map_map]
  exact map_congr_left fun row _ => by simp

/-- **An edit makes its thread longer by one version.** -/
theorem edit (h : Threaded s) (hreferenced : referenced ∈ s.table)
    (hold : currentRows s.table referenced.eventId referenced.root = [old])
    (hnew : row.id ∉ s.table.map NoteRow.id) (hevent : row.eventId = referenced.eventId)
    (hthread : row.threadId = some referenced.root) (hversion : row.version = old.version + 1)
    (hcurrent : row.supersededById = none) :
    Threaded ⟨(s.table ++ [row]).map (supersede old.id row.id), s.written ++ [row.written]⟩ := by
  obtain ⟨hin, hroot, earlier, hrows, hearlier⟩ := h.thread_eq hreferenced hold
  have hrowroot : row.root = referenced.root := by rw [NoteRow.root, hthread, Option.getD_some]
  have hself : supersede old.id row.id row = row :=
    supersede_of_ne fun heq => hnew (mem_map.mpr ⟨old, hin, heq.symm⟩)
  have htable : (s.table ++ [row]).map (supersede old.id row.id) =
      s.table.map (supersede old.id row.id) ++ [row] := by
    rw [map_append, map_singleton, hself]
  rw [htable]
  refine ⟨?_, fun row' hrow' root hroot' => ?_, fun a ha b hb heq => ?_, fun row' hrow' => ?_, ?_⟩
  · rw [map_append, map_id_supersede]
    exact h.ids.append (nodup_singleton _) (disjoint_singleton.mpr hnew)
  · have hfirst : ∃ first ∈ s.table, first.id = root ∧ first.threadId = none := by
      rcases mem_edited hrow' with ⟨row₀, hrow₀, rfl⟩ | rfl
      · exact h.roots row₀ hrow₀ root (by simpa using hroot')
      · rw [hthread] at hroot'
        cases hroot'
        exact h.exists_first hreferenced
    obtain ⟨first, hfirst, hid, hnone⟩ := hfirst
    exact ⟨supersede old.id row.id first, mem_append_left _ (mem_map_of_mem hfirst),
      by simp [hid], by simp [hnone]⟩
  · obtain ⟨a₀, ha₀, haroot, haevent⟩ := origin_of_edited hreferenced hevent hrowroot ha
    obtain ⟨b₀, hb₀, hbroot, hbevent⟩ := origin_of_edited hreferenced hevent hrowroot hb
    rw [haevent, hbevent]
    exact h.events a₀ ha₀ b₀ hb₀ (by rw [← haroot, ← hbroot, heq])
  · -- the thread of the edited note is longer by the row, the others are as before
    obtain ⟨row₀, hrow₀, heq, -⟩ := origin_of_edited hreferenced hevent hrowroot hrow'
    rw [heq, thread_append, hrowroot]
    by_cases hsame : row₀.root = referenced.root
    · rw [hsame, if_pos rfl, h.thread_supersede hrows]
      exact (hrows ▸ h.linear referenced hreferenced).extend hearlier hversion hcurrent
    · rw [if_neg (Ne.symm hsame), append_nil, thread_map _ (supersede_root _ _),
        map_supersede_eq]
      · exact h.linear row₀ hrow₀
      · intro row' hrow' hid
        obtain ⟨htable', hroot'⟩ := mem_thread.mp hrow'
        exact hsame (hroot'.symm.trans (h.eq_of_id htable' hin hid ▸ hroot))
  · rw [map_append, map_written_supersede, h.ledger, map_singleton]

/-- The thread that the record has for a version is that of its row. -/
theorem find_written (h : Threaded s) {noteId : String}
    (hfind : s.table.find? (·.id = noteId) = some referenced) :
    (s.written.find? (·.id = noteId)).map Written.root = some referenced.root := by
  rw [← h.ledger, find?_map]
  exact congrArg (Option.map Written.root ∘ Option.map NoteRow.written) hfind

/-- The rows of a thread hold what was written to it. -/
theorem bodies_eq (h : Threaded s) (root : String) :
    (thread s.table root).map NoteRow.body = s.bodies root := by
  rw [Notes.bodies, ← h.ledger, filter_map, map_map]
  rfl

end Threaded

/-! ## Reading -/

instance : Std.Total fun a b : NoteRow => a.version ≤ b.version :=
  ⟨fun a b => le_total a.version b.version⟩

instance : IsTrans NoteRow fun a b => a.version ≤ b.version :=
  ⟨fun _ _ _ => le_trans⟩

theorem Linear.sort_eq (h : Linear root rows) (hperm : versions.Perm rows) :
    versions.insertionSort (fun a b => a.version ≤ b.version) = rows := by
  refine Grouping.eq_of_sorted_of_perm ((perm_insertionSort _ _).trans hperm)
    (pairwise_insertionSort _ _) ?_
  have hstrict : (rows.map NoteRow.version).Pairwise (· < ·) :=
    h.numbered ▸ pairwise_lt_range'
  exact pairwise_map.mp hstrict

/-- **The thread that is shown**: the newest version as the current one, and the others, in order,
as its history. -/
theorem Linear.toThread_eq (h : Linear root rows) (hperm : versions.Perm rows) :
    ∃ t earlier current, toThread versions = some t ∧ t.threadId = root ∧
      rows = earlier ++ [current] ∧ t.id = current.id ∧ t.body = current.body ∧
      t.version = current.version ∧ t.history = earlier.map NoteRow.toVersion := by
  obtain ⟨earlier, current, hrows, hcurrent, hearlier⟩ := h.current
  have hfind : rows.find? (·.supersededById = none) = some current := by
    rw [hrows, find?_append, find?_eq_none.mpr (by simpa using hearlier)]
    simp [hcurrent]
  have hfilter : rows.filter (·.supersededById ≠ none) = earlier := by
    rw [hrows, filter_append, filter_eq_self.mpr (by simpa using hearlier)]
    simp [hcurrent]
  have hfirst := h.first
  unfold toThread
  rw [h.sort_eq hperm]
  cases hcons : rows with
  | nil =>
    rw [hcons] at hfirst
    cases hfirst
  | cons first rest =>
    rw [hcons] at hfirst hfind hfilter
    refine ⟨_, earlier, current, rfl, Option.some.inj hfirst, hcons ▸ hrows, ?_, ?_, ?_, ?_⟩
    · simp [hfind]
    · simp [hfind]
    · simp [hfind]
    · simp only [hfilter]

theorem Threaded.perm_of_mem_group (h : Threaded s)
    (hperm : rows.Perm (s.table.filter (·.eventId = eventId))) {g : String × List NoteRow}
    (hg : g ∈ Grouping.group NoteRow.root rows) :
    Linear g.1 (thread s.table g.1) ∧ g.2.Perm (thread s.table g.1) := by
  obtain ⟨row, hrow, hroot⟩ := Grouping.mem_keys_group.mp (mem_map_of_mem hg)
  obtain ⟨hin, hevent⟩ := mem_filter.mp (hperm.subset hrow)
  refine ⟨hroot ▸ h.linear row hin, ?_⟩
  rw [Grouping.eq_of_mem_group hg]
  refine (hperm.filter _).trans (Perm.of_eq ?_)
  -- the other versions of the thread belong to the same event
  rw [filter_filter, thread]
  refine filter_congr fun row' hrow' => ?_
  by_cases hsame : row'.root = g.1
  · have hevent' := h.events row' hrow' row hin (hsame.trans hroot.symm)
    simp [hsame, hevent', of_decide_eq_true hevent]
  · simp [hsame]

/-- What is shown of an event: one thread for every root of its rows, each of them whole. -/
theorem Threaded.noteThreads_spec (h : Threaded s) (eventId : String) :
    ((noteThreads s.table eventId).map NoteThread.threadId).Nodup ∧
      (∀ root, root ∈ (noteThreads s.table eventId).map NoteThread.threadId ↔
        ∃ row ∈ s.table, row.eventId = eventId ∧ row.root = root) ∧
      ∀ t ∈ noteThreads s.table eventId, ∃ earlier current,
        thread s.table t.threadId = earlier ++ [current] ∧ t.id = current.id ∧
          t.body = current.body ∧ t.version = current.version ∧
          t.history = earlier.map NoteRow.toVersion := by
  unfold noteThreads
  generalize hrows : (s.table.filter (·.eventId = eventId)).insertionSort (fun a b =>
    a.version < b.version ∨ a.version = b.version ∧ a.createdAt ≤ b.createdAt) = rows
  have hperm : rows.Perm (s.table.filter (·.eventId = eventId)) :=
    hrows ▸ perm_insertionSort _ _
  dsimp only
  generalize hthreads : (Grouping.group NoteRow.root rows).filterMap (fun g => toThread g.2) =
    threads
  have hsorted := perm_insertionSort (fun a b : NoteThread => a.createdAt ≤ b.createdAt) threads
  have hkeys : threads.map NoteThread.threadId =
      (Grouping.group NoteRow.root rows).map Prod.fst := by
    rw [← hthreads, map_filterMap, ← filterMap_eq_map]
    refine filterMap_congr fun g hg => ?_
    obtain ⟨hlinear, hg⟩ := h.perm_of_mem_group hperm hg
    obtain ⟨t, -, -, ht, hroot, -⟩ := hlinear.toThread_eq hg
    rw [ht, Option.map_some, hroot]
    rfl
  refine ⟨?_, fun root => ?_, fun t ht => ?_⟩
  · rw [(hsorted.map _).nodup_iff, hkeys]
    exact Grouping.nodup_group _ _
  · rw [(hsorted.map _).mem_iff, hkeys, Grouping.mem_keys_group]
    refine exists_congr fun row => ?_
    rw [hperm.mem_iff, mem_filter, decide_eq_true_iff, and_assoc]
  · rw [hsorted.mem_iff, ← hthreads, mem_filterMap] at ht
    obtain ⟨g, hg, ht⟩ := ht
    obtain ⟨hlinear, hg⟩ := h.perm_of_mem_group hperm hg
    obtain ⟨t', earlier, current, ht', hroot, hspec⟩ := hlinear.toThread_eq hg
    cases ht.symm.trans ht'
    exact ⟨earlier, current, hroot ▸ hspec⟩

/-! ## Runs -/

/-- **Every request keeps the threads**, and a successful one adds what it asked for. -/
theorem Threaded.step (h : Threaded s) (eventExists : String → Bool) (input : NoteInput) :
    Threaded (s.step eventExists input) := by
  obtain ⟨request, supply, aborted⟩ := input
  rw [Notes.step]
  cases htransact : Notes.transact eventExists s.table ⟨request, supply, aborted⟩ with
  | error e => exact h
  | ok result =>
    obtain ⟨row, table⟩ := result
    rw [Notes.transact] at htransact
    split_ifs at htransact
    cases request with
    | add eventId kind body userId =>
      obtain ⟨hnew, rfl, hthread, hversion, hcurrent, hwritten⟩ := addNote_ok htransact
      have hstep := h.add hnew hthread hversion hcurrent
      rwa [hwritten] at hstep
    | edit eventId noteId body userId =>
      obtain ⟨referenced, hfind, old, hold, hnew, rfl, hevent, hthread, hversion, hcurrent,
        hwritten⟩ := editNote_ok htransact
      have hstep := h.edit (mem_of_find?_eq_some hfind) hold hnew hevent hthread hversion hcurrent
      simpa only [NoteInput.toWrite, h.find_written hfind, Option.getD_some, hwritten] using hstep

theorem Threaded.foldl (h : Threaded s) (eventExists : String → Bool) (inputs : List NoteInput) :
    Threaded (inputs.foldl (Notes.step eventExists) s) := by
  induction inputs generalizing s with
  | nil => exact h
  | cons input inputs ih => exact ih (h.step eventExists input)

/-- **Note threads stay linear and lose nothing.**  After any requests every thread of the table is
linear and holds the texts that the successful requests asked to write to it, in order.  The threads
shown for an event are those of its rows, each once: the newest version as the current one and the
others, in order, as its history. -/
theorem notes_linear (eventExists : String → Bool) (inputs : List NoteInput) :
    (∀ row ∈ (Notes.run eventExists inputs).table,
      Linear row.root (thread (Notes.run eventExists inputs).table row.root)) ∧
    (∀ root, (thread (Notes.run eventExists inputs).table root).map NoteRow.body =
      (Notes.run eventExists inputs).bodies root) ∧
    ∀ eventId,
      ((noteThreads (Notes.run eventExists inputs).table eventId).map NoteThread.threadId).Nodup ∧
      (∀ root, root ∈ (noteThreads (Notes.run eventExists inputs).table eventId).map
          NoteThread.threadId ↔ ∃ row ∈ (Notes.run eventExists inputs).table,
            row.eventId = eventId ∧ row.root = root) ∧
      ∀ t ∈ noteThreads (Notes.run eventExists inputs).table eventId,
        t.history.map NoteVersion.body ++ [t.body] =
          (Notes.run eventExists inputs).bodies t.threadId ∧
        ∃ earlier current,
          thread (Notes.run eventExists inputs).table t.threadId = earlier ++ [current] ∧
            t.id = current.id ∧ t.body = current.body ∧ t.version = current.version ∧
            t.history = earlier.map NoteRow.toVersion := by
  have h : Threaded (Notes.run eventExists inputs) := Threaded.empty.foldl eventExists inputs
  refine ⟨h.linear, h.bodies_eq, fun eventId => ?_⟩
  obtain ⟨hnodup, hroots, hshown⟩ := h.noteThreads_spec eventId
  refine ⟨hnodup, hroots, fun t ht => ⟨?_, hshown t ht⟩⟩
  obtain ⟨earlier, current, hrows, -, hbody, -, hhistory⟩ := hshown t ht
  rw [← h.bodies_eq, hrows, hhistory, hbody, map_append, map_map]
  rfl

/-- A note and two edits, which both name its first version. -/
def noteAndEdit : List NoteInput :=
  [⟨.add "e1" .work " first " "u1", ⟨"n1", 1⟩, false⟩,
    ⟨.edit "e1" "n1" "second" "u2", ⟨"n2", 2⟩, false⟩,
    ⟨.edit "e1" "n1" "third" "u1", ⟨"n3", 3⟩, false⟩]

theorem noteAndEdit_kept :
    (thread (Notes.run (fun _ => true) noteAndEdit).table "n1").map NoteRow.body =
      ["first", "second", "third"] := by
  rw [(notes_linear (fun _ => true) noteAndEdit).2.1]
  decide

end BbzPlatform.Events

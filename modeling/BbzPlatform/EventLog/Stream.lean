import BbzPlatform.EventLog.Feed

/-!
# What the stream delivers

The feed sends every visible row up to its cursor exactly once, as long as its queries meet a
settled log.  The invariant behind this says that no open transaction holds a number below the
cursor, nor below a row of the batch that is being sent.

The condition cannot be dropped: a query that meets an unsettled log can be continued to a run in
which a row is lost.
-/

namespace BbzPlatform.EventLog

open List

/-! ## The queries -/

variable {τ β : Type} {after : ℤ} {limit : ℕ} {e row : DomainEvent β} {l : List (DomainEvent β)}
  {log : Log τ β} {u : τ × DomainEvent β} {s : System τ β}

section Queries

variable {rows : List (DomainEvent β)}

theorem le_headSeq (h : e ∈ rows) : e.seq ≤ headSeq rows := by
  induction rows with
  | nil => cases h
  | cons r rows ih =>
    have hhead : headSeq (r :: rows) = max r.seq (headSeq rows) := rfl
    rw [hhead]
    rcases mem_cons.mp h with rfl | h
    · exact le_max_left _ _
    · exact (ih h).trans (le_max_right _ _)

theorem headSeq_le {bound : ℤ} (h0 : 0 ≤ bound) (h : ∀ e ∈ rows, e.seq ≤ bound) :
    headSeq rows ≤ bound := by
  induction rows with
  | nil => exact h0
  | cons r rows ih =>
    exact max_le (h r mem_cons_self) (ih fun e he => h e (mem_cons_of_mem _ he))

theorem mem_sorted :
    e ∈ (rows.filter (after < ·.seq)).insertionSort (fun a b => a.seq ≤ b.seq) ↔
      e ∈ rows ∧ after < e.seq := by
  rw [(perm_insertionSort _ _).mem_iff, mem_filter, decide_eq_true_eq]

theorem mem_readSince (h : e ∈ readSince rows after limit) : e ∈ rows ∧ after < e.seq :=
  mem_sorted.mp (mem_of_mem_take h)

instance : Std.Total fun a b : DomainEvent β => a.seq ≤ b.seq := ⟨fun a b => le_total a.seq b.seq⟩

instance : IsTrans (DomainEvent β) fun a b => a.seq ≤ b.seq := ⟨fun _ _ _ => le_trans⟩

theorem readSince_sorted : (readSince rows after limit).Pairwise fun a b => a.seq ≤ b.seq :=
  (pairwise_insertionSort _ _).sublist (take_sublist _ _)

/-- A row between the start and a row of the answer is in the answer. -/
theorem readSince_closed (hd : (rows.map (·.seq)).Nodup) (he : e ∈ rows)
    (hlt : after < e.seq) (hrow : row ∈ readSince rows after limit) (hle : e.seq ≤ row.seq) :
    e ∈ readSince rows after limit := by
  have hmem := mem_sorted.mpr ⟨he, hlt⟩
  have hsorted := pairwise_insertionSort (fun a b : DomainEvent β => a.seq ≤ b.seq)
    (rows.filter (after < ·.seq))
  rw [← take_append_drop limit (insertionSort _ _)] at hmem hsorted
  rcases mem_append.mp hmem with hmem | hmem
  · exact hmem
  · have hge := (pairwise_append.mp hsorted).2.2 row hrow e hmem
    have heq : e.seq = row.seq := le_antisymm hle hge
    rwa [inj_on_of_nodup_map hd he (mem_readSince hrow).1 heq]

theorem le_getLast (hs : l.Pairwise fun a b => a.seq ≤ b.seq)
    {final : DomainEvent β} (hrow : row ∈ l) (hfinal : final ∈ l.getLast?) :
    row.seq ≤ final.seq := by
  obtain ⟨init, rfl⟩ := getLast?_eq_some_iff.mp hfinal
  rcases mem_append.mp hrow with hrow | hrow
  · exact (pairwise_append.mp hs).2.2 row hrow final mem_cons_self
  · rw [mem_singleton.mp hrow]

theorem pairwise_lt (hs : l.Pairwise fun a b => a.seq ≤ b.seq)
    (hd : (l.map (·.seq)).Nodup) : l.Pairwise fun a b => a.seq < b.seq := by
  have hne : l.Pairwise fun a b => a.seq ≠ b.seq := pairwise_map.mp hd
  exact (hs.and hne).imp fun h => lt_of_le_of_ne h.1 h.2

end Queries

/-! ## Numbers -/

namespace Log

def rows (log : Log τ β) : List (DomainEvent β) := log.committed ++ log.uncommitted.map Prod.snd

/-- Numbers are positive, used once and lie below the sequence. -/
structure Distinct (log : Log τ β) : Prop where
  next_pos : 0 < log.next
  positive : ∀ e ∈ log.rows, 0 < e.seq
  below : ∀ e ∈ log.rows, e.seq < log.next
  nodup : (log.rows.map (·.seq)).Nodup

theorem mem_rows_committed (h : e ∈ log.committed) : e ∈ log.rows :=
  mem_append_left _ h

/-- A row is not visible and open at once. -/
theorem Distinct.disjoint (h : log.Distinct) (he : e ∈ log.committed)
    (hu : u ∈ log.uncommitted) : e.seq ≠ u.2.seq := by
  have hnodup := h.nodup
  rw [rows, map_append, nodup_append] at hnodup
  exact hnodup.2.2 _ (mem_map_of_mem he) _ (mem_map_of_mem (mem_map_of_mem hu))

theorem Distinct.nodup_committed (h : log.Distinct) : (log.committed.map (·.seq)).Nodup :=
  h.nodup.sublist ((sublist_append_left _ _).map _)

theorem Distinct.append (h : log.Distinct) (tx : τ) (skip : ℕ) (body : β) :
    (log.appendEvent tx skip body).Distinct := by
  have hrows : (log.appendEvent tx skip body).rows = log.rows ++ [⟨log.next + skip, body⟩] := by
    simp [rows, appendEvent]
  have hbelow := h.below
  have hpos := h.next_pos
  refine ⟨?_, ?_, ?_, ?_⟩
  · change 0 < log.next + skip + 1
    omega
  · rw [hrows]
    refine forall_mem_append.mpr ⟨h.positive, forall_mem_singleton.mpr ?_⟩
    change 0 < log.next + skip
    omega
  · rw [hrows]
    refine forall_mem_append.mpr ⟨fun e he => ?_, forall_mem_singleton.mpr (Int.lt_succ _)⟩
    change e.seq < log.next + skip + 1
    have := hbelow e he
    omega
  · rw [hrows, map_append, nodup_append]
    refine ⟨h.nodup, by simp, fun a ha b hb => ?_⟩
    obtain ⟨e, he, rfl⟩ := mem_map.mp ha
    have hlt := hbelow e he
    rw [map_singleton, mem_singleton] at hb
    subst hb
    change e.seq ≠ log.next + skip
    omega

variable [DecidableEq τ]

theorem rows_commit (tx : τ) : (log.commit tx).rows.Perm log.rows := by
  have hsplit := filter_append_perm (fun u : τ × DomainEvent β => u.1 = tx) log.uncommitted
  have hmap := hsplit.map Prod.snd
  rw [map_append] at hmap
  simpa [rows, commit] using hmap.append_left log.committed

theorem rows_rollback (tx : τ) : (log.rollback tx).rows.Sublist log.rows :=
  (filter_sublist.map _).append_left _

theorem Distinct.commit (h : log.Distinct) (tx : τ) : (log.commit tx).Distinct :=
  ⟨h.next_pos, fun e he => h.positive e ((rows_commit tx).mem_iff.mp he),
    fun e he => h.below e ((rows_commit tx).mem_iff.mp he),
    ((rows_commit tx).map _).nodup_iff.mpr h.nodup⟩

theorem Distinct.rollback (h : log.Distinct) (tx : τ) : (log.rollback tx).Distinct :=
  ⟨h.next_pos, fun e he => h.positive e ((rows_rollback tx).subset he),
    fun e he => h.below e ((rows_rollback tx).subset he),
    h.nodup.sublist ((rows_rollback tx).map _)⟩

/-- A row that is visible after a commit was visible before, or belonged to the transaction. -/
theorem mem_committed_commit {tx : τ} (h : e ∈ (log.commit tx).committed) :
    e ∈ log.committed ∨ ∃ u ∈ log.uncommitted, u.2 = e := by
  rcases mem_append.mp h with h | h
  · exact .inl h
  · obtain ⟨u, hu, rfl⟩ := mem_map.mp h
    exact .inr ⟨u, (mem_filter.mp hu).1, rfl⟩

end Log

/-! ## The invariant -/

/-- A batch that is being sent: its rows are visible and in order, and nothing is or becomes visible
between them. -/
structure Batch (after : ℤ) (s : System τ β) (rows : List (DomainEvent β)) : Prop where
  visible : ∀ row ∈ rows, row ∈ s.log.committed ∧ s.feed.last < row.seq
  sorted : rows.Pairwise fun a b => a.seq < b.seq
  closed : ∀ e ∈ s.log.committed, s.feed.last < e.seq → ∀ row ∈ rows, e.seq ≤ row.seq → e ∈ rows
  quiet : ∀ u ∈ s.log.uncommitted, after < u.2.seq → ∀ row ∈ rows, row.seq < u.2.seq

/-- The invariant of a feed that has met a settled log at each of its queries. -/
structure Inv (after : ℤ) (s : System τ β) : Prop where
  distinct : s.log.Distinct
  cursor : after ≤ s.feed.last
  issued : s.feed.last = after ∨ s.feed.last < s.log.next
  ordered : s.feed.sent.Pairwise fun a b => a.seq < b.seq
  sent : ∀ e ∈ s.feed.sent, e ∈ s.log.committed ∧ e.seq ≤ s.feed.last
  complete : ∀ e ∈ s.log.committed, after < e.seq → e.seq ≤ s.feed.last → e ∈ s.feed.sent
  quiet : ∀ u ∈ s.log.uncommitted, after < u.2.seq → s.feed.last < u.2.seq
  batch : ∀ rows, s.feed.phase = .sending rows → Batch after s rows
  announced : ∀ head, .catchUpComplete head ∈ s.feed.frames → head ≤ s.feed.last

/-- The invariant gives what the stream promises. -/
theorem Inv.toComplete (h : Inv after s) : Complete after s := by
  intro e he hlt hle
  have hle : e.seq ≤ s.feed.last := by
    rcases hle with hle | ⟨head, hframe, hle⟩
    · exact hle
    · exact hle.trans (h.announced head hframe)
  have hnodup : (s.feed.sent.map (·.seq)).Nodup :=
    pairwise_map.mpr (h.ordered.imp ne_of_lt)
  exact count_eq_one_of_mem hnodup (mem_map_of_mem (h.complete e he hlt hle))

section Writers

theorem Inv.append (h : Inv after s) (tx : τ) (skip : ℕ) (body : β) :
    Inv after { s with log := s.log.appendEvent tx skip body } := by
  have hissued := h.issued
  have hnew : ∀ u ∈ (s.log.appendEvent tx skip body).uncommitted,
      u ∈ s.log.uncommitted ∨ u.2.seq = s.log.next + skip :=
    forall_mem_append.mpr ⟨fun _ => .inl, forall_mem_singleton.mpr (.inr rfl)⟩
  refine { h with
    distinct := h.distinct.append tx skip body
    issued := ?_, quiet := ?_, batch := ?_ }
  · change s.feed.last = after ∨ s.feed.last < s.log.next + skip + 1
    omega
  · intro u hu hlt
    change s.feed.last < u.2.seq
    rcases hnew u hu with hu | hu
    · exact h.quiet u hu hlt
    · omega
  · intro rows hphase
    have hb := h.batch rows hphase
    refine { hb with quiet := fun u hu hlt row hrow => ?_ }
    rcases hnew u hu with hu | hu
    · exact hb.quiet u hu hlt row hrow
    · have hbelow := h.distinct.below row (Log.mem_rows_committed (hb.visible row hrow).1)
      omega

variable [DecidableEq τ]

theorem Inv.commit (h : Inv after s) (tx : τ) : Inv after { s with log := s.log.commit tx } := by
  have hold : ∀ e ∈ s.log.committed, e ∈ (s.log.commit tx).committed :=
    fun e he => mem_append_left _ he
  have hrest : ∀ u ∈ (s.log.commit tx).uncommitted, u ∈ s.log.uncommitted :=
    fun u hu => (mem_filter.mp hu).1
  refine { h with
    distinct := h.distinct.commit tx
    sent := fun e he => ⟨hold e (h.sent e he).1, (h.sent e he).2⟩
    complete := ?_
    quiet := fun u hu => h.quiet u (hrest u hu)
    batch := ?_ }
  · intro e he hlt hle
    rcases Log.mem_committed_commit he with he | ⟨u, hu, rfl⟩
    · exact h.complete e he hlt hle
    · exact absurd hle (not_le.mpr (h.quiet u hu hlt))
  · intro rows hphase
    have hb := h.batch rows hphase
    refine ⟨fun row hrow => ⟨hold row (hb.visible row hrow).1, (hb.visible row hrow).2⟩, hb.sorted,
      fun e he hlt row hrow hle => ?_, fun u hu => hb.quiet u (hrest u hu)⟩
    rcases Log.mem_committed_commit he with he | ⟨u, hu, rfl⟩
    · exact hb.closed e he hlt row hrow hle
    · -- A row that has just become visible lies above the whole batch.
      have hafter : after < u.2.seq := lt_of_le_of_lt h.cursor hlt
      exact absurd hle (not_le.mpr (hb.quiet u hu hafter row hrow))

theorem Inv.rollback (h : Inv after s) (tx : τ) :
    Inv after { s with log := s.log.rollback tx } := by
  have hrest : ∀ u ∈ (s.log.rollback tx).uncommitted, u ∈ s.log.uncommitted :=
    fun u hu => (mem_filter.mp hu).1
  refine { h with
    distinct := h.distinct.rollback tx
    quiet := fun u hu => h.quiet u (hrest u hu)
    batch := fun rows hphase => ?_ }
  have hb := h.batch rows hphase
  exact ⟨hb.visible, hb.sorted, hb.closed, fun u hu => hb.quiet u (hrest u hu)⟩

end Writers

theorem sent_append (feed : Feed β) (frames : List (Frame β)) (last : ℤ) (caughtUp : Bool)
    (phase : Phase β) : (Feed.mk last caughtUp phase (feed.frames ++ frames)).sent
      = feed.sent ++ (Feed.mk last caughtUp phase frames).sent := by
  simp [Feed.sent]

/-- **A poll of a settled log starts a batch.** -/
theorem batch_of_poll (h : Inv after s) (hphase : s.feed.phase = .polling)
    (hsettled : Settled after s) :
    Batch after s (readSince s.log.committed s.feed.last catchupBatch) := by
  rw [Settled, hphase] at hsettled
  have hnodup := h.distinct.nodup_committed
  refine ⟨fun row hrow => mem_readSince hrow, ?_,
    fun e he hlt row hrow hle => readSince_closed hnodup he hlt hrow hle, hsettled⟩
  refine pairwise_lt readSince_sorted ?_
  have hsub : (readSince s.log.committed s.feed.last catchupBatch).Sublist
      ((s.log.committed.filter (s.feed.last < ·.seq)).insertionSort fun a b => a.seq ≤ b.seq) :=
    take_sublist _ _
  have hperm := perm_insertionSort (fun a b : DomainEvent β => a.seq ≤ b.seq)
    (s.log.committed.filter (s.feed.last < ·.seq))
  refine Nodup.sublist (hsub.map _) ((hperm.map _).nodup_iff.mpr ?_)
  exact hnodup.sublist (filter_sublist.map _)

/-- **Sending a row keeps the invariant.** -/
theorem Inv.send (h : Inv after s) {rest : List (DomainEvent β)}
    (hphase : s.feed.phase = .sending (row :: rest)) {phase : Phase β}
    (hnext : ∀ rows, phase = .sending rows → rows = rest) :
    Inv after
      { s with feed := ⟨row.seq, s.feed.caughtUp, phase, s.feed.frames ++ [.event row]⟩ } := by
  have hb := h.batch _ hphase
  obtain ⟨hvis, hlt⟩ := hb.visible row mem_cons_self
  have hsorted := pairwise_cons.mp hb.sorted
  have hsent : (Feed.mk row.seq s.feed.caughtUp phase (s.feed.frames ++ [.event row])).sent
      = s.feed.sent ++ [row] := sent_append ..
  have hcursor := h.cursor
  refine ⟨h.distinct, ?_, .inr (h.distinct.below row (Log.mem_rows_committed hvis)), ?_, ?_, ?_, ?_,
    ?_, ?_⟩
  · change after ≤ row.seq
    omega
  · rw [hsent, pairwise_append]
    refine ⟨h.ordered, pairwise_singleton _ _, fun a ha b hb' => ?_⟩
    rw [mem_singleton.mp hb']
    exact lt_of_le_of_lt (h.sent a ha).2 hlt
  · rw [hsent]
    refine forall_mem_append.mpr ⟨fun e he => ?_, forall_mem_singleton.mpr ⟨hvis, le_rfl⟩⟩
    exact ⟨(h.sent e he).1, ((h.sent e he).2.trans_lt hlt).le⟩
  · intro e he hafter hle
    rw [hsent, mem_append, mem_singleton]
    by_cases hold : e.seq ≤ s.feed.last
    · exact .inl (h.complete e he hafter hold)
    · -- Only the row itself lies between the old cursor and the new one.
      right
      rcases mem_cons.mp (hb.closed e he (not_le.mp hold) row mem_cons_self hle)
        with heq | hin
      · exact heq
      · exact absurd hle (not_le.mpr (hsorted.1 e hin))
  · exact fun u hu hafter => hb.quiet u hu hafter row mem_cons_self
  · intro rows hrows
    obtain rfl := hnext rows hrows
    refine ⟨fun r hr => ⟨(hb.visible r (mem_cons_of_mem _ hr)).1, hsorted.1 r hr⟩, hsorted.2,
      fun e he hgt r hr hle => ?_, fun u hu ha r hr => hb.quiet u hu ha r (mem_cons_of_mem _ hr)⟩
    have hin := hb.closed e he (hlt.trans hgt) r (mem_cons_of_mem _ hr) hle
    rcases mem_cons.mp hin with rfl | hin
    · exact absurd hgt (lt_irrefl _)
    · exact hin
  · intro head hhead
    rcases mem_append.mp hhead with hhead | hhead
    · exact ((h.announced head hhead).trans_lt hlt).le
    · cases mem_singleton.mp hhead

/-- **Announcing the head of a settled log keeps the invariant**: the cursor does not pass a row. -/
theorem Inv.announce (h : Inv after s) (hall : ∀ e ∈ s.log.committed, e.seq ≤ s.feed.last) :
    Inv after { s with feed :=
      ⟨max s.feed.last (headSeq s.log.committed), true, .polling, s.feed.frames ++
        [.catchUpComplete (max s.feed.last (headSeq s.log.committed)), .heartbeat]⟩ } := by
  have hhead : headSeq s.log.committed ≤ max s.feed.last 0 :=
    headSeq_le (le_max_right _ _) fun e he => (hall e he).trans (le_max_left _ _)
  have hle : s.feed.last ≤ max s.feed.last (headSeq s.log.committed) := le_max_left _ _
  have hge : max s.feed.last (headSeq s.log.committed) ≤ max s.feed.last 0 :=
    max_le (le_max_left _ _) hhead
  generalize max s.feed.last (headSeq s.log.committed) = head at hle hge ⊢
  have hsent : (Feed.mk head true .polling
      (s.feed.frames ++ [.catchUpComplete head, .heartbeat])).sent = s.feed.sent :=
    (sent_append ..).trans (append_nil _)
  have hcursor := h.cursor
  have hissued := h.issued
  have hpos := h.distinct.next_pos
  refine ⟨h.distinct, hcursor.trans hle, ?_, ?_, ?_, ?_, ?_, (fun rows hrows => by cases hrows), ?_⟩
  · change head = after ∨ head < s.log.next
    omega
  · rw [hsent]
    exact h.ordered
  · intro e he
    rw [hsent] at he
    exact ⟨(h.sent e he).1, (h.sent e he).2.trans hle⟩
  · intro e he hafter _
    rw [hsent]
    exact h.complete e he hafter (hall e he)
  · intro u hu hafter
    have hquiet := h.quiet u hu hafter
    have hupos := h.distinct.positive u.2 (mem_append_right _ (mem_map_of_mem hu))
    change head < u.2.seq
    omega
  · intro head' hmem
    change head' ≤ head
    rcases mem_append.mp hmem with hmem | hmem
    · exact (h.announced head' hmem).trans hle
    · simp only [mem_cons, Frame.catchUpComplete.injEq, reduceCtorEq, not_mem_nil,
        or_self, or_false] at hmem
      exact hmem.le

/-- **A move of the feed on a settled log keeps the invariant.** -/
theorem Inv.feed (h : Inv after s) (hsettled : Settled after s) :
    Inv after { s with feed := s.feed.step s.log.committed } := by
  fun_cases Feed.step s.log.committed s.feed
  next hphase row rest hread =>
    have hb := batch_of_poll h hphase hsettled
    rw [hread] at hb
    exact { h with batch := fun rows hrows => by cases hrows; exact ⟨hb.1, hb.2, hb.3, hb.4⟩ }
  next hphase hread hcaught =>
    have hsent : (Feed.mk s.feed.last s.feed.caughtUp s.feed.phase
        (s.feed.frames ++ [.heartbeat])).sent = s.feed.sent :=
      (sent_append ..).trans (append_nil _)
    refine { h with ordered := ?_, sent := ?_, complete := ?_, batch := ?_, announced := ?_ }
    · rw [hsent]
      exact h.ordered
    · rw [hsent]
      exact h.sent
    · rw [hsent]
      exact h.complete
    · exact fun rows hrows => by cases hphase.symm.trans hrows
    · intro head hmem
      rcases mem_append.mp hmem with hmem | hmem
      · exact h.announced head hmem
      · cases mem_singleton.mp hmem
  · exact { h with batch := fun rows hrows => by cases hrows }
  · exact { h with batch := fun rows hrows => by cases hrows }
  next hphase => exact h.send hphase fun rows hrows => by cases hrows
  next hphase => exact h.send hphase fun rows hrows => by cases hrows; rfl
  next hphase head =>
    rw [Settled, hphase] at hsettled
    exact h.announce hsettled

/-! ## Runs -/

section Runs

open Relation

theorem inv_start (h : log.Distinct) (after : ℤ) : Inv after ⟨log, Feed.start after⟩ where
  distinct := h
  cursor := le_rfl
  issued := .inl rfl
  ordered := Pairwise.nil
  sent := fun e he => by cases he
  complete := fun e _ hlt hle => absurd hlt (not_lt.mpr hle)
  quiet := fun u _ hlt => hlt
  batch := fun rows hrows => by cases hrows
  announced := fun head hmem => by cases hmem

/-- A visible row behind the cursor that was not sent is lost. -/
theorem not_complete (he : e ∈ s.log.committed) (hafter : after < e.seq)
    (hle : e.seq ≤ s.feed.last) (hsent : ∀ r ∈ s.feed.sent, r.seq ≠ e.seq) :
    ¬ Complete after s := by
  intro h
  have hone := h e he hafter (.inl hle)
  have hmem : e.seq ∈ s.feed.sent.map (·.seq) :=
    count_pos_iff.mp (by rw [hone]; exact Nat.one_pos)
  obtain ⟨r, hr, heq⟩ := mem_map.mp hmem
  exact hsent r hr heq

variable [DecidableEq τ]

theorem Inv.step {t : System τ β} (h : Inv after s) (hstep : Step (Settled after) s t) :
    Inv after t := by
  cases hstep with
  | append tx skip body => exact h.append tx skip body
  | commit tx => exact h.commit tx
  | rollback tx => exact h.rollback tx
  | feed hsettled => exact h.feed hsettled

theorem inv_run (h : log.Distinct)
    (hrun : ReflTransGen (Step (Settled after)) ⟨log, Feed.start after⟩ s) : Inv after s := by
  induction hrun with
  | refl => exact inv_start h after
  | tail _ hstep ih => exact ih.step hstep

/-- A batch can be sent to its end while the writers rest. -/
theorem send_all {rows : List (DomainEvent β)} (hne : rows ≠ [])
    (hphase : s.feed.phase = .sending rows) : ∃ t, ReflTransGen AnyStep s t ∧ t.log = s.log ∧
      (∃ row ∈ rows.getLast?, t.feed.last = row.seq) ∧ t.feed.sent = s.feed.sent ++ rows := by
  induction rows generalizing s with
  | nil => exact absurd rfl hne
  | cons row rest ih =>
    have hstep : AnyStep s { s with feed := s.feed.step s.log.committed } := Step.feed trivial
    cases rest with
    | nil =>
      refine ⟨_, .single hstep, rfl, ⟨row, rfl, ?_⟩, ?_⟩
      · simp only [Feed.step, hphase]
      · simp only [Feed.step, hphase]
        exact sent_append ..
    | cons row' rest =>
      have hnext : ({ s with feed := s.feed.step s.log.committed } : System τ β).feed.phase
          = .sending (row' :: rest) := by
        simp only [Feed.step, hphase]
      obtain ⟨t, hrun, hlog, ⟨r, hr, hlast⟩, hsent⟩ := ih (cons_ne_nil _ _) hnext
      refine ⟨t, .head hstep hrun, hlog, ⟨r, by simpa using hr, hlast⟩, ?_⟩
      rw [hsent]
      simp only [Feed.step, hphase]
      rw [sent_append]
      simp [Feed.sent]

/-- **A query that meets an unsettled log can lose a row.** -/
theorem exists_lost (h : Inv after s) (hno : ¬ Settled after s) :
    ∃ t, ReflTransGen AnyStep ⟨s.log, s.feed.step s.log.committed⟩ t ∧ ¬ Complete after t := by
  cases hphase : s.feed.phase with
  | sending rows =>
    rw [Settled, hphase] at hno
    exact absurd trivial hno
  | polling =>
    -- Send the batch, then commit the transaction that holds a number below one of its rows.
    rw [Settled, hphase] at hno
    push Not at hno
    obtain ⟨u, hu, hafter, row, hrow, hle⟩ := hno
    cases hread : readSince s.log.committed s.feed.last catchupBatch with
    | nil =>
      rw [hread] at hrow
      cases hrow
    | cons first rest =>
      have hnext : (System.mk s.log (s.feed.step s.log.committed)).feed.phase
          = .sending (first :: rest) := by
        simp only [Feed.step, hphase, hread]
      obtain ⟨t, hrun, hlog, ⟨final, hfinal, hlast⟩, hsent⟩ :=
        send_all (cons_ne_nil _ _) hnext
      rw [← hread] at hfinal hsent
      refine ⟨{ t with log := t.log.commit u.1 }, hrun.tail (.commit u.1),
        not_complete (e := u.2) ?_ hafter ?_ fun r hr => ?_⟩
      · rw [hlog]
        exact mem_append_right _
          (mem_map_of_mem (mem_filter.mpr ⟨hu, by simp⟩))
      · change u.2.seq ≤ t.feed.last
        rw [hlast]
        exact hle.trans (le_getLast readSince_sorted hrow hfinal)
      · change r ∈ t.feed.sent at hr
        have hvisible : r ∈ s.log.committed := by
          rw [hsent] at hr
          rcases mem_append.mp hr with hr | hr
          · simp only [Feed.step, hphase, hread] at hr
            exact (h.sent r hr).1
          · exact (mem_readSince hr).1
        exact h.distinct.disjoint hvisible hu
  | atHead =>
    rw [Settled, hphase] at hno
    push Not at hno
    obtain ⟨e, he, hlt⟩ := hno
    refine ⟨_, .refl, not_complete he (h.cursor.trans_lt hlt) ?_ fun r hr heq => ?_⟩
    · simp only [Feed.step, hphase]
      exact (le_headSeq he).trans (le_max_right _ _)
    · have hold : r ∈ s.feed.sent := by
        simp only [Feed.step, hphase] at hr
        rw [sent_append] at hr
        simpa [Feed.sent] using hr
      have hle := (h.sent r hold).2
      omega

/-- **The stream loses nothing, if its queries meet a settled log.**  In every run in which they do,
every visible row up to the cursor, or up to an announced head, has been sent exactly once.  A query
made at a point of such a run at which the log is not settled can be followed by steps that lose a
row. -/
theorem feed_complete_of_settled (after : ℤ) (log : Log τ β) (hlog : log.Distinct)
    (s : System τ β) (hrun : ReflTransGen (Step (Settled after)) ⟨log, Feed.start after⟩ s) :
    Complete after s ∧ (¬ Settled after s →
      ∃ t, ReflTransGen AnyStep ⟨s.log, s.feed.step s.log.committed⟩ t ∧ ¬ Complete after t) :=
  have hinv := inv_run hlog hrun
  ⟨hinv.toComplete, exists_lost hinv⟩

end Runs

def emptyLog : Log ℕ Unit := ⟨1, [], []⟩

theorem distinct_emptyLog : emptyLog.Distinct :=
  ⟨by decide, (fun e he => by cases he), (fun e he => by cases he), nodup_nil⟩

/-- The log after two writers have appended and the first has committed. -/
def firstFirst : Log ℕ Unit := ((emptyLog.appendEvent 1 0 ()).appendEvent 2 0 ()).commit 1

open Relation in
/-- The feed polls and sends the committed row while the second writer is open. -/
theorem feed_complete_open_writer :
    ∃ s : System ℕ Unit, s.log.committed = [⟨1, ()⟩] ∧ s.log.uncommitted = [(2, ⟨2, ()⟩)] ∧
      s.feed.last = 1 ∧ s.feed.frames = [.event ⟨1, ()⟩] ∧ Complete 0 s := by
  refine ⟨⟨firstFirst, ((Feed.start 0).step firstFirst.committed).step firstFirst.committed⟩,
    by decide, by decide, by decide, by decide,
    (feed_complete_of_settled 0 emptyLog distinct_emptyLog _ ?_).1⟩
  have hrun : ReflTransGen (Step (Settled 0)) (System.mk emptyLog (Feed.start 0))
      ⟨firstFirst, Feed.start 0⟩ :=
    ((ReflTransGen.single (.append 1 0 ())).tail (.append 2 0 ())).tail (.commit 1)
  -- the poll reads row 1, and the open row has the number 2
  refine (hrun.tail (.feed ?_)).tail (.feed trivial)
  change ∀ u ∈ firstFirst.uncommitted, (0 : ℤ) < u.2.seq →
    ∀ row ∈ readSince firstFirst.committed 0 catchupBatch, row.seq < u.2.seq
  decide

/-- The log after two writers have appended and the second has committed. -/
def secondFirst : Log ℕ Unit := ((emptyLog.appendEvent 1 0 ()).appendEvent 2 0 ()).commit 2

open Relation in
/-- **Rows are lost**: a writer that commits behind the cursor is never sent, and neither is one
that commits between the empty poll and the query for the head, although the head is announced. -/
theorem rows_lost : (∃ s : System ℕ Unit, ReflTransGen AnyStep ⟨emptyLog, Feed.start 0⟩ s ∧
      s.log.committed = [⟨2, ()⟩, ⟨1, ()⟩] ∧ s.feed.frames = [.event ⟨2, ()⟩] ∧
      s.feed.last = 2 ∧ ¬ Complete 0 s) ∧
    ∃ s : System ℕ Unit, ReflTransGen AnyStep ⟨emptyLog, Feed.start 0⟩ s ∧
      s.log.committed = [⟨1, ()⟩] ∧ s.feed.frames = [.catchUpComplete 1, .heartbeat] ∧
      ¬ Complete 0 s := by
  constructor
  · refine ⟨⟨secondFirst.commit 1, (((Feed.start 0).step secondFirst.committed).step
      secondFirst.committed)⟩, ?_, by decide, by decide, by decide, ?_⟩
    · have hrun : ReflTransGen AnyStep (System.mk emptyLog (Feed.start 0))
          ⟨secondFirst, Feed.start 0⟩ :=
        ((ReflTransGen.single (.append 1 0 ())).tail (.append 2 0 ())).tail (.commit 2)
      exact ((hrun.tail (.feed trivial)).tail (.feed trivial)).tail (.commit 1)
    · refine not_complete (e := ⟨1, ()⟩) (by decide) (by decide) (by decide) (by decide)
  · refine ⟨⟨(emptyLog.appendEvent 1 0 ()).commit 1, ((Feed.start 0).step emptyLog.committed).step
      ((emptyLog.appendEvent 1 0 ()).commit 1).committed⟩, ?_, by decide, by decide, ?_⟩
    · have hpoll : AnyStep (System.mk emptyLog (Feed.start 0))
          ⟨emptyLog, (Feed.start 0).step emptyLog.committed⟩ := .feed trivial
      exact (((ReflTransGen.single hpoll).tail (.append 1 0 ())).tail (.commit 1)).tail
        (.feed trivial)
    · refine not_complete (e := ⟨1, ()⟩) (by decide) (by decide) (by decide) (by decide)

end BbzPlatform.EventLog

import BbzPlatform.Audit.Chain
import BbzPlatform.Lib.Turns

/-!
# Sealing while rows are written

Audit rows are written by many transactions.  A row takes its number at once and becomes visible
when its transaction commits, if it does.  `seal` holds an advisory lock, reads the head of the
chain, reads the visible rows above it and commits one link for each.

Two assumptions are built into it.  `verify` takes a missing number for a deleted row, but a
transaction that rolls back leaves its number unused.  And `seal` never looks below the head, but
a row can become visible there.
-/

namespace BbzPlatform.Audit

open Turns Relation List
open EventLog (DomainEvent Log)

/-- How far the seal that holds the lock has come. -/
inductive Sealer where
  | idle
  | headRead (head : ℤ × String)
  | rowsRead (new : List ChainLink)

/-- The two tables and the sealer. -/
structure System (τ : Type) where
  log : Log τ AuditBody
  links : List ChainLink
  sealer : Sealer

/-- What can happen next: a writer inserts a row, commits or rolls back, or the sealer executes its
next statement or fails. -/
inductive Move (τ : Type) where
  | write (tx : τ) (body : AuditBody)
  | commit (tx : τ)
  | rollback (tx : τ)
  | readHead
  | readRows
  | commitSeal
  | abortSeal

variable {τ : Type}

namespace System

/-- Both tables are empty. -/
def start : System τ := ⟨⟨1, [], []⟩, [], .idle⟩

def step [DecidableEq τ] (h : Hashing) (s : System τ) (_ : Unit) : Move τ → Option (System τ)
  | .write tx body => some { s with log := s.log.appendEvent tx 0 body }
  | .commit tx => some { s with log := s.log.commit tx }
  | .rollback tx => some { s with log := s.log.rollback tx }
  | .readHead =>
    match s.sealer with
    | .idle => some { s with sealer := .headRead (head s.links) }
    | _ => none
  | .readRows =>
    match s.sealer with
    | .headRead top => some { s with
        sealer := .rowsRead (linkRows h top.2 (rowsAfter s.log.committed top.1)) }
    | _ => none
  | .commitSeal =>
    match s.sealer with
    | .rowsRead new => some { s with links := s.links ++ new, sealer := .idle }
    | _ => none
  | .abortSeal => some { s with sealer := .idle }

/-- The links that a seal makes. -/
def newLinks (h : Hashing) (s : System τ) : List ChainLink :=
  linkRows h (head s.links).2 (rowsAfter s.log.committed (head s.links).1)

/-- The links, those of a seal that is not committed included. -/
def chain (s : System τ) : List ChainLink :=
  match s.sealer with
  | .rowsRead new => s.links ++ new
  | _ => s.links

end System

/-- The moves of a seal that runs to its end. -/
def sealMoves : List (Unit × Move τ) := [((), .readHead), ((), .readRows), ((), .commitSeal)]

/-! ## Numbers -/

/-- Each number is the one expected, and the next is one more. -/
def Consecutive : Option ℤ → List ℤ → Prop
  | _, [] => True
  | expected, s :: seqs => (∀ e ∈ expected, s = e) ∧ Consecutive (some (s + 1)) seqs

def expectedAfter (links : List ChainLink) : Option ℤ := links.getLast?.map (·.seq + 1)

/-- The head of a chain whose links are in order. -/
def last (links : List ChainLink) : ℤ × String :=
  match links.getLast? with
  | none => (0, genesis)
  | some l => (l.seq, l.rowHash)

/-- The visible rows above the head continue the chain: no number among them is missing. -/
def Dense (s : System τ) (_ : Unit) (m : Move τ) : Prop :=
  m = .readRows →
    Consecutive (expectedAfter s.links) ((rowsAfter s.log.committed (head s.links).1).map (·.seq))

/-- No open transaction holds a number below a visible row above the head. -/
def Settled (s : System τ) (_ : Unit) (m : Move τ) : Prop :=
  m = .readRows → ∀ row ∈ s.log.committed, (head s.links).1 < row.seq →
    ∀ u ∈ s.log.uncommitted, row.seq < u.2.seq

variable {rows rows' new : List AuditEvent} {seq : ℤ} {row : AuditEvent} {l : ChainLink}
  {h : Hashing} {expected : Option ℤ} {prev : String} {more : List ChainLink} {s t : System τ}
  {m : Move τ} {u : Unit} {log : Log τ AuditBody}

section Lists

variable {links : List ChainLink}

theorem mem_rowsAfter : row ∈ rowsAfter rows seq ↔ row ∈ rows ∧ seq < row.seq := by
  rw [rowsAfter, (perm_insertionSort _ _).mem_iff, mem_filter, decide_eq_true_eq]

theorem rowsAfter_sorted (hnodup : (rows.map (·.seq)).Nodup) :
    (rowsAfter rows seq).Pairwise fun a b => a.seq < b.seq := by
  refine EventLog.pairwise_lt (pairwise_insertionSort _ _) ?_
  refine ((perm_insertionSort _ _).map _).nodup_iff.mpr ?_
  exact hnodup.sublist (filter_sublist.map _)

variable (hs : links.Pairwise fun a b => a.seq < b.seq)
include hs

/-- The number of a link is at most that of the head. -/
theorem le_last (hl : l ∈ links) : l.seq ≤ (last links).1 := by
  rcases eq_nil_or_concat links with rfl | ⟨init, final, rfl⟩
  · cases hl
  · rw [concat_eq_append] at hs hl ⊢
    have hlast : last (init ++ [final]) = (final.seq, final.rowHash) := by simp [last]
    rw [hlast]
    rcases mem_append.mp hl with hl | hl
    · exact (pairwise_append.mp hs).2.2 l hl final mem_cons_self |>.le
    · rw [mem_singleton.mp hl]

theorem head_eq_last : head links = last links := by
  have hperm := perm_insertionSort (fun a b : ChainLink => b.seq ≤ a.seq) links
  have hdesc := pairwise_insertionSort (fun a b : ChainLink => b.seq ≤ a.seq) links
  rw [head]
  cases hsort : links.insertionSort fun a b => b.seq ≤ a.seq with
  | nil =>
    rw [hsort] at hperm
    rw [hperm.symm.eq_nil]
    rfl
  | cons top rest =>
    rw [hsort] at hperm hdesc
    have htop : top ∈ links := hperm.mem_iff.mp mem_cons_self
    rcases eq_nil_or_concat links with rfl | ⟨init, final, rfl⟩
    · cases htop
    · rw [concat_eq_append] at hs hperm htop ⊢
      have hlast : last (init ++ [final]) = (final.seq, final.rowHash) := by simp [last]
      -- the greatest number is both on top and at the end
      have hge : final.seq ≤ top.seq := by
        have hfinal : final ∈ top :: rest := hperm.mem_iff.mpr (by simp)
        rcases mem_cons.mp hfinal with rfl | hmem
        · exact le_rfl
        · exact (pairwise_cons.mp hdesc).1 final hmem
      rcases mem_append.mp htop with hmem | hmem
      · have hlt := (pairwise_append.mp hs).2.2 top hmem final mem_cons_self
        omega
      · rw [hlast, mem_singleton.mp hmem]

end Lists

/-! ## The walk along a growing chain -/

section Walk

variable {links : List ChainLink}

theorem walk_cons_eq_none : walk h rows expected prev (l :: links) = none ↔
      Checks h rows expected prev l ∧ walk h rows (some (l.seq + 1)) l.rowHash links = none := by
  rcases walk_cons h rows expected prev l links with ⟨hc, heq⟩ | ⟨hc, detail, heq⟩
  · rw [heq]
    exact ⟨fun hw => ⟨hc, hw⟩, fun hw => hw.2⟩
  · rw [heq]
    exact ⟨fun hw => (by cases hw), fun hw => absurd hw.1 hc⟩

/-- Whatever the walk reports is a failure. -/
theorem walk_not_ok {r : VerifyResult} (hw : walk h rows expected prev links = some r) :
    r.ok = false := by
  induction links generalizing expected prev with
  | nil => cases hw
  | cons l links ih =>
    rcases walk_cons h rows expected prev l links with ⟨-, heq⟩ | ⟨-, detail, heq⟩
    · exact ih (heq ▸ hw)
    · rw [heq] at hw
      cases hw
      rfl

theorem verify_ok_iff (hs : links.Pairwise fun a b => a.seq < b.seq) :
    (verify h rows links none).ok = true ↔ walk h rows none genesis links = none := by
  rw [verify, show sortedLinks links none = links from (hs.imp le_of_lt).insertionSort_eq]
  cases hw : walk h rows none genesis links with
  | some r => simp [walk_not_ok hw]
  | none => cases links.getLast? <;> simp

theorem walk_mono (hrows : ∀ seq row, rowAt rows seq = some row → rowAt rows' seq = some row)
    (hw : walk h rows expected prev links = none) : walk h rows' expected prev links = none := by
  induction links generalizing expected prev with
  | nil => rfl
  | cons l links ih =>
    obtain ⟨hc, hrest⟩ := walk_cons_eq_none.mp hw
    obtain ⟨row, hrow, hhash⟩ := hc.row
    exact walk_cons_eq_none.mpr
      ⟨⟨hc.next, hc.linked, row, hrows _ _ hrow, hhash⟩, ih hrest⟩

theorem walk_append :
    walk h rows expected prev (links ++ more) = none ↔
      walk h rows expected prev links = none ∧
      walk h rows ((expectedAfter links).or expected) ((links.getLast?.map (·.rowHash)).getD prev)
        more = none := by
  induction links generalizing expected prev with
  | nil => simp [walk, expectedAfter]
  | cons l links ih =>
    rw [cons_append, walk_cons_eq_none, walk_cons_eq_none, ih, and_assoc]
    cases links with
    | nil => simp [expectedAfter]
    | cons l' links =>
      have hlast : (l :: l' :: links).getLast? = (l' :: links).getLast? := by simp
      obtain ⟨final, hfinal⟩ : ∃ final, (l' :: links).getLast? = some final :=
        ⟨_, getLast?_eq_some_getLast (cons_ne_nil _ _)⟩
      simp [expectedAfter, hlast, hfinal]

/-- **New links check exactly if their numbers are consecutive.** -/
theorem walk_linkRows (hat : ∀ row ∈ new, rowAt rows row.seq = some row) :
    walk h rows expected prev (linkRows h prev new) = none ↔
      Consecutive expected (new.map (·.seq)) := by
  induction new generalizing expected prev with
  | nil => simp [linkRows, walk, Consecutive]
  | cons row new ih =>
    have hrow := hat row mem_cons_self
    rw [linkRows, walk_cons_eq_none, ih fun r hr => hat r (mem_cons_of_mem _ hr),
      map_cons, Consecutive]
    refine and_congr_left fun _ => ⟨fun hc => hc.next, fun hnext => ⟨hnext, rfl, row, hrow, rfl⟩⟩

theorem rowAt_of_mem (hnodup : (rows.map (·.seq)).Nodup) (hrow : row ∈ rows) :
    rowAt rows row.seq = some row := by
  cases hfind : rowAt rows row.seq with
  | none =>
    have hno := find?_eq_none.mp hfind row hrow
    simp at hno
  | some found =>
    have hseq : found.seq = row.seq := by simpa using find?_some hfind
    rw [inj_on_of_nodup_map hnodup (mem_of_find?_eq_some hfind) hrow hseq]

end Walk

/-! ## What every run preserves -/

/-- The facts about the two tables that hold in every run. -/
structure Sound (h : Hashing) (s : System τ) : Prop where
  distinct : s.log.Distinct
  ordered : s.chain.Pairwise fun a b => a.seq < b.seq
  visible : ∀ l ∈ s.chain, ∃ row ∈ s.log.committed, row.seq = l.seq ∧ row.body.id = l.auditEventId
  read : ∀ top, s.sealer = .headRead top → top = head s.links

theorem map_seq_linkRows (prev : String) (rows : List AuditEvent) :
    (linkRows h prev rows).map (·.seq) = rows.map (·.seq) := by
  induction rows generalizing prev with
  | nil => rfl
  | cons row rows ih => simp [linkRows, ih]

theorem exists_row_of_mem_linkRows
    (hl : l ∈ linkRows h prev rows) :
    ∃ row ∈ rows, row.seq = l.seq ∧ row.body.id = l.auditEventId := by
  induction rows generalizing prev with
  | nil => cases hl
  | cons row rows ih =>
    rcases mem_cons.mp hl with rfl | hl
    · exact ⟨row, mem_cons_self, rfl, rfl⟩
    · obtain ⟨row', hrow', heq⟩ := ih hl
      exact ⟨row', mem_cons_of_mem _ hrow', heq⟩

theorem Sound.links_ordered (hs : Sound h s) : s.links.Pairwise fun a b => a.seq < b.seq := by
  have hord := hs.ordered
  unfold System.chain at hord
  split at hord
  · exact (pairwise_append.mp hord).1
  · exact hord

/-- The links that a seal makes continue the chain in order. -/
theorem Sound.ordered_append (hs : Sound h s) :
    (s.links ++ s.newLinks h).Pairwise fun a b => a.seq < b.seq := by
  have hlinks := hs.links_ordered
  have hnew : (s.newLinks h).Pairwise fun a b => a.seq < b.seq := by
    refine pairwise_map.mp ?_
    rw [System.newLinks, map_seq_linkRows]
    exact pairwise_map.mpr (rowsAfter_sorted hs.distinct.nodup_committed)
  refine pairwise_append.mpr ⟨hlinks, hnew, fun a ha b hb => ?_⟩
  obtain ⟨row, hrow, hseq, -⟩ := exists_row_of_mem_linkRows hb
  have hle := le_last hlinks ha
  have hlt := (mem_rowsAfter.mp hrow).2
  rw [head_eq_last hlinks] at hlt
  omega

theorem Sound.start : Sound h (System.start : System τ) :=
  ⟨⟨Int.one_pos, by simp [System.start, Log.rows], by simp [System.start, Log.rows],
    by simp [System.start, Log.rows]⟩, by simp [System.start, System.chain],
    by simp [System.start, System.chain], by simp [System.start]⟩

theorem Sound.writer (hs : Sound h s) (hd : log.Distinct)
    (hkeep : ∀ row ∈ s.log.committed, row ∈ log.committed) : Sound h { s with log := log } where
  distinct := hd
  ordered := hs.ordered
  visible l hl := by
    obtain ⟨row, hrow, heq⟩ := hs.visible l hl
    exact ⟨row, hkeep row hrow, heq⟩
  read := hs.read

theorem Sound.visible_links (hs : Sound h s) :
    ∀ l ∈ s.links, ∃ row ∈ s.log.committed, row.seq = l.seq ∧ row.body.id = l.auditEventId := by
  refine fun l hl => hs.visible l ?_
  unfold System.chain
  split
  · exact mem_append_left _ hl
  · exact hl

/-- What a move leads to. -/
inductive Moved [DecidableEq τ] (h : Hashing) (s : System τ) : Move τ → System τ → Prop
  | write tx body : Moved h s (.write tx body) { s with log := s.log.appendEvent tx 0 body }
  | commit tx : Moved h s (.commit tx) { s with log := s.log.commit tx }
  | rollback tx : Moved h s (.rollback tx) { s with log := s.log.rollback tx }
  | readHead : Moved h s .readHead { s with sealer := .headRead (head s.links) }
  | readRows : Moved h s .readRows { s with sealer := .rowsRead (s.newLinks h) }
  | commitSeal : Moved h s .commitSeal { s with links := s.chain, sealer := .idle }
  | abortSeal : Moved h s .abortSeal { s with sealer := .idle }

theorem Sound.moved [DecidableEq τ] (hs : Sound h s) (hstep : s.step h u m = some t) :
    Moved h s m t := by
  cases m with
  | write tx body | commit tx | rollback tx | abortSeal =>
    cases hstep
    constructor
  | readHead =>
    cases hsealer : s.sealer <;> simp only [System.step, hsealer, reduceCtorEq] at hstep
    cases hstep
    exact .readHead
  | readRows =>
    cases hsealer : s.sealer <;> simp only [System.step, hsealer, reduceCtorEq] at hstep
    obtain rfl := hs.read _ hsealer
    cases hstep
    exact .readRows
  | commitSeal =>
    have hseal := Moved.commitSeal (h := h) (s := s)
    cases hsealer : s.sealer <;> simp only [System.step, hsealer, reduceCtorEq] at hstep
    cases hstep
    rwa [System.chain, hsealer] at hseal

/-- **Every move keeps the tables sound.** -/
theorem Sound.step [DecidableEq τ] (hs : Sound h s) (hstep : s.step h u m = some t) :
    Sound h t := by
  cases hs.moved hstep with
  | write tx body => exact hs.writer (hs.distinct.append tx 0 body) fun _ hrow => hrow
  | commit tx => exact hs.writer (hs.distinct.commit tx) fun _ hrow => mem_append_left _ hrow
  | rollback tx => exact hs.writer (hs.distinct.rollback tx) fun _ hrow => hrow
  | readHead =>
    exact ⟨hs.distinct, hs.links_ordered, hs.visible_links, fun top htop => by cases htop; rfl⟩
  | readRows =>
    refine ⟨hs.distinct, hs.ordered_append, fun l hl => ?_, fun top htop => by cases htop⟩
    rcases mem_append.mp hl with hl | hl
    · exact hs.visible_links l hl
    · obtain ⟨row, hrow, heq⟩ := exists_row_of_mem_linkRows hl
      exact ⟨row, (mem_rowsAfter.mp hrow).1, heq⟩
  | commitSeal => exact ⟨hs.distinct, hs.ordered, hs.visible, fun top htop => by cases htop⟩
  | abortSeal =>
    exact ⟨hs.distinct, hs.links_ordered, hs.visible_links, fun top htop => by cases htop⟩

/-! ## False alarms -/

/-- The whole chain checks. -/
def Verified (h : Hashing) (s : System τ) : Prop :=
  walk h s.log.committed none genesis s.chain = none

theorem rowAt_append {more : List AuditEvent}
    (hrow : rowAt rows seq = some row) : rowAt (rows ++ more) seq = some row := by
  rw [rowAt] at hrow
  rw [rowAt, find?_append, hrow, Option.some_or]

/-- A seal extends a chain that checks to one that does exactly if no number is missing. -/
theorem Sound.walk_newLinks (hs : Sound h s)
    (hlinks : walk h s.log.committed none genesis s.links = none) :
    walk h s.log.committed none genesis (s.links ++ s.newLinks h) = none ↔
      Dense s u .readRows := by
  have hhash : (s.links.getLast?.map (·.rowHash)).getD genesis = (head s.links).2 := by
    rw [head_eq_last hs.links_ordered, last]
    cases s.links.getLast? <;> rfl
  have hat : ∀ row ∈ rowsAfter s.log.committed (head s.links).1,
      rowAt s.log.committed row.seq = some row :=
    fun row hrow => rowAt_of_mem hs.distinct.nodup_committed (mem_rowsAfter.mp hrow).1
  rw [walk_append, hhash, System.newLinks, walk_linkRows hat, Option.or_none]
  exact ⟨fun hw _ => hw.2, fun hd => ⟨hlinks, hd rfl⟩⟩

theorem Verified.links (hv : Verified h s) :
    walk h s.log.committed none genesis s.links = none := by
  unfold Verified System.chain at hv
  split at hv
  · exact (walk_append.mp hv).1
  · exact hv

/-- **A move keeps the chain verified as long as no seal meets a gap.** -/
theorem Verified.step [DecidableEq τ] (hs : Sound h s) (hv : Verified h s) (hdense : Dense s u m)
    (hstep : s.step h u m = some t) : Verified h t := by
  cases hs.moved hstep with
  | write | rollback => exact hv
  | commit tx => exact walk_mono (fun _ _ => rowAt_append) hv
  | readHead | abortSeal => exact hv.links
  | readRows => exact (hs.walk_newLinks hv.links).mpr hdense
  | commitSeal => exact hv

/-- **There is no false alarm exactly as long as no seal meets a gap.**  In every run in which the
rows that a seal reads continue the chain without a missing number, the check succeeds.  A seal
that reads rows with a gap, and commits, makes it fail. -/
theorem no_false_alarm_iff_dense [DecidableEq τ] (h : Hashing) (s : System τ)
    (hrun : ReflTransGen (Turn (System.step h) Dense) .start s) :
    (verify h s.log.committed s.links none).ok = true ∧
      ∀ t, ¬ Dense s () .readRows →
        execute (System.step h) s [((), .readRows), ((), .commitSeal)] = some t →
        (verify h t.log.committed t.links none).ok = false := by
  obtain ⟨hs, hv⟩ := Turn.invariant (P := fun s => Sound h s ∧ Verified h s)
    (fun _ _ _ _ ih hdense hstep => ⟨ih.1.step hstep, ih.2.step ih.1 hdense hstep⟩)
    ⟨.start, rfl⟩ hrun
  refine ⟨(verify_ok_iff hs.links_ordered).mpr hv.links, fun t hgap hexec => ?_⟩
  cases hsealer : s.sealer with
  | idle | rowsRead new => simp [execute, System.step, hsealer] at hexec
  | headRead top =>
    obtain rfl := hs.read top hsealer
    simp only [execute, System.step, hsealer, Option.some.injEq] at hexec
    subst hexec
    refine Bool.eq_false_of_not_eq_true fun hok => hgap ?_
    exact (hs.walk_newLinks hv.links).mp ((verify_ok_iff hs.ordered_append).mp hok)

/-- A writer inserts a row and commits. -/
def loginMoves : List (Unit × Move ℕ) :=
  [((), .write 1 (auditRow 1 "LOGIN").body), ((), .commit 1)]

theorem no_false_alarm_login :
    ∃ s : System ℕ, execute (System.step .plain) .start (loginMoves ++ sealMoves) = some s ∧
      s.links.map (·.seq) = [1] ∧ (verify .plain s.log.committed s.links none).ok = true := by
  refine ⟨_, rfl, rfl,
    (no_false_alarm_iff_dense .plain _ (run_of_allows (loginMoves ++ sealMoves) rfl ?_)).1⟩
  refine ⟨nofun, nofun, nofun, fun _ => ?_, nofun, trivial⟩
  exact ⟨nofun, trivial⟩

/-- The second of three writers rolls back, and its number is reported as missing. -/
theorem rolled_back_number_alarms :
    ∃ s : System ℕ, execute (System.step .plain) .start
        (loginMoves ++ [((), .write 2 (auditRow 2 "LOGIN").body), ((), .rollback 2),
          ((), .write 3 (auditRow 3 "LOGOUT").body), ((), .commit 3)] ++ sealMoves) = some s ∧
      (verify .plain s.log.committed s.links none).ok = false ∧
      (verify .plain s.log.committed s.links none).firstBadSeq = some 3 := by
  refine ⟨_, rfl, ?_, ?_⟩ <;> decide

/-! ## Rows that are never sealed -/

/-- The links cover the log: every visible row up to the last link has one, and every row that
can still become visible lies above. -/
structure Covers (links : List ChainLink) (log : Log τ AuditBody) : Prop where
  issued : (last links).1 < log.next
  covered : ∀ row ∈ log.committed, row.seq ≤ (last links).1 → ∃ l ∈ links, l.seq = row.seq
  above : ∀ u ∈ log.uncommitted, (last links).1 < u.2.seq

namespace Covers

variable {links : List ChainLink}

theorem write (hc : Covers links log) (tx : τ) (body : AuditBody) :
    Covers links (log.appendEvent tx 0 body) := by
  have hissued := hc.issued
  refine ⟨?_, hc.covered, fun u hu => ?_⟩
  · change (last links).1 < log.next + (0 : ℕ) + 1
    omega
  · rcases mem_append.mp hu with hu | hu
    · exact hc.above u hu
    · rw [mem_singleton.mp hu]
      change (last links).1 < log.next + (0 : ℕ)
      omega

theorem commit [DecidableEq τ] (hc : Covers links log) (tx : τ) : Covers links (log.commit tx) := by
  refine ⟨hc.issued, fun row hrow hle => ?_, fun u hu => hc.above u (mem_filter.mp hu).1⟩
  rcases Log.mem_committed_commit hrow with hrow | ⟨u, hu, rfl⟩
  · exact hc.covered row hrow hle
  · exact absurd hle (not_le.mpr (hc.above u hu))

theorem rollback [DecidableEq τ] (hc : Covers links log) (tx : τ) :
    Covers links (log.rollback tx) :=
  ⟨hc.issued, hc.covered, fun u hu => hc.above u (mem_filter.mp hu).1⟩

end Covers

theorem last_append_linkRows (links : List ChainLink) (prev : String) (rows : List AuditEvent) :
    rows = [] ∧ last (links ++ linkRows h prev rows) = last links ∨
      ∃ row ∈ rows, (last (links ++ linkRows h prev rows)).1 = row.seq := by
  rcases eq_nil_or_concat rows with rfl | ⟨init, final, rfl⟩
  · exact .inl ⟨rfl, by simp [linkRows]⟩
  · right
    rw [concat_eq_append]
    refine ⟨final, by simp, ?_⟩
    have hseqs := map_seq_linkRows (h := h) prev (init ++ [final])
    rcases eq_nil_or_concat (linkRows h prev (init ++ [final])) with hnil | ⟨most, top, heq⟩
    · simp [hnil] at hseqs
    · rw [heq, concat_eq_append, map_append, map_append] at hseqs
      have htop : top.seq = final.seq := by simpa using (append_inj_right' hseqs rfl)
      rw [heq, concat_eq_append, ← append_assoc]
      simp [last, htop]

theorem Covers.exists_link (hs : Sound h s) (hc : Covers s.links s.log)
    (hrow : row ∈ s.log.committed) : ∃ l ∈ s.links ++ s.newLinks h, l.seq = row.seq := by
  by_cases hle : row.seq ≤ (last s.links).1
  · obtain ⟨l, hl, hseq⟩ := hc.covered row hrow hle
    exact ⟨l, mem_append_left _ hl, hseq⟩
  · have hmem : row ∈ rowsAfter s.log.committed (head s.links).1 := by
      rw [head_eq_last hs.links_ordered]
      exact mem_rowsAfter.mpr ⟨hrow, not_le.mp hle⟩
    obtain ⟨l, hl, hseq, -⟩ := exists_link_of_mem (h := h) (head s.links).2 hmem
    exact ⟨l, mem_append_right _ hl, hseq⟩

theorem Covers.newLinks (hs : Sound h s) (hc : Covers s.links s.log)
    (hset : Settled s u .readRows) :
    Covers (s.links ++ s.newLinks h) s.log := by
  rcases last_append_linkRows s.links (head s.links).2
    (rowsAfter s.log.committed (head s.links).1) with ⟨-, heq⟩ | ⟨row, hrow, heq⟩
  · exact ⟨heq ▸ hc.issued, fun row hrow _ => hc.exists_link hs hrow,
      fun u hu => heq ▸ hc.above u hu⟩
  · obtain ⟨hvis, habove⟩ := mem_rowsAfter.mp hrow
    exact ⟨heq ▸ hs.distinct.below row (Log.mem_rows_committed hvis),
      fun row hrow _ => hc.exists_link hs hrow, fun u hu => heq ▸ hset rfl row hvis habove u hu⟩

/-- The committed links cover the log, and so do those that are about to be. -/
def Covered (s : System τ) : Prop := Covers s.links s.log ∧ Covers s.chain s.log

theorem Covered.start : Covered (System.start : System τ) := by
  have hc : Covers [] (System.start : System τ).log :=
    ⟨Int.one_pos, fun _ hrow => (by cases hrow), fun _ hu => (by cases hu)⟩
  exact ⟨hc, hc⟩

/-- **A move keeps the log covered as long as each seal meets a settled log.** -/
theorem Covered.step [DecidableEq τ] (hs : Sound h s) (hc : Covered s) (hset : Settled s u m)
    (hstep : s.step h u m = some t) : Covered t := by
  obtain ⟨hlinks, hchain⟩ := hc
  cases hs.moved hstep with
  | write tx body => exact ⟨hlinks.write tx body, hchain.write tx body⟩
  | commit tx => exact ⟨hlinks.commit tx, hchain.commit tx⟩
  | rollback tx => exact ⟨hlinks.rollback tx, hchain.rollback tx⟩
  | readHead | abortSeal => exact ⟨hlinks, hlinks⟩
  | readRows =>
    have hnew := hlinks.newLinks hs hset
    exact ⟨hlinks, hnew⟩
  | commitSeal => exact ⟨hchain, hchain⟩

theorem Sound.run [DecidableEq τ] (hs : Sound h s)
    (hrun : ReflTransGen (AnyTurn (System.step h)) s t) : Sound h t :=
  Turn.invariant (fun _ _ _ _ ih _ hstep => ih.step hstep) hs hrun

/-- A seal that runs to its end links the rows above the head. -/
theorem execute_sealMoves [DecidableEq τ] :
    execute (System.step h) s sealMoves = some t ↔ s.sealer = .idle ∧ t = { s with
      links := s.links ++ s.newLinks h, sealer := .idle } := by
  cases hsealer : s.sealer with
  | idle => simp [execute, sealMoves, System.step, System.newLinks, hsealer, eq_comm]
  | headRead top | rowsRead new => simp [execute, sealMoves, System.step, hsealer]

/-- All open transactions can commit, and their rows are visible then. -/
theorem exists_all_committed [DecidableEq τ] (s : System τ) :
    ∃ t : System τ, ReflTransGen (AnyTurn (System.step h)) s t ∧
      t.log.uncommitted = [] ∧ t.links = s.links ∧ t.sealer = s.sealer ∧
      ∀ row ∈ s.log.rows, row ∈ t.log.committed := by
  -- on the number of open rows: the transaction of the first one commits
  induction hn : s.log.uncommitted.length using Nat.strong_induction_on generalizing s with
  | _ n ih =>
    cases hopen : s.log.uncommitted with
    | nil =>
      refine ⟨s, .refl, hopen, rfl, rfl, fun row hrow => ?_⟩
      simpa [Log.rows, hopen] using hrow
    | cons first rest =>
      let s' : System τ := { s with log := s.log.commit first.1 }
      have hfewer : s'.log.uncommitted.length < n := by
        have hle := length_filter_le (fun u => !decide (u.1 = first.1)) rest
        simp [s', Log.commit, hopen] at hn ⊢
        omega
      obtain ⟨t, hrun, hnone, hlinks, hsealer, hkeep⟩ := ih _ hfewer s' rfl
      have hmove : AnyTurn (System.step h) s s' := ⟨(), .commit first.1, trivial, rfl⟩
      exact ⟨t, .head hmove hrun, hnone, hlinks, hsealer,
        fun row hrow => hkeep row ((Log.rows_commit first.1).mem_iff.mpr hrow)⟩

/-- After a seal that overtakes an open row, the row commits too late. -/
theorem exists_unsealed [DecidableEq τ] (hs : Sound h s) (hopen : ¬ Settled s () .readRows)
    {read : System τ} (hread : s.step h () .readRows = some read) :
    ∃ r t, ReflTransGen (AnyTurn (System.step h)) read r ∧
      r.log.uncommitted = [] ∧ execute (System.step h) r sealMoves = some t ∧
      ∃ row ∈ t.log.committed, ∀ l ∈ t.links, l.seq ≠ row.seq := by
  have hsread : Sound h read := hs.step hread
  cases hs.moved hread
  simp only [Settled, forall_const, not_forall, not_lt] at hopen
  obtain ⟨row, hrow, habove, u, hu, hle⟩ := hopen
  -- the seal commits, and then every open transaction
  let sealed : System τ := { s with links := s.links ++ s.newLinks h, sealer := .idle }
  have hrun : ReflTransGen (AnyTurn (System.step h))
      { s with sealer := .rowsRead (s.newLinks h) } sealed :=
    .single ⟨(), .commitSeal, trivial, rfl⟩
  obtain ⟨r, hrun', hnone, hlinks, hidle, hkeep⟩ := exists_all_committed (h := h) sealed
  have hr : Sound h r := hsread.run (hrun.trans hrun')
  have hlast : u.2.seq ≤ (last r.links).1 := by
    obtain ⟨l, hl, hseq, -⟩ := exists_link_of_mem (h := h) (head s.links).2
      (mem_rowsAfter.mpr ⟨hrow, habove⟩)
    rw [hlinks]
    exact hle.trans (hseq ▸ le_last hs.ordered_append (mem_append_right _ hl))
  refine ⟨r, _, hrun.trans hrun', hnone, execute_sealMoves.mpr ⟨hidle, rfl⟩,
    u.2, hkeep _ (mem_append_right _ (mem_map_of_mem hu)), fun l hl hseq => ?_⟩
  rcases mem_append.mp hl with hl | hl
  · -- the links of the first seal belong to rows that were visible
    rw [hlinks] at hl
    obtain ⟨row', hrow', hseq', -⟩ := (hsread.run hrun).visible l hl
    exact hs.distinct.disjoint hrow' hu (hseq'.trans hseq)
  · -- those of the last seal lie above the head
    obtain ⟨row', hrow', hseq', -⟩ := exists_row_of_mem_linkRows hl
    have hlt := (mem_rowsAfter.mp hrow').2
    rw [head_eq_last hr.links_ordered] at hlt
    omega

/-- **Every row is sealed as long as each seal meets a settled log.**  In every run in which no seal
reads rows while an open transaction holds a number below one of them, one more seal without open
transactions leaves no visible row without its link.  After a seal that has read its rows while one
does, the run can go on so that a row is never linked. -/
theorem all_sealed_of_settled [DecidableEq τ] (h : Hashing) (s : System τ)
    (hrun : ReflTransGen (Turn (System.step h) Settled) .start s) :
    (∀ t, s.log.uncommitted = [] → execute (System.step h) s sealMoves = some t →
      ∀ row ∈ t.log.committed, ∃ l ∈ t.links, l.seq = row.seq ∧ l.auditEventId = row.body.id) ∧
      ∀ read, ¬ Settled s () .readRows → s.step h () .readRows = some read →
        ∃ r t, ReflTransGen (AnyTurn (System.step h)) read r ∧
          r.log.uncommitted = [] ∧ execute (System.step h) r sealMoves = some t ∧
          ∃ row ∈ t.log.committed, ∀ l ∈ t.links, l.seq ≠ row.seq := by
  obtain ⟨hs, hc⟩ := Turn.invariant (P := fun s => Sound h s ∧ Covered s)
    (fun _ _ _ _ ih hset hstep => ⟨ih.1.step hstep, ih.2.step ih.1 hset hstep⟩)
    ⟨.start, .start⟩ hrun
  refine ⟨fun t hnone hexec row hrow => ?_, fun read hopen hread => ?_⟩
  · obtain ⟨-, rfl⟩ := execute_sealMoves.mp hexec
    obtain ⟨l, hl, hseq⟩ := hc.1.exists_link hs hrow
    obtain ⟨row', hrow', hseq', hid⟩ := (hs.run (run_of_execute hexec)).visible l hl
    obtain rfl : row' = row :=
      inj_on_of_nodup_map hs.distinct.nodup_committed hrow' hrow (hseq'.trans hseq)
    exact ⟨l, hl, hseq, hid.symm⟩
  · exact exists_unsealed hs hopen hread

/-- A transaction takes the first number, a second one overtakes it and is sealed. -/
theorem overtaken_row_unsealed :
    ∃ s t : System ℕ,
      execute (System.step .plain) .start
        ([((), .write 1 (auditRow 1 "LOGIN").body), ((), .write 2 (auditRow 2 "LOGOUT").body),
          ((), .commit 2)] ++ sealMoves ++ [((), .commit 1)]) = some s ∧
      s.log.uncommitted = [] ∧ execute (System.step .plain) s sealMoves = some t ∧
      t.log.committed.map (·.seq) = [2, 1] ∧ t.links.map (·.seq) = [2] := by
  refine ⟨_, _, rfl, rfl, rfl, rfl, rfl⟩

/-- One row is written and sealed, and the seal is run once more. -/
theorem all_sealed_of_settled_login :
    ∃ s t : System ℕ, execute (System.step .plain) .start (loginMoves ++ sealMoves) = some s ∧
      execute (System.step .plain) s sealMoves = some t ∧
      ∀ row ∈ t.log.committed, ∃ l ∈ t.links, l.seq = row.seq ∧ l.auditEventId = row.body.id := by
  refine ⟨_, _, rfl, rfl, (all_sealed_of_settled .plain _
    (run_of_allows (loginMoves ++ sealMoves) rfl ?_)).1 _ rfl rfl⟩
  refine ⟨nofun, nofun, nofun, fun _ _ _ _ u hu => ?_, nofun, trivial⟩
  cases hu

end BbzPlatform.Audit

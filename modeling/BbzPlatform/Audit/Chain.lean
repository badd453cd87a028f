import BbzPlatform.EventLog.Stream
import BbzPlatform.Json

/-!
# The hash chain of the audit log

A worker seals audit rows into links.  A link carries the number of its row, the hash of the link
before it, and a hash over that hash and the digest of the row.  `verify` walks the links in the
order of their numbers and recomputes every hash from the rows as they are.

The rows are numbered by an identity column like those of the event log, so the log of
`BbzPlatform.EventLog` is used for them.  The hash function and the canonical text of a row are
parameters.
-/

namespace BbzPlatform.Audit

open List
open EventLog (DomainEvent Log)

/-- The hashed fields of a row besides its number. -/
structure AuditFields where
  occurredAtUtc : ℤ
  nodeId : String
  action : String
  actorUserId : Option String := none
  actorClientId : Option String := none
  workplaceId : Option String := none
  targetType : Option String := none
  targetId : Option String := none
  before : Option (List (String × Json)) := none
  after : Option (List (String × Json)) := none
  reason : Option String := none
  correlationId : Option String := none
  eventSeqRef : Option ℤ := none
  deriving DecidableEq

/-- A row besides its number.  The id is not hashed. -/
structure AuditBody where
  id : String
  fields : AuditFields
  deriving DecidableEq

/-- A row of `audit_events`. -/
abbrev AuditEvent := DomainEvent AuditBody

/-- A row of `audit_chain_links`. -/
structure ChainLink where
  seq : ℤ
  auditEventId : String
  prevHash : String
  rowHash : String
  deriving DecidableEq, Repr

/-- The hash function, as hex digits of the hash of a text, and the canonical JSON of a row. -/
structure Hashing where
  sha256 : String → String
  dumps : ℤ → AuditFields → String

namespace Hashing

variable (h : Hashing)

/-- `_row_digest`. -/
def rowDigest (row : AuditEvent) : String := h.sha256 (h.dumps row.seq row.body.fields)

/-- `_link_hash`. -/
def linkHash (prevHash rowDigest : String) : String := h.sha256 (prevHash ++ rowDigest)

end Hashing

/-- `"0" * 64`. -/
def genesis : String := String.ofList (replicate 64 '0')

/-! ## Sealing -/

/-- The number and the hash of the last link. -/
def head (links : List ChainLink) : ℤ × String :=
  match links.insertionSort fun a b => b.seq ≤ a.seq with
  | [] => (0, genesis)
  | l :: _ => (l.seq, l.rowHash)

/-- The rows above a number, in the order of their numbers. -/
def rowsAfter (rows : List AuditEvent) (seq : ℤ) : List AuditEvent :=
  (rows.filter (seq < ·.seq)).insertionSort fun a b => a.seq ≤ b.seq

def linkRows (h : Hashing) : String → List AuditEvent → List ChainLink
  | _, [] => []
  | prev, row :: rows =>
    let rowHash := h.linkHash prev (h.rowDigest row)
    ⟨row.seq, row.body.id, prev, rowHash⟩ :: linkRows h rowHash rows

/-- The links that `seal` adds. -/
def newLinks (h : Hashing) (rows : List AuditEvent) (links : List ChainLink) : List ChainLink :=
  linkRows h (head links).2 (rowsAfter rows (head links).1)

/-- `SealResult`. -/
structure SealResult where
  sealedRows : ℕ
  headSeq : ℤ
  headHash : String
  deriving DecidableEq, Repr

/-- What `seal` returns: the number of new links and the new head. -/
def sealResult (h : Hashing) (rows : List AuditEvent) (links : List ChainLink) : SealResult :=
  let new := newLinks h rows links
  match new.getLast? with
  | none => ⟨0, (head links).1, (head links).2⟩
  | some l => ⟨new.length, l.seq, l.rowHash⟩

/-! ## Verifying -/

/-- `VerifyResult`. -/
structure VerifyResult where
  ok : Bool
  checked : ℤ
  headSeq : ℤ
  headHash : String
  firstBadSeq : Option ℤ := none
  detail : Option String := none
  deriving DecidableEq, Repr

/-- `_bad`. -/
def bad (seq : ℤ) (detail headHash : String) : VerifyResult :=
  ⟨false, seq, seq, headHash, some seq, some detail⟩

/-- The row with a number; numbers are unique. -/
def rowAt (rows : List AuditEvent) (seq : ℤ) : Option AuditEvent := rows.find? (·.seq = seq)

/-- The loop of `verify`: what it reports at the first link that does not check. -/
def walk (h : Hashing) (rows : List AuditEvent) :
    Option ℤ → String → List ChainLink → Option VerifyResult
  | _, _, [] => none
  | expected, prev, l :: links =>
    match expected.filter (l.seq ≠ ·) with
    | some e => some (bad l.seq
        ("seq gap: expected " ++ toString e ++ ", got " ++ toString l.seq) prev)
    | none =>
      if l.prevHash ≠ prev then
        some (bad l.seq "prev_hash does not match the previous link" prev)
      else match rowAt rows l.seq with
        | none => some (bad l.seq "the audit row for this link has vanished" prev)
        | some row =>
          if h.linkHash prev (h.rowDigest row) ≠ l.rowHash then
            some (bad l.seq "row content no longer hashes to row_hash" prev)
          else walk h rows (some (l.seq + 1)) l.rowHash links

/-- The links in the order of their numbers, at most `limit`. -/
def sortedLinks (links : List ChainLink) (limit : Option ℕ) : List ChainLink :=
  let sorted := links.insertionSort fun a b => a.seq ≤ b.seq
  match limit with
  | none => sorted
  | some n => sorted.take n

/-- Walk the chain and recompute every hash. -/
def verify (h : Hashing) (rows : List AuditEvent) (links : List ChainLink) (limit : Option ℕ) :
    VerifyResult :=
  let links := sortedLinks links limit
  match walk h rows none genesis links with
  | some result => result
  | none =>
    match links.getLast? with
    | none => ⟨true, 0, 0, genesis, none, none⟩
    | some l => ⟨true, links.length, l.seq, l.rowHash, none, none⟩

/-! ## The walk -/

variable {rows old : List AuditEvent} {expected : Option ℤ} {prev : String} {l : ChainLink}
  {links : List ChainLink} {row : AuditEvent}

section Walk

variable {h : Hashing}

structure Checks (h : Hashing) (rows : List AuditEvent) (expected : Option ℤ) (prev : String)
    (l : ChainLink) : Prop where
  next : ∀ e ∈ expected, l.seq = e
  linked : l.prevHash = prev
  row : ∃ row ∈ rowAt rows l.seq, h.linkHash prev (h.rowDigest row) = l.rowHash

/-- **The walk goes past a link that checks, and stops at one that does not.** -/
theorem walk_cons (h : Hashing) (rows : List AuditEvent) (expected : Option ℤ) (prev : String)
    (l : ChainLink) (links : List ChainLink) : (Checks h rows expected prev l ∧
      walk h rows expected prev (l :: links) = walk h rows (some (l.seq + 1)) l.rowHash links) ∨
    (¬ Checks h rows expected prev l ∧
      ∃ detail, walk h rows expected prev (l :: links) = some (bad l.seq detail prev)) := by
  rw [walk]
  cases hgap : expected.filter (l.seq ≠ ·) with
  | some e =>
    obtain ⟨he, hne⟩ := Option.filter_eq_some_iff.mp hgap
    refine .inr ⟨fun hc => ?_, _, rfl⟩
    simp [hc.next e he] at hne
  | none =>
    have hnext : ∀ e ∈ expected, l.seq = e := by
      intro e he
      by_contra hne
      have := Option.filter_eq_none_iff.mp hgap e he
      simp [hne] at this
    simp only
    by_cases hprev : l.prevHash = prev
    · rw [if_neg (by simp [hprev])]
      cases hrow : rowAt rows l.seq with
      | none =>
        refine .inr ⟨fun hc => ?_, _, rfl⟩
        obtain ⟨row, hmem, -⟩ := hc.row
        rw [hrow] at hmem
        cases hmem
      | some row =>
        by_cases hhash : h.linkHash prev (h.rowDigest row) = l.rowHash
        · exact .inl ⟨⟨hnext, hprev, row, hrow, hhash⟩, by simp [hhash]⟩
        · refine .inr ⟨fun hc => ?_, "row content no longer hashes to row_hash", by simp [hhash]⟩
          obtain ⟨row', hmem, hhash'⟩ := hc.row
          rw [hrow] at hmem
          cases hmem
          exact hhash hhash'
    · refine .inr ⟨fun hc => hprev hc.linked, "prev_hash does not match the previous link", ?_⟩
      simp [hprev]

theorem walk_stops (expected : Option ℤ) (prev : String)
    (hsorted : links.Pairwise fun a b => a.seq ≤ b.seq) (hl : l ∈ links)
    (hbad : ∀ expected prev, ¬ Checks h rows expected prev l) :
    ∃ seq detail prev', walk h rows expected prev links = some (bad seq detail prev') ∧
      seq ≤ l.seq := by
  induction links generalizing expected prev with
  | nil => cases hl
  | cons first links ih =>
    obtain ⟨hfirst, hrest⟩ := pairwise_cons.mp hsorted
    rcases walk_cons h rows expected prev first links with ⟨hc, heq⟩ | ⟨-, detail, heq⟩
    · rcases mem_cons.mp hl with rfl | hl
      · exact absurd hc (hbad expected prev)
      · rw [heq]
        exact ih _ _ hrest hl
    · refine ⟨first.seq, detail, prev, heq, ?_⟩
      rcases mem_cons.mp hl with rfl | hl
      · exact le_rfl
      · exact hfirst l hl

end Walk

/-! ## Tampering -/

/-- The chains that calls of `seal` build, each on the rows of its time, with the rows that were
sealed. -/
inductive Built (h : Hashing) : List ChainLink → List AuditEvent → Prop where
  | nil : Built h [] []
  | again {links : List ChainLink} {old : List AuditEvent} (hb : Built h links old)
      (rows : List AuditEvent) :
      Built h (links ++ newLinks h rows links) (old ++ rowsAfter rows (head links).1)

section Tampering

variable {h : Hashing}

theorem exists_link_of_mem (prev : String) (hrow : row ∈ rows) :
    ∃ l ∈ linkRows h prev rows, l.seq = row.seq ∧
      l.rowHash = h.linkHash l.prevHash (h.rowDigest row) := by
  induction rows generalizing prev with
  | nil => cases hrow
  | cons first rows ih =>
    rcases mem_cons.mp hrow with rfl | hrow
    · exact ⟨_, mem_cons_self, rfl, rfl⟩
    · obtain ⟨l, hl, hspec⟩ := ih _ hrow
      exact ⟨l, mem_cons_of_mem _ hl, hspec⟩

theorem Built.exists_link (hb : Built h links old) (hrow : row ∈ old) :
    ∃ l ∈ links, l.seq = row.seq ∧ l.rowHash = h.linkHash l.prevHash (h.rowDigest row) := by
  induction hb with
  | nil => cases hrow
  | again hb rows ih =>
    rcases mem_append.mp hrow with hrow | hrow
    · obtain ⟨l, hl, hspec⟩ := ih hrow
      exact ⟨l, mem_append_left _ hl, hspec⟩
    · obtain ⟨l, hl, hspec⟩ := exists_link_of_mem _ hrow
      exact ⟨l, mem_append_right _ hl, hspec⟩

/-- The row was deleted, or a hashed field differs. -/
def Affected (rows : List AuditEvent) (row : AuditEvent) : Prop :=
  ∀ now ∈ rowAt rows row.seq, now.body.fields ≠ row.body.fields

instance : Std.Total fun a b : ChainLink => a.seq ≤ b.seq := ⟨fun a b => le_total a.seq b.seq⟩

instance : IsTrans ChainLink fun a b => a.seq ≤ b.seq := ⟨fun _ _ _ => le_trans⟩

theorem Affected.not_checks (hsha : Function.Injective h.sha256)
    (hdumps : ∀ now ∈ rows, h.dumps row.seq row.body.fields = h.dumps now.seq now.body.fields →
      now.body.fields = row.body.fields) (haff : Affected rows row) (hseq : l.seq = row.seq)
    (hhash : l.rowHash = h.linkHash l.prevHash (h.rowDigest row)) (expected : Option ℤ)
    (prev : String) : ¬ Checks h rows expected prev l := by
  intro hc
  obtain ⟨now, hnow, heq⟩ := hc.row
  rw [hseq] at hnow
  rw [hhash, hc.linked] at heq
  -- both hashes start from the same text, so the digests are equal
  have hdigest : h.rowDigest now = h.rowDigest row := (String.append_right_inj prev).mp (hsha heq)
  have htext := hsha hdigest
  exact haff now hnow (hdumps now (mem_of_find?_eq_some hnow) htext.symm)

/-- **Tampering with a sealed row is detected.**  If the hash is injective and the canonical text
tells the sealed rows from those in the table, the check of a chain fails at or before every row
that was deleted or changed since it was sealed. -/
theorem tampering_detected (hsha : Function.Injective h.sha256) (hdumps : ∀ row ∈ old, ∀ now ∈ rows,
      h.dumps row.seq row.body.fields = h.dumps now.seq now.body.fields →
      now.body.fields = row.body.fields)
    (hb : Built h links old) (hrow : row ∈ old) (haff : Affected rows row) :
    (verify h rows links none).ok = false ∧
      ∃ seq ∈ (verify h rows links none).firstBadSeq, seq ≤ row.seq := by
  obtain ⟨l, hl, hseq, hhash⟩ := hb.exists_link hrow
  have hmem : l ∈ sortedLinks links none := (perm_insertionSort _ _).mem_iff.mpr hl
  obtain ⟨seq, detail, prev, hwalk, hle⟩ := walk_stops none genesis
    (pairwise_insertionSort (fun a b : ChainLink => a.seq ≤ b.seq) links) hmem
    (haff.not_checks hsha (hdumps row hrow) hseq hhash)
  have hverify : verify h rows links none = bad seq detail prev := by
    simp only [verify, sortedLinks, hwalk]
  rw [hverify]
  exact ⟨rfl, seq, rfl, hseq ▸ hle⟩

end Tampering

/-- A hash that is the text itself, and rows told apart by their action. -/
def Hashing.plain : Hashing := ⟨id, fun _ fields => fields.action⟩

def auditRow (seq : ℤ) (action : String) : AuditEvent :=
  ⟨seq, ⟨"a", { occurredAtUtc := 0, nodeId := "n1", action := action }⟩⟩

/-- Two rows were sealed, one by one, and then the first was rewritten. -/
theorem tampering_detected_login :
    let first := newLinks .plain [auditRow 1 "LOGIN"] []
    let links := first ++ newLinks .plain [auditRow 1 "LOGIN", auditRow 2 "LOGOUT"] first
    let rows := [auditRow 1 "NOTHING", auditRow 2 "LOGOUT"]
    (verify .plain rows links none).ok = false ∧
      ∃ seq ∈ (verify .plain rows links none).firstBadSeq, seq ≤ 1 := by
  intro first links rows
  have hb : Built .plain links [auditRow 1 "LOGIN", auditRow 2 "LOGOUT"] :=
    (Built.nil.again [auditRow 1 "LOGIN"]).again [auditRow 1 "LOGIN", auditRow 2 "LOGOUT"]
  have hrow : auditRow 1 "LOGIN" ∈ [auditRow 1 "LOGIN", auditRow 2 "LOGOUT"] := mem_cons_self
  have haff : Affected rows (auditRow 1 "LOGIN") := by
    unfold Affected
    decide
  exact tampering_detected Function.injective_id (by decide) hb hrow haff

end BbzPlatform.Audit

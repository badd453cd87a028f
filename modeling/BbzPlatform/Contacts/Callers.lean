import BbzPlatform.Events.Aggregate
import Mathlib.Data.List.DropRight
import Mathlib.Tactic.Linarith

/-!
# Callers

The number of a caller is brought to the international form, in which the phone book stores numbers,
and the contact whose stored number fits it best is the caller.

All spellings of a German number have the same international form, and the form is a fixed point.
That a contact stores the number of the caller does not settle who calls: a longer number that ends
with the same digits fits it as well.

## Main definitions

* `normalizeNumber` — the international form of a number, or an extension.
* `score`, `matchRows` — how well a stored number fits, and the contact that is found.
* `PhoneBook.Stores` — a contact that is not deleted has the number.
-/

namespace BbzPlatform.Contacts

open List
open Events (isSpace)

abbrev Text := List Char

/-- The characters that `\d` matches: the decimal digits of Unicode, of which `0` to `9` are the
only ones in ASCII, and none of which is a space. -/
structure Digits where
  isDigit : Char → Bool
  ascii : ∀ c : Char, c.toNat < 128 → isDigit c = c.isDigit
  space : ∀ c, isDigit c = true → isSpace c = false

/-! ## Normalization -/

/-- `_SEPARATORS`. -/
def isSeparator (c : Char) : Bool := isSpace c || c ∈ ['(', ')', '/', '.', '-']

def scheme : Text := ['t', 'e', 'l', ':']

/-- `s[:4].lower() == "tel:"`: only `T`, `E` and `L` have a letter of it as their lower case. -/
def hasScheme (s : Text) : Bool := (s.take 4).map Char.toLower = scheme

def clean (raw : Text) : Text :=
  let s := (raw.dropWhile isSpace).rdropWhile isSpace
  (if hasScheme s then s.drop 4 else s).filter (!isSeparator ·)

structure Region where
  countryCode : Text
  trunk : Text
  intl : Text

def germany : Region := ⟨['4', '9'], ['0'], ['0', '0']⟩

/-- `_REGIONS`. -/
def regions : List (String × Region) := [("DE", germany)]

structure NumberParts where
  raw : Text
  e164 : Option Text
  extension : Option Text
  deriving DecidableEq

variable (digits : Digits)

/-- What a pattern with `$` at its end has to match: a last line feed may follow. -/
def upToEnd (s : Text) : Text := if s.getLast? = some '\n' then s.dropLast else s

/-- `^\+[1-9]\d{least,14}$`. -/
def shaped (least : ℕ) (s : Text) : Bool :=
  match upToEnd s with
  | plus :: first :: rest => plus = '+' && (first.isDigit && first ≠ '0') &&
      rest.all digits.isDigit && (least ≤ rest.length && rest.length ≤ 14)
  | _ => false

/-- `_valid`, with at least eight digits. -/
def valid (candidate : Text) : Option Text :=
  if shaped digits 7 candidate then some candidate else none

def normalizeNumber (raw : Text) (region : String) : NumberParts :=
  let r := (regions.lookup region).getD germany
  let cleaned := clean raw
  if ['+'] <+: cleaned then ⟨raw, valid digits cleaned, none⟩
  else if cleaned = [] ∨ upToEnd cleaned = [] ∨ !(upToEnd cleaned).all digits.isDigit then
    ⟨raw, none, none⟩
  else if r.intl <+: cleaned then
    ⟨raw, valid digits ('+' :: cleaned.drop r.intl.length), none⟩
  else if r.trunk <+: cleaned then
    ⟨raw, valid digits ('+' :: r.countryCode ++ cleaned.drop r.trunk.length), none⟩
  else if cleaned.length ≤ 6 then ⟨raw, none, some cleaned⟩
  else ⟨raw, none, none⟩

variable {digits} {raw s n e : Text} {region : String} {c : Char}

theorem regionOf (region : String) : (regions.lookup region).getD germany = germany := by
  rw [regions, lookup_cons]
  split <;> rfl

theorem filter_dropWhile {p q : Char → Bool} (h : ∀ c, p c = true → q c = false) (l : Text) :
    (l.dropWhile p).filter q = l.filter q := by
  induction l with
  | nil => rfl
  | cons c l ih =>
    rw [dropWhile_cons]
    split_ifs with hp
    · rw [ih, filter_cons_of_neg (by simp [h c hp])]
    · rfl

theorem filter_strip (s : Text) :
    ((s.dropWhile isSpace).rdropWhile isSpace).filter (!isSeparator ·) =
      s.filter (!isSeparator ·) := by
  have hspace : ∀ c, isSpace c = true → (!isSeparator c) = false := by
    simp +contextual [isSeparator]
  rw [rdropWhile, filter_reverse, filter_dropWhile hspace, ← filter_reverse,
    reverse_reverse, filter_dropWhile hspace]

theorem toLower_eq (h : c.toLower = 't') : c = 't' ∨ c = 'T' := by
  delta Char.toLower at h
  split at h
  · exact .inr (Char.ext ((UInt32.add_left_inj 32).mp (congrArg Char.val h)))
  · exact .inl h

theorem ne_of_isDigit {d : Char} (h : digits.isDigit c = true)
    (hd : d.toNat < 128 ∧ d.isDigit = false) : c ≠ d := by
  rintro rfl
  rw [digits.ascii c hd.1, hd.2] at h
  cases h

theorem isSeparator_of_isDigit (h : digits.isDigit c = true) : isSeparator c = false := by
  simp only [isSeparator, digits.space c h, Bool.false_or, decide_eq_false_iff_not]
  intro hmem
  obtain rfl | rfl | rfl | rfl | rfl : c = '(' ∨ c = ')' ∨ c = '/' ∨ c = '.' ∨ c = '-' := by
    simpa using hmem
  all_goals exact ne_of_isDigit h (by decide) rfl

theorem isDigit_of_ascii (h : c.isDigit = true) : digits.isDigit c = true := by
  have hle : c.val ≤ '9'.val := by simp_all [Char.isDigit]
  exact (digits.ascii c (Nat.lt_of_le_of_lt (UInt32.le_iff_toNat_le.mp hle) (by decide))).trans h

/-- Nothing but separators is taken from a text without letters. -/
theorem clean_eq (h : ∀ c ∈ s, c ≠ 't' ∧ c ≠ 'T') : clean s = s.filter (!isSeparator ·) := by
  have hscheme : hasScheme ((s.dropWhile isSpace).rdropWhile isSpace) = false := by
    have hfront := rdropWhile_prefix isSpace (l := s.dropWhile isSpace)
    have hsub := hfront.subset
    cases hs : (s.dropWhile isSpace).rdropWhile isSpace with
    | nil => rfl
    | cons c rest =>
      rw [hs] at hsub
      have hc := h c ((dropWhile_sublist _).subset (hsub mem_cons_self))
      simp only [hasScheme, take_succ_cons, map_cons, scheme, cons.injEq,
        decide_eq_false_iff_not]
      exact fun hlower => (toLower_eq hlower.1).elim hc.1 hc.2
  simp [clean, hscheme, filter_strip]

theorem clean_scheme (s : Text) : clean (scheme ++ s) = s.filter (!isSeparator ·) := by
  have hstrip : (scheme ++ s).rdropWhile isSpace = scheme ++ s.rdropWhile isSpace := by
    induction s using reverseRecOn with
    | nil => decide
    | append_singleton s c ih =>
      rw [← append_assoc, rdropWhile_concat, rdropWhile_concat, ih]
      split <;> simp
  have hdrop : (scheme ++ s).dropWhile isSpace = scheme ++ s := rfl
  have hscheme : ∀ l, hasScheme (scheme ++ l) = true := fun _ => rfl
  have hfilter := filter_strip (scheme ++ s)
  rw [hdrop, hstrip, filter_append, filter_append] at hfilter
  simp only [clean, hdrop, hstrip, hscheme, if_true]
  exact append_cancel_left hfilter

/-- A number is what the separators leave, with or without the scheme. -/
theorem clean_spelling {number : Text} (h : s.filter (!isSeparator ·) = number)
    (hnumber : ∀ c ∈ number, c = '+' ∨ digits.isDigit c = true) : clean s = number := by
  refine (clean_eq fun c hc => ?_).trans h
  cases hsep : isSeparator c with
  | true =>
    constructor <;>
    · rintro rfl
      revert hsep
      decide
  | false =>
    rcases hnumber c (h ▸ mem_filter.mpr ⟨hc, by simp [hsep]⟩) with rfl | hdigit
    · decide
    · exact ⟨ne_of_isDigit hdigit (by decide), ne_of_isDigit hdigit (by decide)⟩

/-- Without separators there is no last line feed. -/
theorem upToEnd_eq (h : ∀ c ∈ s, isSeparator c = false) : upToEnd s = s := by
  refine if_neg fun hlast => ?_
  have hline := h '\n' (mem_of_getLast? hlast)
  revert hline
  decide

theorem shaped_iff {least : ℕ} (h : ∀ c ∈ s, isSeparator c = false) :
    shaped digits least s = true ↔ ∃ first rest, s = '+' :: first :: rest ∧
      (first.isDigit = true ∧ first ≠ '0') ∧ (∀ c ∈ rest, digits.isDigit c = true) ∧
      least ≤ rest.length ∧ rest.length ≤ 14 := by
  rw [shaped, upToEnd_eq h]
  match s with
  | [] | [_] => simp
  | plus :: first :: rest => simp [and_assoc]

/-- What is returned as a number has the shape, and no separators. -/
theorem shaped_of_e164 (h : (normalizeNumber digits raw region).e164 = some e) :
    shaped digits 7 e = true ∧ ∀ c ∈ e, isSeparator c = false := by
  have hclean : ∀ c ∈ clean raw, isSeparator c = false := by
    intro c hc
    simpa using (mem_filter.mp hc).2
  have hvalid : ∀ {s : Text}, (∀ c ∈ s, isSeparator c = false) → valid digits s = some e →
      shaped digits 7 e = true ∧ ∀ c ∈ e, isSeparator c = false := by
    intro s hs hvalid
    rw [valid] at hvalid
    split at hvalid
    · cases hvalid
      exact ⟨‹_›, hs⟩
    · cases hvalid
  rw [normalizeNumber, regionOf] at h
  split at h
  · exact hvalid hclean h
  · split at h
    · cases h
    · split at h
      · refine hvalid (forall_mem_cons.mpr ⟨by decide, fun c hc => ?_⟩) h
        exact hclean c (mem_of_mem_drop hc)
      · split at h
        · refine hvalid (forall_mem_cons.mpr ⟨by decide, forall_mem_append.mpr
            ⟨by simp [germany, isSeparator, isSpace], fun c hc => ?_⟩⟩) h
          exact hclean c (mem_of_mem_drop hc)
        · split at h <;> cases h

theorem valid_germany (digits : Digits) (hn : ∀ c ∈ n, c.isDigit = true) :
    valid digits ('+' :: '4' :: '9' :: n) =
      if 8 ≤ n.length + 2 ∧ n.length + 2 ≤ 15 then some ('+' :: '4' :: '9' :: n) else none := by
  have hdigits : ∀ c ∈ '9' :: n, digits.isDigit c = true :=
    forall_mem_cons.mpr ⟨isDigit_of_ascii rfl, fun c hc => isDigit_of_ascii (hn c hc)⟩
  have hsep : ∀ c ∈ '+' :: '4' :: '9' :: n, isSeparator c = false :=
    forall_mem_cons.mpr ⟨by decide, forall_mem_cons.mpr ⟨by decide, fun c hc =>
      isSeparator_of_isDigit (hdigits c hc)⟩⟩
  refine if_congr ((shaped_iff hsep).trans ⟨?_, fun ⟨hmin, hmax⟩ => ?_⟩) rfl rfl
  · rintro ⟨first, rest, ⟨⟩, -, -, hmin, hmax⟩
    rw [length_cons] at hmin hmax
    omega
  · refine ⟨'4', '9' :: n, rfl, by decide, hdigits, ?_⟩
    rw [length_cons]
    omega

/-- **All spellings of a number normalise alike, and the result is a fixed point.** -/
theorem normalizeNumber_spellings (digits : Digits) :
    (∀ n : Text, (∀ c ∈ n, c.isDigit = true) → n.head? ≠ some '0' →
      ∀ lead ∈ [['+', '4', '9'], ['0', '0', '4', '9'], ['0']],
      ∀ spelling : Text, spelling.filter (!isSeparator ·) = lead ++ n →
      ∀ raw ∈ [spelling, scheme ++ spelling],
        normalizeNumber digits raw "DE" = ⟨raw, if 8 ≤ n.length + 2 ∧ n.length + 2 ≤ 15 then
          some (['+', '4', '9'] ++ n) else none, none⟩) ∧
    ∀ raw region e, (normalizeNumber digits raw region).e164 = some e →
      shaped digits 1 e = true ∧ (normalizeNumber digits e region).e164 = some e := by
  refine ⟨fun n hn hzero lead hlead spelling hspelling raw hraw => ?_, fun raw region e h => ?_⟩
  · have hall : ∀ l : Text, (∀ c ∈ l, c.isDigit = true) → ∀ c ∈ l ++ n, digits.isDigit c = true :=
      fun l hl => forall_mem_append.mpr
        ⟨fun c hc => isDigit_of_ascii (hl c hc), fun c hc => isDigit_of_ascii (hn c hc)⟩
    have hnumber : ∀ c ∈ lead ++ n, c = '+' ∨ digits.isDigit c = true := by
      have hlead' : ∀ lead ∈ [['+', '4', '9'], ['0', '0', '4', '9'], ['0']], ∀ c ∈ lead,
          c = '+' ∨ c.isDigit = true := by simp
      exact forall_mem_append.mpr ⟨fun c hc => (hlead' lead hlead c hc).imp_right
        isDigit_of_ascii, fun c hc => .inr (isDigit_of_ascii (hn c hc))⟩
    have hclean : clean raw = lead ++ n := by
      obtain rfl | rfl : raw = spelling ∨ raw = scheme ++ spelling := by
        simpa using hraw
      · exact clean_spelling hspelling hnumber
      · exact (clean_scheme spelling).trans hspelling
    have hdigits : ∀ c (l : Text), (∀ c' ∈ c :: l, c'.isDigit = true) → ¬ (c :: l ++ n = [] ∨
        upToEnd (c :: l ++ n) = [] ∨ (!(upToEnd (c :: l ++ n)).all digits.isDigit) = true) := by
      intro c l hl
      rw [upToEnd_eq fun c' hc' => isSeparator_of_isDigit (hall _ hl c' hc')]
      simpa [or_imp, forall_and] using hall _ hl
    have hvalid := congrArg (NumberParts.mk raw · none) (valid_germany digits hn)
    rw [normalizeNumber, regionOf, hclean]
    obtain rfl | rfl | rfl :
        lead = ['+', '4', '9'] ∨ lead = ['0', '0', '4', '9'] ∨ lead = ['0'] := by
      simpa using hlead
    · rw [if_pos ⟨_, rfl⟩]
      exact hvalid
    · rw [if_neg (by simp), if_neg (hdigits _ _ (by simp)), if_pos ⟨_, rfl⟩]
      exact hvalid
    · rw [if_neg (by simp), if_neg (hdigits _ _ (by simp)), if_neg, if_pos ⟨_, rfl⟩]
      · exact hvalid
      · rintro ⟨rest, hrest⟩
        have hn : '0' :: rest = n := (cons.inj hrest).2
        exact hzero (hn ▸ rfl)
  · obtain ⟨hshaped, hsep⟩ := shaped_of_e164 h
    obtain ⟨first, rest, rfl, hfirst, hrest, hmin, hmax⟩ := (shaped_iff hsep).mp hshaped
    have hnumber : ∀ c ∈ '+' :: first :: rest, c = '+' ∨ digits.isDigit c = true :=
      forall_mem_cons.mpr ⟨.inl rfl, forall_mem_cons.mpr
        ⟨.inr (isDigit_of_ascii hfirst.1), fun c hc => .inr (hrest c hc)⟩⟩
    have hclean : clean ('+' :: first :: rest) = '+' :: first :: rest :=
      clean_spelling (filter_eq_self.mpr fun c hc => by simp [hsep c hc]) hnumber
    refine ⟨(shaped_iff hsep).mpr ⟨first, rest, rfl, hfirst, hrest, by omega, hmax⟩, ?_⟩
    rw [normalizeNumber, hclean, if_pos ⟨_, rfl⟩, valid, if_pos hshaped]

theorem isSpace_of_isDigit (c : Char) (h : c.isDigit = true) : isSpace c = false := by
  have hrange : 48 ≤ c.toNat ∧ c.toNat ≤ 57 := by
    simpa [Char.isDigit, UInt32.le_iff_toNat_le] using h
  simp [isSpace]
  omega

def asciiDigits : Digits := ⟨Char.isDigit, fun _ _ => rfl, isSpace_of_isDigit⟩

/-- The dialled form of a number in Munich. -/
theorem munich_normalised : normalizeNumber asciiDigits "tel:(089) 12-34.567".toList "DE" =
    ⟨"tel:(089) 12-34.567".toList, some "+49891234567".toList, none⟩ :=
  (normalizeNumber_spellings asciiDigits).1 "891234567".toList (by simp) (by decide) ['0']
    (by decide) "(089) 12-34.567".toList (by decide) _ (by decide)

/-! ## Matching -/

structure ContactNumber where
  e164 : Text
  contactId : String

structure Contact where
  id : String
  name : String
  deletedAt : Option ℤ

structure ContactPriority where
  contactId : String
  priority : String

structure PhoneBook where
  numbers : List ContactNumber
  contacts : List Contact
  priorities : List ContactPriority

/-- A row of the query. -/
structure Row where
  e164 : Text
  contactId : String
  name : String
  priority : Option String

namespace PhoneBook

variable (book : PhoneBook)

/-- The outer join with the priorities of a contact. -/
def prioritiesOf (contactId : String) : List (Option String) :=
  match book.priorities.filter (·.contactId = contactId) with
  | [] => [none]
  | found => found.map (some ·.priority)

def rows : List Row :=
  book.numbers.flatMap fun number =>
    (book.contacts.filter fun c => c.id = number.contactId ∧ c.deletedAt = none).flatMap fun c =>
      (book.prioritiesOf number.contactId).map (⟨number.e164, number.contactId, c.name, ·⟩)

def Stores (contactId : String) (e164 : Text) : Prop :=
  (∃ number ∈ book.numbers, number.e164 = e164 ∧ number.contactId = contactId) ∧
    ∃ c ∈ book.contacts, c.id = contactId ∧ c.deletedAt = none

end PhoneBook

/-- `_common_suffix_len`, of reversed texts. -/
def commonLen : Text → Text → ℕ
  | a :: as, b :: bs => if a = b then commonLen as bs + 1 else 0
  | _, _ => 0

/-- How strongly a stored number identifies the caller. -/
def score (query stored : Text) : ℕ :=
  if query = stored then stored.length
  else if stored <+: query ∧ 1 ≤ query.length - stored.length ∧
      query.length - stored.length ≤ 6 ∧ 7 ≤ stored.length then stored.length
  else
    let k := commonLen query.reverse stored.reverse
    if 7 ≤ k ∧ (k = query.length ∨ k = stored.length) then k else 0

/-- `lstrip("+")`. -/
def bare (e164 : Text) : Text := e164.dropWhile (· = '+')

structure CallerMatch where
  e164 : Option Text
  contactId : Option String := none
  name : Option String := none
  priority : Option String := none
  matchedOn : Option Text := none
  ambiguous : Bool := false

/-- The best score so far, and the rows that have it. -/
def keepBest (query : Text) (best : ℕ × List Row) (row : Row) : ℕ × List Row :=
  let new := score query (bare row.e164)
  if new = 0 then best
  else if best.1 < new then (new, [row])
  else if new = best.1 then (best.1, best.2 ++ [row])
  else best

/-- `_match`, with the rows in the order in which the database returns them. -/
def matchRows (rows : List Row) (e164 : Text) : CallerMatch :=
  match (rows.foldl (keepBest (bare e164)) (0, [])).2 with
  | [] => { e164 := some e164 }
  | row :: rest =>
    if rest.any (·.contactId ≠ row.contactId) then { e164 := some e164, ambiguous := true }
    else { e164 := some e164, contactId := some row.contactId, name := some row.name,
           priority := row.priority, matchedOn := some row.e164 }

variable {query : Text} {rows : List Row} {book : PhoneBook}

theorem commonLen_le (a b : Text) :
    commonLen a b ≤ a.length ∧ (commonLen a b = a.length ↔ a <+: b) := by
  induction a generalizing b with
  | nil => simp [commonLen]
  | cons a as ih =>
    cases b with
    | nil => simp [commonLen]
    | cons b bs =>
      by_cases heq : a = b
      · simpa [commonLen, heq] using ih bs
      · simp [commonLen, heq]

/-- The score is at most the length of the number, which it reaches if the stored number ends with
it. -/
theorem score_le (h : 7 ≤ query.length) (stored : Text) : score query stored ≤ query.length ∧
    (score query stored = query.length ↔ query <:+ stored) := by
  obtain ⟨hle, hiff⟩ := commonLen_le query.reverse stored.reverse
  rw [length_reverse] at hle
  rw [length_reverse, reverse_prefix] at hiff
  unfold score
  split
  next heq =>
    simp [heq]
  · split_ifs with hprefix
    · exact ⟨by omega, iff_of_false (by omega) fun hsuffix => by have := hsuffix.length_le; omega⟩
    · dsimp only
      split_ifs with hnot
      · exact ⟨hle, hiff⟩
      · refine ⟨Nat.zero_le _, iff_of_false (by omega) fun hsuffix => hnot ?_⟩
        rw [hiff.mpr hsuffix]
        exact ⟨h, .inl rfl⟩

/-- The row has the best score, and a positive one. -/
def Leads (query : Text) (rows : List Row) (row : Row) : Prop :=
  row ∈ rows ∧ score query (bare row.e164) ≠ 0 ∧
    ∀ other ∈ rows, score query (bare other.e164) ≤ score query (bare row.e164)

theorem foldl_keepBest (query : Text) (rows : List Row) :
    (∀ row ∈ rows, score query (bare row.e164) ≤ (rows.foldl (keepBest query) (0, [])).1) ∧
    ((rows.foldl (keepBest query) (0, [])).1 ≠ 0 →
      ∃ row ∈ rows, score query (bare row.e164) = (rows.foldl (keepBest query) (0, [])).1) ∧
    ∀ row, row ∈ (rows.foldl (keepBest query) (0, [])).2 ↔ row ∈ rows ∧
      score query (bare row.e164) = (rows.foldl (keepBest query) (0, [])).1 ∧
      score query (bare row.e164) ≠ 0 := by
  induction rows using reverseRecOn with
  | nil => simp
  | append_singleton rows row ih =>
    rw [foldl_append]
    generalize rows.foldl (keepBest query) (0, []) = best at ih
    obtain ⟨hle, hmax, hbest⟩ := ih
    simp only [foldl_cons, foldl_nil, keepBest, mem_append, mem_singleton]
    split
    · grind
    · -- a better score starts the list anew: no row before has it
      split <;> grind

/-- **The fold keeps the rows that lead.** -/
theorem mem_best {row : Row} :
    row ∈ (rows.foldl (keepBest query) (0, [])).2 ↔ Leads query rows row := by
  obtain ⟨hle, hmax, hbest⟩ := foldl_keepBest query rows
  rw [hbest, Leads]
  refine and_congr_right fun hrow => ⟨fun ⟨heq, hne⟩ => ⟨hne, heq ▸ hle⟩, fun ⟨hne, hall⟩ => ?_⟩
  have hrow' := hle row hrow
  obtain ⟨other, hother, heq⟩ := hmax (by omega)
  exact ⟨Nat.le_antisymm hrow' (heq ▸ hall other hother), hne⟩

/-- What is returned: no contact, an ambiguity, or the contact of every row that leads. -/
theorem matchRows_cases (rows : List Row) (x : Text) :
    (matchRows rows x = { e164 := some x } ∧ ∀ row, ¬ Leads (bare x) rows row) ∨
    (matchRows rows x = { e164 := some x, ambiguous := true } ∧ ∃ row other,
      Leads (bare x) rows row ∧ Leads (bare x) rows other ∧ row.contactId ≠ other.contactId) ∨
    ∃ row, Leads (bare x) rows row ∧
      (∀ other, Leads (bare x) rows other → other.contactId = row.contactId) ∧
      matchRows rows x = { e164 := some x, contactId := some row.contactId, name := some row.name,
                           priority := row.priority, matchedOn := some row.e164 } := by
  simp only [← mem_best]
  rw [matchRows]
  cases (rows.foldl (keepBest (bare x)) (0, [])).2 with
  | nil => simp
  | cons row rest =>
    dsimp only
    split_ifs with hany
    · obtain ⟨other, hother, hne⟩ : ∃ other ∈ rest, other.contactId ≠ row.contactId := by
        simpa using hany
      exact .inr (.inl ⟨rfl, other, row, mem_cons_of_mem _ hother, mem_cons_self, hne⟩)
    · exact .inr (.inr ⟨row, mem_cons_self, by simpa using hany, rfl⟩)

def Wins (query : Text) (rows : List Row) (contactId : String) : Prop :=
  ∃ row, Leads query rows row ∧ row.contactId = contactId

theorem contactId_matchRows {c : String} {x : Text} : (matchRows rows x).contactId = some c ↔
    ∀ id, Wins (bare x) rows id ↔ id = c := by
  rcases matchRows_cases rows x with ⟨h, hnone⟩ | ⟨h, row, other, hrow, hother, hne⟩ |
    ⟨row, hrow, hall, h⟩
  · rw [h]
    refine iff_of_false nofun fun hwins => ?_
    obtain ⟨row, hrow, -⟩ := (hwins c).mpr rfl
    exact hnone row hrow
  · rw [h]
    refine iff_of_false nofun fun hwins => hne ?_
    rw [(hwins _).mp ⟨row, hrow, rfl⟩, (hwins _).mp ⟨other, hother, rfl⟩]
  · have hwins : ∀ id, Wins (bare x) rows id ↔ id = row.contactId := fun id =>
      ⟨fun ⟨other, hother, hid⟩ => hid ▸ hall other hother, fun hid => ⟨row, hrow, hid.symm⟩⟩
    simp only [h, hwins, Option.some.injEq]
    exact ⟨fun hc _ => by rw [hc], fun hc => (hc _).mp rfl⟩

/-- **Caller resolution never guesses.**  A contact is returned if it alone has a row that leads, an
ambiguity is reported if several have one, and neither depends on the order of the rows. -/
theorem matchRows_never_guesses (rows : List Row) (x : Text)
    (hnamed : ∀ row ∈ rows, ∀ other ∈ rows, row.contactId = other.contactId →
      row.name = other.name ∧ row.priority = other.priority) :
    (∀ c, (matchRows rows x).contactId = some c ↔ ∀ id, Wins (bare x) rows id ↔ id = c) ∧
    ((matchRows rows x).ambiguous = true ↔
      ∃ c d, c ≠ d ∧ Wins (bare x) rows c ∧ Wins (bare x) rows d) ∧
    ∀ rows', rows'.Perm rows →
      (matchRows rows' x).contactId = (matchRows rows x).contactId ∧
      (matchRows rows' x).name = (matchRows rows x).name ∧
      (matchRows rows' x).priority = (matchRows rows x).priority ∧
      (matchRows rows' x).ambiguous = (matchRows rows x).ambiguous := by
  have hambiguous : ∀ rows : List Row, (matchRows rows x).ambiguous = true ↔
      ∃ c d, c ≠ d ∧ Wins (bare x) rows c ∧ Wins (bare x) rows d := by
    intro rows
    rcases matchRows_cases rows x with ⟨h, hnone⟩ | ⟨h, row, other, hrow, hother, hne⟩ |
      ⟨row, hrow, hall, h⟩
    · rw [h]
      exact iff_of_false nofun fun ⟨_, _, _, ⟨row, hrow, _⟩, _⟩ => hnone row hrow
    · rw [h]
      exact iff_of_true rfl ⟨_, _, hne, ⟨row, hrow, rfl⟩, other, hother, rfl⟩
    · rw [h]
      refine iff_of_false nofun ?_
      rintro ⟨_, _, hne, ⟨a, ha, rfl⟩, b, hb, rfl⟩
      exact hne ((hall a ha).trans (hall b hb).symm)
  refine ⟨fun c => contactId_matchRows, hambiguous rows, fun rows' hperm => ?_⟩
  have hleads : ∀ row, Leads (bare x) rows' row ↔ Leads (bare x) rows row := fun row => by
    simp only [Leads, hperm.mem_iff]
  have hwins : ∀ id, Wins (bare x) rows' id ↔ Wins (bare x) rows id := fun id => by
    simp only [Wins, hleads]
  have hid : (matchRows rows' x).contactId = (matchRows rows x).contactId := Option.ext fun c => by
    simp only [contactId_matchRows, hwins]
  have hsame : (matchRows rows' x).ambiguous = (matchRows rows x).ambiguous := by
    rw [Bool.eq_iff_iff, hambiguous, hambiguous]
    simp only [hwins]
  -- the name and the priority are those of the contact
  have hparts : ∀ rows : List Row, ((matchRows rows x).contactId = none ∧
      (matchRows rows x).name = none ∧ (matchRows rows x).priority = none) ∨
      ∃ row ∈ rows, (matchRows rows x).contactId = some row.contactId ∧
        (matchRows rows x).name = some row.name ∧ (matchRows rows x).priority = row.priority := by
    intro rows
    rcases matchRows_cases rows x with ⟨h, -⟩ | ⟨h, -⟩ | ⟨row, hrow, -, h⟩
    · exact .inl (by simp [h])
    · exact .inl (by simp [h])
    · exact .inr ⟨row, hrow.1, by simp [h]⟩
  rcases hparts rows with ⟨hc, hn, hp⟩ | ⟨row, hrow, hc, hn, hp⟩ <;>
    rcases hparts rows' with ⟨hc', hn', hp'⟩ | ⟨row', hrow', hc', hn', hp'⟩ <;>
    rw [hc, hc'] at hid
  · rw [hc, hc', hn, hn', hp, hp']
    exact ⟨rfl, rfl, rfl, hsame⟩
  · cases hid
  · cases hid
  · obtain ⟨hname, hpriority⟩ :=
      hnamed row' (hperm.mem_iff.mp hrow') row hrow (Option.some.inj hid)
    rw [hc, hc', hn, hn', hp, hp', hid, hname, hpriority]
    exact ⟨rfl, rfl, rfl, hsame⟩

theorem mem_rows {contactId : String} {e164 : Text} :
    (∃ row ∈ book.rows, row.contactId = contactId ∧ row.e164 = e164) ↔
      book.Stores contactId e164 := by
  have hne : book.prioritiesOf contactId ≠ [] := by
    unfold PhoneBook.prioritiesOf
    split <;> simp_all
  obtain ⟨p, hp⟩ := exists_mem_of_ne_nil _ hne
  simp only [PhoneBook.rows, PhoneBook.Stores, mem_flatMap, mem_map, mem_filter, decide_eq_true_eq]
  constructor
  · rintro ⟨row, ⟨number, hnumber, contact, ⟨hcontact, hid, hlive⟩, q, hq, rfl⟩, rfl, rfl⟩
    exact ⟨⟨number, hnumber, rfl, rfl⟩, contact, hcontact, hid, hlive⟩
  · rintro ⟨⟨number, hnumber, rfl, rfl⟩, contact, hcontact, hid, hlive⟩
    exact ⟨_, ⟨number, hnumber, contact, ⟨hcontact, hid, hlive⟩, p, hp, rfl⟩, rfl, rfl⟩

/-- **The contact that stores the number is found exactly if no other contact stores a number that
ends with its digits.** -/
theorem exact_wins_iff {digits : Digits} {raw x : Text} {region c : String}
    (hx : (normalizeNumber digits raw region).e164 = some x) (hrows : rows.Perm book.rows)
    (hone : ∀ id, book.Stores id x ↔ id = c) :
    (matchRows rows x).contactId = some c ↔
      ∀ id y, book.Stores id y → bare x <:+ bare y → id = c := by
  have hlength : 7 ≤ (bare x).length := by
    obtain ⟨hshaped, hsep⟩ := shaped_of_e164 hx
    obtain ⟨first, rest, rfl, hfirst, -, hmin, -⟩ := (shaped_iff hsep).mp hshaped
    have hne : first ≠ '+' := by
      rintro rfl
      exact absurd hfirst.1 (by decide)
    simpa [bare, hne] using Nat.le_succ_of_le hmin
  obtain ⟨row, hrow, -, rfl⟩ := mem_rows.mpr ((hone c).mpr rfl)
  have hscore : score (bare row.e164) (bare row.e164) = (bare row.e164).length := by simp [score]
  -- the row of the contact has the best score there is
  have hleads : ∀ other, Leads (bare row.e164) rows other ↔
      other ∈ book.rows ∧ bare row.e164 <:+ bare other.e164 := by
    intro other
    have hother := score_le hlength (bare other.e164)
    rw [← hother.2, ← hrows.mem_iff]
    refine and_congr_right fun _ => ⟨fun ⟨_, hall⟩ => ?_, fun heq => ⟨by omega, fun o _ => ?_⟩⟩
    · exact Nat.le_antisymm hother.1 (hscore ▸ hall row (hrows.mem_iff.mpr hrow))
    · exact heq ▸ (score_le hlength (bare o.e164)).1
  have hwins : ∀ id, Wins (bare row.e164) rows id ↔
      ∃ y, book.Stores id y ∧ bare row.e164 <:+ bare y := by
    intro id
    simp only [Wins, hleads, ← mem_rows]
    constructor
    · rintro ⟨other, ⟨hother, hsuffix⟩, rfl⟩
      exact ⟨_, ⟨other, hother, rfl, rfl⟩, hsuffix⟩
    · rintro ⟨_, ⟨other, hother, rfl, rfl⟩, hsuffix⟩
      exact ⟨other, ⟨hother, hsuffix⟩, rfl⟩
  simp only [contactId_matchRows, hwins]
  refine ⟨fun h id y hy hsuffix => (h id).mp ⟨y, hy, hsuffix⟩, fun h id => ⟨?_, ?_⟩⟩
  · rintro ⟨y, hy, hsuffix⟩
    exact h id y hy hsuffix
  · intro hid
    exact ⟨_, (hone id).mpr hid, suffix_refl _⟩

/-- Two contacts, of which the number of one ends with the number of the other. -/
def twins : PhoneBook where
  numbers := [⟨"+49891234567".toList, "a"⟩, ⟨"+149891234567".toList, "b"⟩]
  contacts := [⟨"a", "A", none⟩, ⟨"b", "B", none⟩]
  priorities := []

/-- The order of the two makes no difference. -/
theorem twins_reversed : (matchRows twins.rows.reverse "+49891234567".toList).ambiguous = true :=
  ((matchRows_never_guesses twins.rows _ (by decide)).2.2 _ (reverse_perm _)).2.2.2.trans
    (by decide)

/-- The other contact is deleted, and a third one has a number with the same last digits. -/
def survivor : PhoneBook where
  numbers := twins.numbers ++ [⟨"+49301234567".toList, "c"⟩]
  contacts := [⟨"a", "A", none⟩, ⟨"b", "B", some 0⟩, ⟨"c", "C", none⟩]
  priorities := []

theorem survivor_found :
    (matchRows survivor.rows "+49891234567".toList).contactId = some "a" := by
  have hnormal : (normalizeNumber asciiDigits "+49891234567".toList "DE").e164
      = some "+49891234567".toList := by decide
  have hlive : ∀ number ∈ survivor.numbers, ∀ c ∈ survivor.contacts, c.id = number.contactId →
      c.deletedAt = none → bare "+49891234567".toList <:+ bare number.e164 →
      number.contactId = "a" := by decide
  have honly : ∀ {id y}, survivor.Stores id y → bare "+49891234567".toList <:+ bare y →
      id = "a" := by
    rintro _ _ ⟨⟨number, hnumber, rfl, rfl⟩, c, hc, hid, hnone⟩ hsuffix
    exact hlive number hnumber c hc hid hnone hsuffix
  refine (exact_wins_iff hnormal (.refl _) fun id => ⟨fun h => honly h (suffix_refl _), ?_⟩).mpr
    fun id y => honly
  rintro rfl
  exact ⟨⟨_, mem_cons_self, rfl, rfl⟩, _, mem_cons_self, rfl, rfl⟩

/-- **A contact that alone stores the number is not found.** -/
theorem exact_ambiguous : ∃ raw x, (normalizeNumber asciiDigits raw "DE").e164 = some x ∧
    (∀ id, twins.Stores id x ↔ id = "a") ∧ (matchRows twins.rows x).contactId = none ∧
      (matchRows twins.rows x).ambiguous = true := by
  refine ⟨"+49891234567".toList, "+49891234567".toList, by decide, fun id => ?_, by decide,
    by decide⟩
  simp +contextual [PhoneBook.Stores, twins, eq_comm (b := id)]

end BbzPlatform.Contacts

import BbzPlatform.Lib.MaskingOrder
import Mathlib.Data.Bool.AllAny
import Mathlib.Data.List.Dedup

/-!
# Redaction

While a door is opened, its DTMF sequence is registered as a secret, and every sink runs `scrub` on
what it is about to store or emit: the registered secrets are masked in every string, one secret
after the other, in the order in which the set is iterated.

Three things get past it.  The keys of a dict are not scrubbed; a container ten levels down is
returned as it is; and where secrets overlap, the result depends on the order of the set.  Nothing
else does: the property holds of a value exactly if its keys and what lies too deep contain no
secret, and every string that is scrubbed is clean.
-/

namespace BbzPlatform.Redaction

open List

/-- A string. -/
abbrev Text : Type := List Char

/-- `MASK`. -/
def mask : Text := "[redacted]".toList

/-- `_MIN_LEN`. -/
def minLength : ℕ := 3

/-- `_MAX_DEPTH`. -/
def maxDepth : ℕ := 10

def dtmfAlphabet : List Char := "0123456789*#ABCD".toList

/-! ## Secrets -/

structure Secrets where
  words : List Text
  nodup : words.Nodup
  long : ∀ w ∈ words, minLength ≤ w.length
  dtmf : ∀ w ∈ words, ∀ c ∈ w, c ∈ dtmfAlphabet

abbrev Sequence : Type := { text : Text // ∀ c ∈ text, c ∈ dtmfAlphabet }

/-- The sequences among the arguments of `redacting` that are long enough. -/
def longEnough (secrets : List (Option Sequence)) : List Text :=
  (secrets.filterMap fun s => s.map Subtype.val).filter fun text => minLength ≤ text.length

namespace Secrets

/-- Nothing is registered. -/
def none : Secrets := ⟨[], by simp, by simp, by simp⟩

theorem mem_longEnough {secrets : List (Option Sequence)} {w : Text} (h : w ∈ longEnough secrets) :
    minLength ≤ w.length ∧ ∀ c ∈ w, c ∈ dtmfAlphabet := by
  obtain ⟨hmem, hlong⟩ := mem_filter.mp h
  obtain ⟨s, -, hs⟩ := mem_filterMap.mp hmem
  obtain ⟨sequence, -, rfl⟩ := Option.map_eq_some_iff.mp hs
  exact ⟨by simpa using hlong, sequence.property⟩

/-- `redacting`: more secrets are registered. -/
def redacting (active : Secrets) (secrets : List (Option Sequence)) : Secrets where
  words := (active.words ++ longEnough secrets).dedup
  nodup := nodup_dedup _
  long := fun w hw => by
    obtain hw | hw := mem_append.mp (mem_dedup.mp hw)
    · exact active.long w hw
    · exact (mem_longEnough hw).1
  dtmf := fun w hw => by
    obtain hw | hw := mem_append.mp (mem_dedup.mp hw)
    · exact active.dtmf w hw
    · exact (mem_longEnough hw).2

end Secrets

/-! ## Values -/

/-- What a sink stores or emits. -/
inductive Value where
  | str (text : Text)
  | list (items : List Value)
  | tuple (items : List Value)
  | dict (fields : List (Text × Value))
  | other (repr : String)

/-- `_scrub` of a string: the secrets in the order of the set. -/
def scrubText (order : List Text) (text : Text) : Text :=
  order.foldl (fun value s => if s <:+: value then Masking.replace s mask value else value) text

mutual

/-- `_scrub`. -/
def scrubAt (order : List Text) (depth : ℕ) : Value → Value
  | .str text => .str (scrubText order text)
  | .list items =>
    if maxDepth ≤ depth then .list items else .list (scrubItems order (depth + 1) items)
  | .tuple items =>
    if maxDepth ≤ depth then .tuple items else .tuple (scrubItems order (depth + 1) items)
  | .dict fields =>
    if maxDepth ≤ depth then .dict fields else .dict (scrubFields order (depth + 1) fields)
  | .other repr => .other repr

def scrubItems (order : List Text) (depth : ℕ) : List Value → List Value
  | [] => []
  | item :: items => scrubAt order depth item :: scrubItems order depth items

def scrubFields (order : List Text) (depth : ℕ) : List (Text × Value) → List (Text × Value)
  | [] => []
  | (key, value) :: fields => (key, scrubAt order depth value) :: scrubFields order depth fields

end

/-- `scrub`, with the secrets in the order of the set. -/
def scrub (order : List Text) (value : Value) : Value :=
  if order.isEmpty then value else scrubAt order 0 value

namespace Value

mutual

/-- The strings in a value, leaves and keys. -/
def strings : Value → List Text
  | .str text => [text]
  | .list items => itemStrings items
  | .tuple items => itemStrings items
  | .dict fields => fieldStrings fields
  | .other _ => []

def itemStrings : List Value → List Text
  | [] => []
  | item :: items => item.strings ++ itemStrings items

def fieldStrings : List (Text × Value) → List Text
  | [] => []
  | (key, value) :: fields => key :: (value.strings ++ fieldStrings fields)

end

mutual

/-- The strings that are left alone: keys, and what lies too deep. -/
def kept (depth : ℕ) : Value → List Text
  | .str _ => []
  | .list items => if maxDepth ≤ depth then itemStrings items else keptItems (depth + 1) items
  | .tuple items => if maxDepth ≤ depth then itemStrings items else keptItems (depth + 1) items
  | .dict fields =>
    if maxDepth ≤ depth then fieldStrings fields else keptFields (depth + 1) fields
  | .other _ => []

def keptItems (depth : ℕ) : List Value → List Text
  | [] => []
  | item :: items => item.kept depth ++ keptItems depth items

def keptFields (depth : ℕ) : List (Text × Value) → List Text
  | [] => []
  | (key, value) :: fields => key :: (value.kept depth ++ keptFields depth fields)

end

mutual

def scrubbed (depth : ℕ) : Value → List Text
  | .str text => [text]
  | .list items => if maxDepth ≤ depth then [] else scrubbedItems (depth + 1) items
  | .tuple items => if maxDepth ≤ depth then [] else scrubbedItems (depth + 1) items
  | .dict fields => if maxDepth ≤ depth then [] else scrubbedFields (depth + 1) fields
  | .other _ => []

def scrubbedItems (depth : ℕ) : List Value → List Text
  | [] => []
  | item :: items => item.scrubbed depth ++ scrubbedItems depth items

def scrubbedFields (depth : ℕ) : List (Text × Value) → List Text
  | [] => []
  | (_, value) :: fields => value.scrubbed depth ++ scrubbedFields depth fields

end

end Value

/-- Nothing is left behind: no string contains a secret, the order of the set does not matter, and
redacting again changes nothing. -/
structure Redacts (secrets : Secrets) (value : Value) : Prop where
  nothing_left : ∀ order, order.Perm secrets.words → ∀ text ∈ (scrub order value).strings,
    ∀ w ∈ secrets.words, ¬ w <:+: text
  any_order : ∀ order order', order.Perm secrets.words → order'.Perm secrets.words →
    scrub order value = scrub order' value
  again : ∀ order order', order.Perm secrets.words → order'.Perm secrets.words →
    scrub order' (scrub order value) = scrub order value

/-! ## Strings -/

variable {secrets : Secrets} {order order' : List Text} {text : Text}

/-- The test before a replacement changes nothing. -/
theorem scrubText_eq (order : List Text) (text : Text) :
    scrubText order text = Masking.replaceAll mask order text := by
  induction order generalizing text with
  | nil => rfl
  | cons s order ih =>
    rw [Masking.replaceAll_cons, ← ih, scrubText, foldl_cons, scrubText]
    split_ifs with hnot
    · rfl
    · rw [Masking.replace_eq_self hnot]

theorem mask_ne_nil : mask ≠ [] := by decide

theorem Secrets.apart (secrets : Secrets) : ∀ w ∈ secrets.words, Masking.Apart mask w := by
  have hdtmf : ∀ c ∈ dtmfAlphabet, c ∉ mask := all_iff_forall_prop.mp (by decide)
  refine fun w hw => ⟨?_, fun c hc => hdtmf c (secrets.dtmf w hw c hc)⟩
  rintro rfl
  exact absurd (secrets.long [] hw) (by decide)

section

variable (horder : order.Perm secrets.words)
include horder

theorem not_infix_scrubText (text : Text) : ∀ w ∈ secrets.words, ¬ w <:+: scrubText order text := by
  intro w hw
  rw [scrubText_eq]
  exact Masking.not_infix_replaceAll mask_ne_nil
    (fun w hw => secrets.apart w (horder.mem_iff.mp hw)) text w
    (horder.mem_iff.mpr hw)

theorem scrubText_again (horder' : order'.Perm secrets.words) (text : Text) :
    scrubText order' (scrubText order text) = scrubText order text := by
  rw [scrubText_eq order']
  exact Masking.replaceAll_eq_self fun w hw =>
    not_infix_scrubText horder text w (horder'.mem_iff.mp hw)

end

theorem clean_iff_any_order (secrets : Secrets) (text : Text) :
    Masking.Clean secrets.words text ↔ ∀ order order', order.Perm secrets.words →
      order'.Perm secrets.words → scrubText order text = scrubText order' text := by
  have hbody : '[' ∉ "redacted]".toList := by decide
  simp only [scrubText_eq]
  exact Masking.clean_iff hbody secrets.apart text

/-! ## Values -/

section Values

open Value

mutual

/-- What is in a value afterwards. -/
theorem mem_strings_scrubAt (order : List Text) (depth : ℕ) (value : Value) (text : Text) :
    text ∈ (scrubAt order depth value).strings ↔
      text ∈ value.kept depth ∨ ∃ s ∈ value.scrubbed depth, text = scrubText order s := by
  cases value with
  | str s | other repr => simp [scrubAt, strings, kept, scrubbed]
  | list items | tuple items =>
    by_cases hdepth : maxDepth ≤ depth
    · simp [scrubAt, strings, kept, scrubbed, hdepth]
    · simpa [scrubAt, strings, kept, scrubbed, hdepth] using
        mem_strings_scrubItems order (depth + 1) items text
  | dict fields =>
    by_cases hdepth : maxDepth ≤ depth
    · simp [scrubAt, strings, kept, scrubbed, hdepth]
    · simpa [scrubAt, strings, kept, scrubbed, hdepth] using
        mem_strings_scrubFields order (depth + 1) fields text

theorem mem_strings_scrubItems (order : List Text) (depth : ℕ) (items : List Value) (text : Text) :
    text ∈ itemStrings (scrubItems order depth items) ↔
      text ∈ keptItems depth items ∨ ∃ s ∈ scrubbedItems depth items, text = scrubText order s := by
  cases items with
  | nil => simp [scrubItems, itemStrings, keptItems, scrubbedItems]
  | cons item items =>
    have hitem := mem_strings_scrubAt order depth item text
    have hitems := mem_strings_scrubItems order depth items text
    simp only [scrubItems, itemStrings, keptItems, scrubbedItems, mem_append, hitem, hitems,
      or_and_right, exists_or]
    exact or_or_or_comm

theorem mem_strings_scrubFields (order : List Text) (depth : ℕ) (fields : List (Text × Value))
    (text : Text) :
    text ∈ fieldStrings (scrubFields order depth fields) ↔
      text ∈ keptFields depth fields ∨
        ∃ s ∈ scrubbedFields depth fields, text = scrubText order s := by
  rcases fields with _ | ⟨⟨key, value⟩, fields⟩
  · simp [scrubFields, fieldStrings, keptFields, scrubbedFields]
  · have hvalue := mem_strings_scrubAt order depth value text
    have hfields := mem_strings_scrubFields order depth fields text
    simp only [scrubFields, fieldStrings, keptFields, scrubbedFields, mem_cons,
      mem_append, hvalue, hfields, or_and_right, exists_or]
    exact (or_congr_right or_or_or_comm).trans or_assoc.symm

end

mutual

/-- Two orders agree on a value exactly if they agree on the strings that are scrubbed. -/
theorem scrubAt_eq_iff (order order' : List Text) (depth : ℕ) (value : Value) :
    scrubAt order depth value = scrubAt order' depth value ↔
      ∀ s ∈ value.scrubbed depth, scrubText order s = scrubText order' s := by
  cases value with
  | str s | other repr => simp [scrubAt, scrubbed]
  | list items | tuple items =>
    by_cases hdepth : maxDepth ≤ depth
    · simp [scrubAt, scrubbed, hdepth]
    · simpa [scrubAt, scrubbed, hdepth] using scrubItems_eq_iff order order' (depth + 1) items
  | dict fields =>
    by_cases hdepth : maxDepth ≤ depth
    · simp [scrubAt, scrubbed, hdepth]
    · simpa [scrubAt, scrubbed, hdepth] using scrubFields_eq_iff order order' (depth + 1) fields

theorem scrubItems_eq_iff (order order' : List Text) (depth : ℕ) (items : List Value) :
    scrubItems order depth items = scrubItems order' depth items ↔
      ∀ s ∈ scrubbedItems depth items, scrubText order s = scrubText order' s := by
  cases items with
  | nil => simp [scrubItems, scrubbedItems]
  | cons item items =>
    simp [scrubItems, scrubbedItems, or_imp, forall_and, scrubAt_eq_iff order order' depth item,
      scrubItems_eq_iff order order' depth items]

theorem scrubFields_eq_iff (order order' : List Text) (depth : ℕ) (fields : List (Text × Value)) :
    scrubFields order depth fields = scrubFields order' depth fields ↔
      ∀ s ∈ scrubbedFields depth fields, scrubText order s = scrubText order' s := by
  rcases fields with _ | ⟨⟨key, value⟩, fields⟩
  · simp [scrubFields, scrubbedFields]
  · simp [scrubFields, scrubbedFields, or_imp, forall_and, scrubAt_eq_iff order order' depth value,
      scrubFields_eq_iff order order' depth fields]

end

mutual

/-- A value that was scrubbed stays as it is, if its strings do. -/
theorem scrubAt_again (h : ∀ s, scrubText order' (scrubText order s) = scrubText order s)
    (depth : ℕ) (value : Value) :
    scrubAt order' depth (scrubAt order depth value) = scrubAt order depth value := by
  cases value with
  | str s => simp [scrubAt, h]
  | other repr => simp [scrubAt]
  | list items | tuple items =>
    by_cases hdepth : maxDepth ≤ depth
    · simp [scrubAt, hdepth]
    · simpa [scrubAt, hdepth] using scrubItems_again h (depth + 1) items
  | dict fields =>
    by_cases hdepth : maxDepth ≤ depth
    · simp [scrubAt, hdepth]
    · simpa [scrubAt, hdepth] using scrubFields_again h (depth + 1) fields

theorem scrubItems_again (h : ∀ s, scrubText order' (scrubText order s) = scrubText order s)
    (depth : ℕ) (items : List Value) :
    scrubItems order' depth (scrubItems order depth items) = scrubItems order depth items := by
  cases items with
  | nil => rfl
  | cons item items =>
    simp [scrubItems, scrubAt_again h depth item, scrubItems_again h depth items]

theorem scrubFields_again (h : ∀ s, scrubText order' (scrubText order s) = scrubText order s)
    (depth : ℕ) (fields : List (Text × Value)) :
    scrubFields order' depth (scrubFields order depth fields) = scrubFields order depth fields := by
  rcases fields with _ | ⟨⟨key, value⟩, fields⟩
  · rfl
  · simp [scrubFields, scrubAt_again h depth value, scrubFields_again h depth fields]

end

end Values

/-- **Redaction leaves nothing behind, in any order, exactly if no key and no string below the limit
contains a secret, and in the other strings no secret begins inside an occurrence of another.** -/
theorem redacts_iff (secrets : Secrets) (value : Value) :
    Redacts secrets value ↔
      (∀ text ∈ value.kept 0, ∀ w ∈ secrets.words, ¬ w <:+: text) ∧
        ∀ text ∈ value.scrubbed 0, Masking.Clean secrets.words text := by
  by_cases hwords : secrets.words = []
  · -- nothing is registered
    have hnil : ∀ {order : List Text}, order.Perm secrets.words → order = [] :=
      fun h => perm_nil.mp (hwords ▸ h)
    refine iff_of_true ⟨fun _ _ _ _ w hw => ?_, fun _ _ h h' => ?_, fun _ _ h h' => ?_⟩
      ⟨fun _ _ w hw => ?_, fun text _ => ?_⟩
    · simp [hwords] at hw
    · rw [hnil h, hnil h']
    · rw [hnil h, hnil h']
      rfl
    · simp [hwords] at hw
    · exact (clean_iff_any_order secrets text).mpr fun _ _ h h' => by rw [hnil h, hnil h']
  · have hscrub : ∀ {order : List Text}, order.Perm secrets.words → ∀ value,
        scrub order value = scrubAt order 0 value := by
      intro order horder value
      have hne : order ≠ [] := fun h => hwords (nil_perm.mp (h ▸ horder))
      rw [scrub, if_neg (by simpa using hne)]
    constructor
    · intro h
      refine ⟨fun text htext => ?_, fun text htext => ?_⟩
      · refine h.nothing_left secrets.words (.refl _) text ?_
        rw [hscrub (.refl _), mem_strings_scrubAt]
        exact .inl htext
      · refine (clean_iff_any_order secrets text).mpr fun order order' horder horder' => ?_
        have heq := h.any_order order order' horder horder'
        rw [hscrub horder, hscrub horder', scrubAt_eq_iff] at heq
        exact heq text htext
    · rintro ⟨hkept, hclean⟩
      refine ⟨fun order horder text htext => ?_, fun order order' horder horder' => ?_,
        fun order order' horder horder' => ?_⟩
      · rw [hscrub horder, mem_strings_scrubAt] at htext
        obtain htext | ⟨s, -, rfl⟩ := htext
        · exact hkept text htext
        · exact not_infix_scrubText horder s
      · rw [hscrub horder, hscrub horder', scrubAt_eq_iff]
        exact fun s hs => (clean_iff_any_order secrets s).mp (hclean s hs) order order' horder
          horder'
      · rw [hscrub horder, hscrub horder', scrubAt_again (scrubText_again horder horder')]

theorem dtmf_overlapping : ∀ w ∈ ["123".toList, "234".toList], ∀ c ∈ w, c ∈ dtmfAlphabet := by
  refine forall_mem_cons.mpr ⟨?_, forall_mem_singleton.mpr ?_⟩
  · exact all_iff_forall_prop.mp (by decide)
  · exact all_iff_forall_prop.mp (by decide)

/-- Two sequences that overlap. -/
def overlapping : Secrets where
  words := ["123".toList, "234".toList]
  nodup := by decide
  long := by decide
  dtmf := dtmf_overlapping

/-- A string inside that many lists. -/
def nested : ℕ → Value
  | 0 => .str "123".toList
  | n + 1 => .list [nested n]

/-- A secret in a key and below the limit is left, and the order of the set shows. -/
theorem secret_left_behind :
    "123".toList ∈ (scrub overlapping.words (.dict [("123".toList, .other "1")])).strings ∧
    "123".toList ∈ (scrub overlapping.words (nested 11)).strings ∧
    scrub overlapping.words (.str "1234".toList) = .str "[redacted]4".toList ∧
    scrub overlapping.words.reverse (.str "1234".toList) = .str "1[redacted]".toList ∧
    ¬ Redacts overlapping (.dict [("123".toList, .other "1")]) ∧
    ¬ Redacts overlapping (nested 11) ∧ ¬ Redacts overlapping (.str "1234".toList) := by
  have hkey : "123".toList ∈
      (scrub overlapping.words (.dict [("123".toList, .other "1")])).strings := by decide
  have hdeep : "123".toList ∈ (scrub overlapping.words (nested 11)).strings := by decide
  have hfirst : scrub overlapping.words (.str "1234".toList) = .str "[redacted]4".toList := by rfl
  have hlast : scrub overlapping.words.reverse (.str "1234".toList) =
      .str "1[redacted]".toList := by rfl
  refine ⟨hkey, hdeep, hfirst, hlast, fun h => ?_, fun h => ?_, fun h => ?_⟩
  · exact h.nothing_left _ (.refl _) _ hkey "123".toList (by decide) (infix_refl _)
  · exact h.nothing_left _ (.refl _) _ hdeep "123".toList (by decide) (infix_refl _)
  · have heq := h.any_order _ _ (.refl _) (reverse_perm _)
    rw [hfirst, hlast] at heq
    exact absurd (Value.str.inj heq) (by decide)

end BbzPlatform.Redaction

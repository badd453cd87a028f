import BbzPlatform.Telephony.Ingest

/-!
# The keys of the inbox

Telephony events, alarms and the signals that are queued for them share one inbox, and one unique
key.  The keys are made of free-form texts that are joined with colons, and the key of an alarm does
not name the instance of its provider.  So different items can have the same key, and the second one
is dropped.

A key is a head, which ends with the provider, and a tail.  Two keys are equal if head and tail are,
or if one head goes on where the other one ends.
-/

namespace BbzPlatform.Inbox

open Telephony (EventType TelephonyEvent callKey dedupeKey eventKey present)

/-- A normalized alarm, as far as its key goes.  The id is the one that the provider gave. -/
structure Alarm where
  provider : String
  providerInstanceId : String
  alarmType : String
  sourceExternalId : String
  alarmSubtype : Option String
  occurredAt : Option String
  stableId : Option String

/-- The text whose hash stands for the id. -/
def stableFields (source type : String) (subtype occurredAt : Option String) : String :=
  source ++ "|" ++ type ++ "|" ++ subtype.getD "" ++ "|" ++ occurredAt.getD ""

section Keys

variable {isDateTime : String → Bool} (sha256 : String → String)

/-- `_derived_event_id`. -/
def derivedEventId (a : Alarm) : String :=
  "derived:" ++ sha256 (stableFields a.sourceExternalId a.alarmType a.alarmSubtype a.occurredAt)

/-- `alarm_event_dedupe_key` of the normalized event. -/
def alarmEventDedupeKey (a : Alarm) : String :=
  a.provider ++ ":" ++ (present a.stableId).getD (derivedEventId sha256 a)

inductive Item (isDateTime : String → Bool) where
  | event (e : TelephonyEvent isDateTime)
  | alarm (a : Alarm)

/-- An item, or the signal that is queued for it. -/
structure Offered (isDateTime : String → Bool) where
  signal : Bool
  item : Item isDateTime

def Item.key : Item isDateTime → String
  | .event e => dedupeKey e
  | .alarm a => alarmEventDedupeKey sha256 a

def signalPrefix (signal : Bool) : String := if signal then "signal:" else ""

def Offered.key (x : Offered isDateTime) : String := signalPrefix x.signal ++ x.item.key sha256

/-! ## Identities -/

/-- What makes two items the same. -/
inductive Identity where
  | call (provider sourceCallId : String) (type : EventType)
  | other (provider telephonyEventId : String)
  | alarm (provider providerInstanceId providerEventId : String)
  | derived (provider providerInstanceId source type : String) (subtype occurredAt : Option String)

def Item.identity : Item isDateTime → Identity
  | .event e =>
    match present e.sourceCallId with
    | some sourceCallId =>
      if e.eventType.ofCall then .call e.provider sourceCallId e.eventType
      else .other e.provider e.telephonyEventId
    | none => .other e.provider e.telephonyEventId
  | .alarm a =>
    match present a.stableId with
    | some id => .alarm a.provider a.providerInstanceId id
    | none => .derived a.provider a.providerInstanceId a.sourceExternalId a.alarmType
        a.alarmSubtype a.occurredAt

/-- Two items are of one kind and agree on what identifies them. -/
def SameItem (x y : Offered isDateTime) : Prop :=
  x.signal = y.signal ∧ x.item.identity = y.item.identity

namespace Identity

def ofTelephony : Identity → Bool
  | call .. | other .. => true
  | alarm .. | derived .. => false

/-- The key up to the provider. -/
def head : Identity → String
  | call provider _ _ | other provider _ => "telephony:" ++ provider
  | alarm provider _ _ | derived provider _ _ _ _ _ => provider

/-- The key behind the provider and its colon. -/
def tail : Identity → String
  | call _ sourceCallId type => "call:" ++ (sourceCallId ++ ":" ++ type.value)
  | other _ telephonyEventId => "evt:" ++ telephonyEventId
  | alarm _ _ providerEventId => providerEventId
  | derived _ _ source type subtype occurredAt =>
    "derived:" ++ sha256 (stableFields source type subtype occurredAt)

/-- Alarms of one provider: an id is given by one instance only, no id looks like a derived one, and
the fields that stand for an id can be told apart in their joined text. -/
def AlarmsTold : Identity → Identity → Prop
  | alarm p i id, alarm p' i' id' => p = p' → id = id' → i = i'
  | alarm p _ id, derived p' _ source type subtype occurredAt
  | derived p _ source type subtype occurredAt, alarm p' _ id =>
    p = p' → id ≠ "derived:" ++ sha256 (stableFields source type subtype occurredAt)
  | derived p i source type subtype occurredAt, derived p' i' source' type' subtype' occurredAt' =>
    p = p' →
      stableFields source type subtype occurredAt
        = stableFields source' type' subtype' occurredAt' →
      i = i' ∧ source = source' ∧ type = type' ∧ subtype = subtype' ∧ occurredAt = occurredAt'
  | _, _ => True

end Identity

def Offered.head (x : Offered isDateTime) : String := signalPrefix x.signal ++ x.item.identity.head

/-- The head of one key goes on where the head of the other ends, and both go on alike. -/
def Continues (x y : Offered isDateTime) : Prop :=
  ∃ m, y.head = x.head ++ ":" ++ m ∧
    x.item.identity.tail sha256 = m ++ ":" ++ y.item.identity.tail sha256

/-- No head continues the other one into its tail, no provider of alarms is named like the start of
another kind of key, and the ids of alarms tell them apart. -/
structure ToldApart (x y : Offered isDateTime) : Prop where
  forth : ¬ Continues sha256 x y
  back : ¬ Continues sha256 y x
  kind : x.head = y.head → x.item.identity.tail sha256 = y.item.identity.tail sha256 →
    x.signal = y.signal ∧ x.item.identity.ofTelephony = y.item.identity.ofTelephony
  alarms : x.signal = y.signal → x.item.identity.AlarmsTold sha256 y.item.identity

/-! ## Equal keys -/

/-- Two joined texts are equal if their parts are, or if one part goes on where the other ends. -/
theorem join_eq_iff {a b a' b' : String} :
    a ++ ":" ++ b = a' ++ ":" ++ b' ↔ (a = a' ∧ b = b') ∨
      (∃ m, a' = a ++ ":" ++ m ∧ b = m ++ ":" ++ b') ∨
      ∃ m, a = a' ++ ":" ++ m ∧ b' = m ++ ":" ++ b := by
  have hgoes : ∀ {u v u' v' w : List Char}, u' = u ++ w → ':' :: v = w ++ ':' :: v' →
      (u = u' ∧ v = v') ∨ ∃ m, u' = u ++ ':' :: m ∧ v = m ++ ':' :: v' := by
    rintro u v u' v' w rfl h
    cases w with
    | nil => exact .inl ⟨(List.append_nil u).symm, (List.cons.inj h).2⟩
    | cons c m =>
      obtain ⟨rfl, rfl⟩ := List.cons.inj h
      exact .inr ⟨m, rfl, rfl⟩
  constructor
  · intro h
    have hlist : a.toList ++ ':' :: b.toList = a'.toList ++ ':' :: b'.toList := by
      simpa using congrArg String.toList h
    rcases List.append_eq_append_iff.mp hlist with ⟨w, ha, hb⟩ | ⟨w, ha, hb⟩
    · rcases hgoes ha hb with ⟨ha, hb⟩ | ⟨m, ha, hb⟩
      · exact .inl ⟨String.toList_inj.mp ha, String.toList_inj.mp hb⟩
      · exact .inr (.inl ⟨.ofList m, String.toList_inj.mp (by simpa using ha),
          String.toList_inj.mp (by simpa using hb)⟩)
    · rcases hgoes ha hb with ⟨ha, hb⟩ | ⟨m, ha, hb⟩
      · exact .inl ⟨String.toList_inj.mp ha.symm, String.toList_inj.mp hb.symm⟩
      · exact .inr (.inr ⟨.ofList m, String.toList_inj.mp (by simpa using ha),
          String.toList_inj.mp (by simpa using hb)⟩)
  · rintro (⟨rfl, rfl⟩ | ⟨m, rfl, rfl⟩ | ⟨m, rfl, rfl⟩) <;> simp [String.append_assoc]

theorem ne_append_colon (a m : String) : a ≠ a ++ ":" ++ m := by
  intro h
  have hlength := congrArg (·.toList.length) h
  simp only [String.toList_append, List.length_append] at hlength
  have hcolon : (":" : String).toList.length = 1 := rfl
  omega

theorem colon_not_mem_value (t : EventType) : ':' ∉ t.value.toList := by
  cases t <;> decide

variable {sha256} {x y : Offered isDateTime}

theorem key_eq (i : Item isDateTime) :
    i.key sha256 = i.identity.head ++ ":" ++ i.identity.tail sha256 := by
  have hcall : ∀ r, ":call:" ++ r = ":" ++ ("call:" ++ r) := fun r => by
    rw [← String.append_assoc]
    rfl
  have hevt : ∀ r, ":evt:" ++ r = ":" ++ ("evt:" ++ r) := fun r => by
    rw [← String.append_assoc]
    rfl
  cases i with
  | event e =>
    cases hsource : present e.sourceCallId with
    | none =>
      simp [Item.key, Item.identity, dedupeKey, hsource, eventKey, hevt, Identity.head,
        Identity.tail, String.append_assoc]
    | some sourceCallId =>
      cases htype : e.eventType.ofCall <;>
        simp [Item.key, Item.identity, dedupeKey, hsource, htype, callKey, eventKey, hcall, hevt,
          Identity.head, Identity.tail, String.append_assoc]
  | alarm a =>
    cases hid : present a.stableId <;>
      simp [Item.key, Item.identity, alarmEventDedupeKey, hid, Identity.head, Identity.tail,
        derivedEventId]

theorem offered_key_eq_iff : x.key sha256 = y.key sha256 ↔
    (x.head = y.head ∧ x.item.identity.tail sha256 = y.item.identity.tail sha256) ∨
      Continues sha256 x y ∨ Continues sha256 y x := by
  simp only [Offered.key, key_eq, ← String.append_assoc]
  exact join_eq_iff

theorem SameItem.head (h : SameItem x y) : x.head = y.head := by
  rw [Offered.head, Offered.head, h.1, h.2]

theorem call_tail_inj {c c' : String} {t t' : EventType}
    (h : c ++ ":" ++ t.value = c' ++ ":" ++ t'.value) : c = c' ∧ t = t' := by
  rcases join_eq_iff.mp h with ⟨hc, ht⟩ | ⟨m, -, ht⟩ | ⟨m, -, ht⟩
  · exact ⟨hc, Telephony.value_injective ht⟩
  · exact absurd (by simp [ht]) (colon_not_mem_value t)
  · exact absurd (by simp [ht]) (colon_not_mem_value t')

theorem identity_eq (hsha : Function.Injective sha256) {a b : Identity}
    (hkind : a.ofTelephony = b.ofTelephony) (hhead : a.head = b.head)
    (htail : a.tail sha256 = b.tail sha256) (halarms : a.AlarmsTold sha256 b) : a = b := by
  cases a with
  | call p c t =>
    cases b with
    | call p' c' t' =>
      obtain ⟨rfl, rfl⟩ := call_tail_inj (by simpa [Identity.tail] using htail)
      obtain rfl : p = p' := by simpa [Identity.head] using hhead
      rfl
    | other p' id' => simpa [Identity.tail] using congrArg String.toList htail
    | alarm | derived => cases hkind
  | other p id =>
    cases b with
    | call p' c' t' => simpa [Identity.tail] using congrArg String.toList htail
    | other p' id' =>
      obtain rfl : p = p' := by simpa [Identity.head] using hhead
      obtain rfl : id = id' := by simpa [Identity.tail] using htail
      rfl
    | alarm | derived => cases hkind
  | alarm p i id =>
    cases b with
    | call | other => cases hkind
    | alarm p' i' id' =>
      obtain rfl := halarms hhead htail
      cases hhead
      cases htail
      rfl
    | derived => exact absurd htail (halarms hhead)
  | derived p i source type subtype occurredAt =>
    cases b with
    | call | other => cases hkind
    | alarm => exact absurd htail.symm (halarms hhead)
    | derived p' i' source' type' subtype' occurredAt' =>
      have hfields := hsha (by simpa [Identity.tail] using htail)
      obtain ⟨rfl, rfl, rfl, rfl, rfl⟩ := halarms hhead hfields
      cases hhead
      rfl

theorem alarmsTold_of_eq {a b : Identity}
    (h : a.head = b.head → a.tail sha256 = b.tail sha256 → a = b) : a.AlarmsTold sha256 b := by
  cases a <;> cases b <;> try trivial
  · intro hp hid
    cases h hp hid
    rfl
  · intro hp hid
    cases h hp hid
  · intro hp hid
    cases h hp hid.symm
  · intro hp hfields
    cases h hp (congrArg (fun text => "derived:" ++ sha256 text) hfields)
    exact ⟨rfl, rfl, rfl, rfl, rfl⟩

/-- **Equal keys mean the same item exactly if the two items are told apart.**  Whatever the texts
of the items are, and if no two texts have one hash. -/
theorem same_item_iff_told_apart (hsha : Function.Injective sha256) (x y : Offered isDateTime) :
    (x.key sha256 = y.key sha256 → SameItem x y) ↔ ToldApart sha256 x y := by
  rw [offered_key_eq_iff]
  constructor
  · intro h
    refine ⟨fun hxy => ?_, fun hyx => ?_, fun hhead htail => ?_, fun hsignal => ?_⟩
    · have hhead := (h (.inr (.inl hxy))).head
      obtain ⟨m, hm, -⟩ := hxy
      exact ne_append_colon _ _ (hhead.trans hm)
    · have hhead := (h (.inr (.inr hyx))).head
      obtain ⟨m, hm, -⟩ := hyx
      exact ne_append_colon _ _ (hhead.symm.trans hm)
    · have hsame := h (.inl ⟨hhead, htail⟩)
      exact ⟨hsame.1, by rw [hsame.2]⟩
    · refine alarmsTold_of_eq fun hhead htail => (h (.inl ⟨?_, htail⟩)).2
      rw [Offered.head, Offered.head, hsignal, hhead]
  · rintro h (⟨hhead, htail⟩ | hxy | hyx)
    · obtain ⟨hsignal, hkind⟩ := h.kind hhead htail
      refine ⟨hsignal, identity_eq hsha hkind ?_ htail (h.alarms hsignal)⟩
      simpa [Offered.head, hsignal] using hhead
    · exact absurd hxy h.forth
    · exact absurd hyx h.back

end Keys

/-- A panic button that is pressed, with the id that the provider gave. -/
def panicAlarm (providerInstanceId id : String) : Offered fun _ => true :=
  ⟨false, .alarm ⟨"coda_video", providerInstanceId, "panic", "button-7", none, none, some id⟩⟩

theorem alarms_told_apart : ToldApart id (panicAlarm "north" "1") (panicAlarm "north" "2") := by
  refine (same_item_iff_told_apart Function.injective_id _ _).mp fun h => ?_
  have hkeys : (panicAlarm "north" "1").key id ≠ (panicAlarm "north" "2").key id := by decide
  exact absurd h hkeys

/-- Two instances of a provider give two alarms the same id: the second panic alarm is dropped as a
duplicate of the first. -/
theorem second_alarm_dropped : (panicAlarm "north" "1").key id = (panicAlarm "south" "1").key id ∧
      ¬ SameItem (panicAlarm "north" "1") (panicAlarm "south" "1") := by
  refine ⟨rfl, fun h => ?_⟩
  exact absurd (Identity.alarm.inj h.2).2.1 (by decide)

end BbzPlatform.Inbox

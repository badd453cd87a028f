import BbzPlatform.Commands.Store
import BbzPlatform.Events.Aggregate

/-!
# What a replay compares

A request is answered from the row of its command id when the hash of what its handler chose to
hash agrees with the hash in the row.  The user and the endpoint are stored with the row but not
compared.

`Command` is a request to one of the command endpoints after the framework has parsed it: the
endpoint, its path parameters and its body.  The headers and the user are in `Request`.  Whatever
a handler rejects before it claims the command id never looks at the row and is not modelled.
-/

namespace BbzPlatform

namespace Json

theorem ofOption_inj {α : Type} {f : α → Json} (hf : Function.Injective f)
    (hnull : ∀ a, f a ≠ .null)
    {a b : Option α} : ofOption f a = ofOption f b ↔ a = b := by
  refine ⟨fun h => ?_, fun h => h ▸ rfl⟩
  cases a with
  | none =>
    cases b with
    | none => rfl
    | some b => exact absurd h.symm (hnull b)
  | some a =>
    cases b with
    | none => exact absurd h (hnull a)
    | some b => exact congrArg some (hf h)

@[simp] theorem ofOption_str {a b : Option String} : ofOption .str a = ofOption .str b ↔ a = b :=
  ofOption_inj (fun _ _ => Json.str.inj) nofun

@[simp] theorem ofOption_int {a b : Option ℤ} : ofOption .int a = ofOption .int b ↔ a = b :=
  ofOption_inj (fun _ _ => Json.int.inj) nofun

end Json

namespace Commands

open Events (EventPriority EventNoteKind strip)

/-- `x or None` for an optional text. -/
def orNone : Option String → Option String
  | some "" => none
  | x => x

/-- The body of `create_event`. -/
@[ext]
structure CreateEventIn where
  title : String
  priority : EventPriority
  description : Option String
  bbzId : Option String
  workplaceId : Option String
  source : String
  deriving DecidableEq

/-- The body of `update_event`: `none` is a field that was not sent, `some none` a `null`. -/
structure UpdateEventIn where
  title : Option (Option String)
  description : Option (Option String)
  priority : Option (Option EventPriority)
  deriving DecidableEq

/-- The body of `reactivate_event`. -/
structure ReactivateEventIn where
  confirm : Bool
  reason : String
  token : String
  deriving DecidableEq

/-- The verbs of `_apply_transition`, with their bodies.  The body of `archive` may be missing. -/
inductive Transition where
  | accept
  | acknowledge
  | open
  | assign (targetUserId : String)
  | archive (body : Option (Option String))
  | reactivate (body : ReactivateEventIn)
  deriving DecidableEq

/-- The actions of `_control`, with their bodies. -/
inductive Control where
  | answer
  | hangup
  | hold
  | resume
  | transfer (destination : String)
  deriving DecidableEq

/-- A command endpoint, with its path parameters and its body. -/
inductive Command where
  | create (body : CreateEventIn)
  | transition (eventId : String) (verb : Transition)
  | update (eventId : String) (body : UpdateEventIn)
  | takeover (eventId : String) (body : Option (Option String))
  | addNote (eventId : String) (kind : EventNoteKind) (body : String)
  | editNote (eventId noteId : String) (body : String)
  | control (callId : String) (action : Control)
  | dial (lineId destination : String)
  deriving DecidableEq

/-- A request: the user, the header `X-Expected-Version` and the command. -/
structure Request where
  userId : String
  expectedVersion : Option ℤ
  command : Command
  deriving DecidableEq

namespace Transition

/-- The word in the path. -/
def verb : Transition → String
  | .accept => "accept"
  | .acknowledge => "acknowledge"
  | .open => "open"
  | .assign _ => "assign"
  | .archive _ => "archive"
  | .reactivate _ => "reactivate"

/-- `body_fields or {}`. -/
def bodyFields : Transition → Json
  | .accept | .acknowledge | .open => .obj []
  | .assign targetUserId => .obj [("target_user_id", .str targetUserId)]
  | .archive body => .obj [("reason", .ofOption .str (orNone (body.bind id)))]
  | .reactivate body => .obj [("reason", .str body.reason)]

end Transition

/-- The word in the path. -/
def Control.action : Control → String
  | .answer => "answer"
  | .hangup => "hangup"
  | .hold => "hold"
  | .resume => "resume"
  | .transfer _ => "transfer"

/-- The fields that were sent, in the order of the model: `model_dump(exclude_unset=True)`. -/
def UpdateEventIn.provided (body : UpdateEventIn) : List (String × Json) :=
  (body.title.map fun title => ("title", Json.ofOption .str title)).toList ++
  (body.description.map fun text => ("description", Json.ofOption .str text)).toList ++
  (body.priority.map fun priority =>
    ("priority", Json.ofOption (fun p : EventPriority => .str p.value) priority)).toList

/-- The endpoint that is stored with the row. -/
def Command.endpoint : Command → String
  | .create _ => "POST /api/v1/events"
  | .transition _ verb => "POST /api/v1/events/{id}/" ++ verb.verb
  | .update _ _ => "PATCH /api/v1/events/{id}"
  | .takeover _ _ => "POST /api/v1/events/{id}/takeover"
  | .addNote _ _ _ => "POST /api/v1/events/{id}/notes"
  | .editNote _ _ _ => "PATCH /api/v1/events/{id}/notes/{note_id}"
  | .control _ action => "POST /api/v1/calls/{id}/" ++ action.action
  | .dial _ _ => "POST /api/v1/calls/dial"

/-- What the handler of the command hands to `request_hash`. -/
def Request.payload (r : Request) : Json :=
  match r.command with
  | .create body => .obj
      [("title", .str body.title), ("priority", .str body.priority.value),
        ("description", .ofOption .str body.description), ("bbz_id", .ofOption .str body.bbzId),
        ("workplace_id", .ofOption .str body.workplaceId), ("source", .str body.source)]
  | .transition eventId verb => .obj
      [("event_id", .str eventId), ("verb", .str verb.verb),
        ("expected_version", .ofOption .int r.expectedVersion), ("fields", verb.bodyFields)]
  | .update eventId body => .obj
      [("event_id", .str eventId), ("expected_version", .ofOption .int r.expectedVersion),
        ("fields", .obj body.provided)]
  | .takeover eventId _ => .obj
      [("event_id", .str eventId), ("verb", .str "takeover"),
        ("expected_version", .ofOption .int r.expectedVersion)]
  | .addNote eventId kind body => .obj
      [("event_id", .str eventId), ("kind", .str kind.value), ("body", .str (strip body))]
  | .editNote _ noteId body => .obj [("note_id", .str noteId), ("body", .str (strip body))]
  | .control callId action => .obj [("call_id", .str callId), ("action", .str action.action)]
  | .dial lineId destination => .obj
      [("line_id", .str lineId), ("destination", .str destination)]

/-- The handler hashes the expected version. -/
def Command.versioned : Command → Bool
  | .transition _ _ | .update _ _ | .takeover _ _ => true
  | .create _ | .addNote _ _ _ | .editNote _ _ _ | .control _ _ | .dial _ _ => false

/-! ## What is left of a command in its payload -/

/-- A transition without the token and the confirmation, and with one form for no reason. -/
def Transition.kept : Transition → Transition
  | .archive body => .archive (some (orNone (body.bind id)))
  | .reactivate body => .reactivate ⟨true, body.reason, ""⟩
  | verb => verb

/-- A control action without the destination of a transfer. -/
def Control.kept : Control → Control
  | .transfer _ => .transfer ""
  | action => action

/-- A command without the reason of a takeover, the event of an edited note and the white space
around the text of a note. -/
def Command.kept : Command → Command
  | .transition eventId verb => .transition eventId verb.kept
  | .takeover eventId _ => .takeover eventId none
  | .addNote eventId kind body => .addNote eventId kind (strip body)
  | .editNote _ noteId body => .editNote "" noteId (strip body)
  | .control callId action => .control callId action.kept
  | command => command

theorem priority_value_inj {p q : EventPriority} : p.value = q.value ↔ p = q := by
  cases p <;> cases q <;> decide

theorem noteKind_value_inj {p q : EventNoteKind} : p.value = q.value ↔ p = q := by
  cases p <;> cases q <;> decide

theorem Control.action_inj {a b : Control} : a.action = b.action ↔ a.kept = b.kept := by
  cases a <;> cases b <;> simp [action, kept]

theorem Transition.hashed_inj {v w : Transition} :
    v.verb = w.verb ∧ v.bodyFields = w.bodyFields ↔ v.kept = w.kept := by
  cases v <;> cases w <;> simp [verb, bodyFields, kept]

theorem UpdateEventIn.provided_inj {a b : UpdateEventIn} : a.provided = b.provided ↔ a = b := by
  refine ⟨fun h => ?_, fun h => h ▸ rfl⟩
  have hpriority {p q : Option EventPriority} :
      Json.ofOption (fun p : EventPriority => .str p.value) p =
        Json.ofOption (fun p : EventPriority => .str p.value) q ↔ p = q :=
    Json.ofOption_inj (fun _ _ h => priority_value_inj.mp (Json.str.inj h)) nofun
  obtain ⟨t, d, p⟩ := a
  obtain ⟨t', d', p'⟩ := b
  cases t <;> cases t' <;> cases d <;> cases d' <;> cases p <;> cases p' <;>
    simp_all [provided]

/-- **Two payloads agree exactly when the kept parts of the commands do**, and the expected
versions where they are hashed. -/
theorem Request.payload_eq_iff (r r' : Request) :
    r.payload = r'.payload ↔ r.command.kept = r'.command.kept ∧
      (r.command.versioned = true → r.expectedVersion = r'.expectedVersion) := by
  obtain ⟨user, version, command⟩ := r
  obtain ⟨user', version', command'⟩ := r'
  -- the keys tell the endpoints apart, so only the diagonal is left to the values
  cases command with
  | create body =>
    cases command' <;> simp [payload, Command.kept, Command.versioned, CreateEventIn.ext_iff,
      priority_value_inj]
  | transition eventId verb =>
    cases command' <;> simp [payload, Command.kept, Command.versioned, ← Transition.hashed_inj]
    tauto
  | update eventId body =>
    cases command' <;> simp [payload, Command.kept, Command.versioned,
      UpdateEventIn.provided_inj]
    tauto
  | takeover eventId body | editNote eventId noteId body | dial lineId destination =>
    cases command' <;> simp [payload, Command.kept, Command.versioned]
  | addNote eventId kind body =>
    cases command' <;> simp [payload, Command.kept, Command.versioned, noteKind_value_inj]
  | control callId action =>
    cases command' <;> simp [payload, Command.kept, Command.versioned, Control.action_inj]

/-! ## Replays -/

section
variable {δ : Type} [DecidableEq δ] (digest : Json → δ)

def Request.claimKey (r : Request) : ClaimKey δ :=
  ⟨some r.userId, r.command.endpoint, digest r.payload⟩

/-- The answer to a request that finds the completed row of the request `r`. -/
def answer (r : Request) (result : StoredResult) (r' : Request) : Except ClaimError StoredResult :=
  lookup (some (complete ⟨r.claimKey digest, none⟩ result)) (r'.claimKey digest).requestHash

/-- No two payloads have the same digest: neither the canonical form nor its hash collides. -/
def CollisionFree : Prop :=
  ∀ r r' : Request, digest r.payload = digest r'.payload → r.payload = r'.payload

/-- The same user sends the same body to the same endpoint with the same path parameters. -/
def SameRequest (r r' : Request) : Prop :=
  r.userId = r'.userId ∧ r.command = r'.command

/-- Requests that show the same in the payload are the same. -/
def Told (r r' : Request) : Prop :=
  r.command.kept = r'.command.kept →
    (r.command.versioned = true → r.expectedVersion = r'.expectedVersion) → SameRequest r r'

theorem answer_eq (hfree : CollisionFree digest) (r r' : Request) (result : StoredResult) :
    (r.payload = r'.payload → answer digest r result r' = .ok result) ∧
      (r.payload ≠ r'.payload → answer digest r result r' = .error .commandConflict) := by
  refine ⟨fun heq => ?_, fun hne => ?_⟩
  · simp [answer, lookup, complete, Request.claimKey, heq]
  · have hdigest : digest r.payload ≠ digest r'.payload := fun h => hne (hfree r r' h)
    simp [answer, lookup, complete, Request.claimKey, hdigest]

/-- **A replay answers the same request exactly when the payload tells the requests apart.** -/
theorem replay_same_iff_told (hfree : CollisionFree digest) (r r' : Request)
    (result : StoredResult) :
    (((∃ stored, answer digest r result r' = .ok stored) → SameRequest r r') ∧
      (¬ SameRequest r r' → answer digest r result r' = .error .commandConflict)) ↔
    Told r r' := by
  obtain ⟨hok, hconflict⟩ := answer_eq digest hfree r r' result
  have hpayload := Request.payload_eq_iff r r'
  constructor
  · rintro ⟨hsame, -⟩ hkept hversion
    exact hsame ⟨result, hok (hpayload.mpr ⟨hkept, hversion⟩)⟩
  · intro htold
    have hsame (heq : r.payload = r'.payload) : SameRequest r r' :=
      htold (hpayload.mp heq).1 (hpayload.mp heq).2
    refine ⟨?_, fun hne => hconflict fun heq => hne (hsame heq)⟩
    rintro ⟨stored, hstored⟩
    by_contra hne
    rw [hconflict fun heq => hne (hsame heq)] at hstored
    cases hstored

end

/-- Hashing the identity is free of collisions, and two users' notes on different events are told
apart. -/
theorem notes_told_apart :
    ¬ SameRequest ⟨"anna", none, .addNote "e1" .work "on site"⟩
        ⟨"ben", none, .addNote "e2" .work "on site"⟩ ∧
      answer id ⟨"anna", none, .addNote "e1" .work "on site"⟩ ⟨201, .null⟩
        ⟨"ben", none, .addNote "e2" .work "on site"⟩ = .error .commandConflict := by
  have hne : ¬ SameRequest ⟨"anna", none, .addNote "e1" .work "on site"⟩
      ⟨"ben", none, .addNote "e2" .work "on site"⟩ := by
    rintro ⟨h, -⟩
    revert h
    decide
  refine ⟨hne, ((replay_same_iff_told id (fun _ _ h => h) _ _ _).mpr ?_).2 hne⟩
  intro hkept
  simp [Command.kept] at hkept

/-- A transfer to a second destination, sent by another user with the command id of a transfer of
the same call, is answered with the result of the first. -/
theorem transfer_replayed :
    ∃ r r' result, CollisionFree (id : Json → Json) ∧ ¬ SameRequest r r' ∧
      r.userId ≠ r'.userId ∧ r.command ≠ r'.command ∧ answer id r result r' = .ok result := by
  refine ⟨⟨"anna", none, .control "call" (.transfer "110")⟩,
    ⟨"ben", none, .control "call" (.transfer "112")⟩, ⟨200, .null⟩, fun _ _ h => h, ?_,
    by decide, by decide, ?_⟩
  · rintro ⟨h, -⟩
    revert h
    decide
  · rfl

end Commands

end BbzPlatform

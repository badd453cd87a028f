import BbzPlatform.Json
import BbzPlatform.Lib.Bytes

/-!
# The limit on request bodies

`BodyLimitMiddleware` reads the body of a request up to a limit and hands it to the app as one
message.  It says of every body that it is complete, also of one that the client broke off.

## Main definitions

* `Message`, `Scope` — what the server gets from a client.
* `handle` — what the middleware does with it.
* `Transparent` — the app gets complete bodies within the limit, and nothing else.
-/

namespace BbzPlatform.Api

/-- A message from `receive()`: a chunk of the body, or a disconnect or the like. -/
inductive Message where
  | request (body : Option (List UInt8)) (moreBody : Option Bool)
  | other (type : String)

structure Scope where
  type : String
  method : Option String
  headers : List (List UInt8 × List UInt8)

/-- What is sent to the client; the body is the text of a JSON value. -/
inductive Sent where
  | start (status : ℕ) (headers : List (String × String))
  | body (value : Json)

/-- The app gets the client's messages as they are, the client is turned away, the app gets the body
as one message with a message behind it, or the client is waited for. -/
inductive Handling where
  | passOn
  | reject
  | replay (body : List UInt8) (trailing : Option Message)
  | waiting

def bodyMethods : List String := ["POST", "PUT", "PATCH", "DELETE"]

def declaredLength (headers : List (List UInt8 × List UInt8)) : Option ℤ :=
  (headers.find? (·.1 = Bytes.ofString "content-length")).bind fun h => Bytes.parseInt h.2

/-- The loop that reads the body. -/
def collect (maxBytes : ℤ) : List UInt8 → List Message → Handling
  | _, [] => .waiting
  | body, .other type :: _ => .replay body (some (.other type))
  | body, .request chunk moreBody :: rest =>
    let body := body ++ chunk.getD []
    if maxBytes < body.length then .reject
    else if moreBody.getD false then collect maxBytes body rest
    else .replay body none

/-- `str.upper` of a method, which is ASCII. -/
def upper (method : String) : String := String.ofList (method.toList.map Char.toUpper)

/-- `BodyLimitMiddleware.__call__`. -/
def handle (maxBytes : ℤ) (scope : Scope) (messages : List Message) : Handling :=
  if scope.type ≠ "http" ∨ maxBytes ≤ 0 ∨ upper (scope.method.getD "GET") ∉ bodyMethods then .passOn
  else if (declaredLength scope.headers).any (maxBytes < ·) then .reject
  else collect maxBytes [] messages

namespace Handling

/-- The messages that the app gets before those of the client, if it is called. -/
def delivered : Handling → Option (List Message)
  | passOn => some []
  | replay body trailing => some (.request (some body) (some false) :: trailing.toList)
  | reject | waiting => none

/-- What the middleware itself sends. -/
def sent (maxBytes : ℤ) : Handling → List Sent
  | reject => [.start 413 [("content-type", "application/json")],
      .body (.obj [("error", .obj [("code", .str "payload_too_large"),
        ("message", .str ("request body exceeds " ++ toString maxBytes ++ " bytes")),
        ("details", .null), ("correlation_id", .null)])])]
  | _ => []

end Handling

/-- How the chunks of a body end: not yet, with the final one, or with another message. -/
inductive Ending where
  | open
  | final
  | cut (m : Message)

/-- The bytes of the chunks. -/
def received : List Message → List UInt8
  | [] | .other _ :: _ => []
  | .request chunk moreBody :: rest =>
    chunk.getD [] ++ if moreBody.getD false then received rest else []

/-- What is done with a body within the limit. -/
def Ending.handled (body : List UInt8) : Ending → Handling
  | .open => .waiting
  | .final => .replay body none
  | .cut m => .replay body (some m)

variable {maxBytes : ℤ} {body : List UInt8} {messages : List Message}

def chunk (body : List UInt8) (moreBody : Bool) : Message := .request (some body) (some moreBody)

end BbzPlatform.Api

import Entitlement.Custody.Delivery

/-! # Responses

A response has a status, header fields and a body. The body is a text that is complete, or the feed
of events, which starts with the event in effect and does not end. The length of a complete body is
told; that of the feed is not known.
-/

namespace Entitlement.Http

/-- The body of a response. -/
inductive Body where
  | complete (text : String)
  | feed (first : Custody.Event)
  deriving DecidableEq

/-- A response, with its header fields in ascending order of their names. -/
structure Response where
  status : Nat
  headers : Table String
  body : Body
  deriving DecidableEq

namespace Response

/-- A response without a body. -/
def bare (status : Nat) : Response :=
  ⟨status, ∅, .complete ""⟩

/-- A response with plain text. -/
def plain (status : Nat) (text : String) : Response :=
  ⟨status, .ofList [("content-type", "text/plain; charset=utf-8")], .complete text⟩

/-- A response with a JSON document. -/
def json (status : Nat) (document : String) : Response :=
  ⟨status, .ofList [("content-type", "application/json")], .complete document⟩

/-- A response with the feed of events. -/
def feed (first : Custody.Event) : Response :=
  ⟨200, .ofList [("content-type", "application/x-ndjson")], .feed first⟩

/-- Sets a header field. -/
def withHeader (name value : String) (response : Response) : Response :=
  { response with headers := response.headers.set name value }

/-- Tells the length of a complete body. -/
def measured (response : Response) : Response :=
  match response.body with
  | .complete text => response.withHeader "content-length" (toString text.utf8ByteSize)
  | .feed _ => response

/-- Leaves the body out. -/
def withoutBody (response : Response) : Response :=
  { response with body := .complete "" }

/-- The text of the body that is there at once. -/
def text (response : Response) : String :=
  match response.body with
  | .complete text => text
  | .feed first => Custody.lines [first]

/-- Whether more of the body may follow. -/
def isOpen (response : Response) : Bool :=
  match response.body with
  | .complete _ => false
  | .feed _ => true

end Response

end Entitlement.Http

/-
# Requests and responses

What is sent to a server and what comes back. A request with a mapping or a list as its body sends
JSON; any other body is sent as text. A response with a JSON content type carries a value, unless
its body is no JSON; any other carries its text.

* `SentRequest.build`: the request that is sent;
* `Response.data`: the value a response carries.
-/
import Statechart.Http.Address
import Statechart.Json.Writer

namespace Statechart

/-- A request as it is sent. -/
structure SentRequest where
  method : String
  url : String
  /-- Names in lower case. -/
  headers : List (String × String)
  body : String
deriving Repr, Inhabited

namespace SentRequest

/-- The first stretch of characters outside ASCII: its first character, its start and its end. -/
def firstForeign? (cs : List Char) : Option (Char × Nat × Nat) :=
  let start := (cs.takeWhile (·.toNat < 0x80)).length
  let foreign := (cs.drop start).takeWhile (0x80 ≤ ·.toNat)
  foreign.head?.map fun c => (c, start, start + foreign.length - 1)

/-- A text that may stand in a header. -/
def headerText (s : String) : Except DataFault String :=
  match firstForeign? s.toList with
  | some (c, first, last) => .error (.notAscii c first last)
  | none => .ok s

/-- Headers with names in lower case. -/
def headerList (headers : List (String × String)) : Except DataFault (List (String × String)) :=
  headers.mapM fun (k, v) => return (toLowerCase (← headerText k), ← headerText v)

mutual

/-- Whether every number of a value has a JSON notation. -/
def isPlain : Value → Bool
  | .float x => isFinite x
  | .list vs => arePlain vs
  | .dict es => entriesPlain es
  | _ => true

def arePlain : List Value → Bool
  | [] => true
  | v :: vs => isPlain v && arePlain vs

def entriesPlain : List (Key × Value) → Bool
  | [] => true
  | (_, v) :: es => isPlain v && entriesPlain es

end

/-- The body of a request and whether it is JSON. -/
def bodyText (body : Value) : Except DataFault (String × Bool) :=
  match body with
  | .null => .ok ("", false)
  | .dict _ | .list _ => if isPlain body then .ok (Json.compact body, true) else .error .notJson
  | v => return (← v.shown, false)

/-- The request that is sent, or what is wrong with its parts. -/
def build (base : Option String) (method url : String) (headers : List (String × String))
    (params : Entries) (body : Value) : Except DataFault SentRequest := do
  let address ← (← Address.resolve (base.getD "") url).withParams params
  let headers ← headerList headers
  let (body, isJson) ← bodyText body
  let headers :=
    if isJson && (headers.lookup "content-type").isNone then
      headers ++ [("content-type", "application/json")]
    else headers
  return { method, url := address.text, headers, body }

end SentRequest

/-- What comes back. -/
structure Response where
  status : Int
  /-- Names in lower case. -/
  headers : List (String × String)
  body : String
deriving Repr, Inhabited

namespace Response

/-- A response with its length among the headers, unless the body is empty. -/
def ofParts (status : Int) (headers : List (String × String)) (body : String) : Response :=
  { status
    headers := if body.isEmpty || (headers.lookup "content-length").isSome then headers
      else headers ++ [("content-length", toString body.utf8ByteSize)]
    body }

/-- The text of a body without a leading mark of its encoding. -/
def withoutMark (s : String) : String :=
  match s.toList with
  | c :: cs => if c.toNat = 0xfeff then String.ofList cs else s
  | [] => s

/-- The value a response carries. -/
def data (r : Response) : Value :=
  if r.body.isEmpty then .null
  else if occurs "json" ((r.headers.lookup "content-type").getD "") then
    match Json.read (withoutMark r.body) with
    | .ok v => v
    | .error _ => .text r.body
  else .text r.body

/-- Whether the status is one of success. -/
def isSuccess (r : Response) : Bool := 200 ≤ r.status && r.status ≤ 299

end Response

/-- The answer to a request: a response, no answer in time, or another failure of the network. -/
inductive Reply where
  | response (r : Response)
  | timeout
  | failure (message : String)
deriving Repr, Inhabited

end Statechart

/-
# Addresses

An address has a scheme, an authority, a path, a query and a fragment. Characters that may not stand
in a part are percent-encoded; escapes that are already there stay. A relative address is appended
to the path of a base address, an absolute one ignores the base; the parameters of a request take
the place of the query.

* `Address.parse`, `Address.text`;
* `Address.resolve`: an address against a base;
* `Address.withParams`: an address with the parameters of a request.
-/
import Statechart.Fault.Data
import Statechart.Text.Case

namespace Statechart

/-- The parts of an address. -/
structure Address where
  scheme : String := ""
  authority : String := ""
  path : String := ""
  query : Option String := none
  fragment : Option String := none
deriving DecidableEq, Repr, Inhabited

namespace Address

/-! ## 1. Percent-encoding -/

/-- The escape of a byte. -/
def escape (b : UInt8) : List Char :=
  '%' :: (hexDigits 2 b.toNat).map Char.toUpper

/-- The escapes of a character. -/
def escapes (c : Char) : List Char := (String.singleton c).toUTF8.toList.flatMap escape

/-- Letters, digits and the four marks that are never escaped. -/
def isUnreserved (c : Char) : Bool := c.isAlphanum || ['-', '.', '_', '~'].contains c

/-- A visible character of ASCII that is none of the given ones. -/
def isVisibleBut (except : List Char) (c : Char) : Bool :=
  0x20 < c.toNat && c.toNat < 0x7f && !except.contains c

/-- A text with the characters that may not stand in it escaped. -/
def encode (isSafe : Char → Bool) (s : String) : String :=
  String.ofList (s.toList.flatMap fun c => if isSafe c then [c] else escapes c)

def pathSafe : Char → Bool := isVisibleBut ['"', '#', '<', '>', '?', '`', '{', '}']
def querySafe : Char → Bool := isVisibleBut ['"', '#', '<', '>']
def fragmentSafe : Char → Bool := isVisibleBut ['"', '<', '>', '`']

/-- A name or a value inside a query: a space becomes a plus sign. -/
def encodeField (s : String) : String :=
  String.ofList (s.toList.flatMap fun c =>
    if c = ' ' then ['+'] else if isUnreserved c then [c] else escapes c)

/-! ## 2. Reading an address -/

/-- Characters of a scheme after its first. -/
def isSchemeChar (c : Char) : Bool := c.isAlphanum || ['+', '.', '-'].contains c

/-- A scheme, which may be empty or begins with a letter, and the characters after its colon. -/
def scheme? (cs : List Char) : Option (String × List Char) :=
  let name := cs.takeWhile isSchemeChar
  match cs.dropWhile isSchemeChar with
  | ':' :: rest =>
    if name.head?.all Char.isAlpha then some (toLowerCase (String.ofList name), rest) else none
  | _ => none

/-- The ports that schemes have anyway. -/
def defaultPort (scheme : String) : Option Int :=
  [("ftp", 21), ("http", 80), ("https", 443), ("ws", 80), ("wss", 443)].lookup scheme

/-- An authority: the host in lower case, and a port unless it is the usual one. -/
def readAuthority (scheme : String) (cs : List Char) : Except DataFault String := do
  let s := String.ofList cs
  let (user, hostPort) := match cutAt '@' s with
    | (u, some rest) => (u ++ "@", rest)
    | (all, none) => ("", all)
  let (host, port) := match hostPort.toList with
    | '[' :: _ =>
      let inside := hostPort.toList.takeWhile (· ≠ ']')
      (String.ofList (inside ++ [']']), String.ofList ((hostPort.toList.drop (inside.length + 2))))
    | _ => let (h, p) := cutAt ':' hostPort; (h, p.getD "")
  let host := user ++ toLowerCase host
  if port.isEmpty then return host
  match Numeral.int? port with
  | none => .error (.badAddress ("Invalid port: " ++ quoted port))
  | some n => return if defaultPort scheme = some n then host else host ++ ":" ++ toString n

/-- The parts of a path without its steps to the same place or one up. -/
def stepsFrom (done : List String) : List String → List String
  | [] => done.reverse
  | "." :: rest => stepsFrom done rest
  | ".." :: rest => stepsFrom (if done = [""] then done else done.drop 1) rest
  | part :: rest => stepsFrom (part :: done) rest

/-- A path without steps to the same place or one up. -/
def normalizePath (path : String) : String :=
  let parts := splitAt '/' path
  if parts.contains "." || parts.contains ".." then "/".intercalate (stepsFrom [] parts) else path

/-- An address of its raw parts, checked and encoded. -/
def build (scheme authority path : String) (query fragment : Option String) :
    Except DataFault Address := do
  if !authority.isEmpty then
    if !path.isEmpty && !beginsWith "/" path then
      .error (.badAddress "For absolute URLs, path must be empty or begin with '/'")
  else if scheme.isEmpty then
    if beginsWith "//" path then
      .error (.badAddress "Relative URLs cannot have a path starting with '//'")
    if beginsWith ":" path then
      .error (.badAddress "Relative URLs cannot have a path starting with ':'")
  let path := if scheme.isEmpty && authority.isEmpty then path else normalizePath path
  return {
    scheme, authority
    path := encode pathSafe path
    query := query.map (encode querySafe)
    fragment := fragment.map (encode fragmentSafe) }

/-- The first control character and its position. -/
def control? (pos : Nat) : List Char → Option (Char × Nat)
  | [] => none
  | c :: cs => if c.toNat < 0x20 ∨ c.toNat = 0x7f then some (c, pos) else control? (pos + 1) cs

/-- The address of a text. -/
def parse (s : String) : Except DataFault Address := do
  if let some (c, pos) := control? 0 s.toList then
    .error (.badAddress ("Invalid non-printable ASCII character in URL, " ++
      quoted (String.singleton c) ++ " at position " ++ toString pos ++ "."))
  let (scheme, rest) := (scheme? s.toList).getD ("", s.toList)
  let stops : Char → Bool := fun c => c ≠ '/' && c ≠ '?' && c ≠ '#'
  let (authority, rest) := match rest with
    | '/' :: '/' :: rest => (rest.takeWhile stops, rest.dropWhile stops)
    | rest => ([], rest)
  let authority ← readAuthority scheme authority
  let (before, fragment) := cutAt '#' (String.ofList rest)
  let (path, query) := cutAt '?' before
  build scheme authority path query fragment

/-- The text of an address. -/
def text (a : Address) : String :=
  (if a.scheme.isEmpty then "" else a.scheme ++ ":") ++
  (if a.authority.isEmpty then "" else "//" ++ a.authority) ++ a.path ++
  (match a.query with | some q => "?" ++ q | none => "") ++
  (match a.fragment with | some f => "#" ++ f | none => "")

/-! ## 3. Base addresses and parameters -/

/-- The path and the query, as they are sent. -/
def target (a : Address) : String :=
  (if a.path.isEmpty then "/" else a.path) ++ (match a.query with | some q => "?" ++ q | none => "")

/-- The address with another path and query. -/
def withTarget (a : Address) (target : String) : Except DataFault Address :=
  let (path, query) := cutAt '?' target
  build a.scheme a.authority path query a.fragment

def isAbsolute (a : Address) : Bool := !a.scheme.isEmpty && !a.authority.isEmpty

/-- An address against a base, which counts as a directory. -/
def resolve (base : String) (address : String) : Except DataFault Address := do
  let base ← parse base
  let base ← if base.target.toList.getLast? = some '/' then pure base
    else base.withTarget (base.target ++ "/")
  let a ← parse address
  if a.isAbsolute then return a
  base.withTarget (base.target ++ String.ofList (a.target.toList.dropWhile (· = '/')))

/-- The text of a single parameter value. -/
def fieldText (v : Value) : Except DataFault String :=
  match v with
  | .bool b => .ok (if b then "true" else "false")
  | .null => .ok ""
  | v => v.shown

/-- The fields of parameters: a list gives one field for each item. -/
def fields (params : Entries) : Except DataFault (List String) := do
  let groups ← params.mapM fun (k, v) => do
    let items := match v with
      | .list vs => vs
      | v => [v]
    items.mapM fun v => return encodeField k.display ++ "=" ++ encodeField (← fieldText v)
  return groups.flatten

/-- The address with parameters in the place of its query; without parameters it has no query. -/
def withParams (a : Address) (params : Entries) : Except DataFault Address := do
  if params.isEmpty then return { a with query := none }
  return { a with query := some ("&".intercalate (← fields params)) }

end Address

end Statechart

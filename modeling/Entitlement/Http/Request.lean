/-! # Requests

A request has a method, a target and header fields. Of the target only the path matters to routing;
it is compared as it is written, without undoing any escapes. Methods and field names are tokens of
the protocol, but any token is a method.
-/

namespace Entitlement.Http

/-- A request with the path of its target. -/
structure Request where
  method : String
  path : String
  headers : List (String × String)

/-- The part of a request that is not well formed. -/
inductive RequestError where
  | method | target | headers
  deriving DecidableEq

/-- The characters of methods and field names. -/
def isTokenChar (c : Char) : Bool :=
  c.isAlphanum || "!#$%&'*+-.^_|~".toList.contains c || c.toNat == 0x60

def isToken (text : String) : Bool :=
  text ≠ "" && text.toList.all isTokenChar

/-- The characters of a field value. Those beyond ASCII are passed on as they are. -/
def isFieldChar (c : Char) : Bool :=
  c == '\t' || (0x20 ≤ c.toNat && c.toNat ≠ 0x7f)

/-! ## Targets -/

/-- The characters that stand for themselves in a path. -/
def isPathChar (c : Char) : Bool :=
  c == '!' || c == '"' || ('$' ≤ c && c ≤ ';') || c == '=' || ('@' ≤ c && c ≤ '_') ||
    ('a' ≤ c && c ≤ '~') || 0x7f ≤ c.toNat

/-- The characters that stand for themselves in a query. -/
def isQueryChar (c : Char) : Bool :=
  c == '!' || ('$' ≤ c && c ≤ ';') || c == '=' || '?' ≤ c

/-- The path of what follows the authority in a target; a query and a fragment are left out. -/
def pathOfRest? (rest : List Char) : Option String :=
  let path := rest.takeWhile fun c => c ≠ '?' ∧ c ≠ '#'
  let query :=
    match rest.drop path.length with
    | '?' :: more => more.takeWhile (· ≠ '#')
    | _ => []
  if path.all isPathChar ∧ query.all isQueryChar then
    some (if path = [] then "/" else String.ofList path)
  else none

/-- The characters of an authority, among which some have to be in their places. -/
def isAuthorityChar (c : Char) : Bool :=
  c.isAlphanum || "!$&'()*+,-.:;=@[]_~".toList.contains c

/-- Whether a host, with a port or without one, is well formed. -/
def isHost (host : List Char) : Bool :=
  match host with
  | '[' :: address =>
    match address.dropWhile (· ≠ ']') with
    | [] => false
    | _ :: port => !port.contains '[' && !port.contains ']' && port.count ':' ≤ 1
  | _ => !host.contains '[' && !host.contains ']' && host.count ':' ≤ 1

/-- Whether an authority is well formed: a host, perhaps after a user. -/
def isAuthority (authority : List Char) : Bool :=
  authority.all isAuthorityChar &&
    (let host := (authority.reverse.takeWhile (· ≠ '@')).reverse
    host ≠ [] && isHost host)

/-- The characters of a scheme. -/
def isSchemeChar (c : Char) : Bool :=
  c.isAlphanum || c == '+' || c == '-' || c == '.'

/-- What follows the scheme of a target that names one. -/
def afterScheme? (target : List Char) : Option (List Char) :=
  let scheme := target.takeWhile isSchemeChar
  match target.drop scheme.length with
  | ':' :: '/' :: '/' :: rest => if scheme = [] then none else some rest
  | _ => none

/-- The path of a target. A target that only names an authority has an empty path. -/
def pathOf? (target : String) : Option String :=
  match target.toList with
  | [] => none
  | ['*'] => some "*"
  | '/' :: rest => pathOfRest? ('/' :: rest)
  | cs =>
    match afterScheme? cs with
    | some rest =>
      let authority := rest.takeWhile fun c => c ≠ '/' ∧ c ≠ '?' ∧ c ≠ '#'
      if isAuthority authority then pathOfRest? (rest.drop authority.length) else none
    | none => if isAuthority cs then some "" else none

/-- A request, if all its parts are well formed. -/
def Request.of? (method target : String) (headers : List (String × String)) :
    Except RequestError Request :=
  if ¬ isToken method then .error .method
  else
    match pathOf? target with
    | none => .error .target
    | some path =>
      if headers.all fun (name, value) => isToken name && value.toList.all isFieldChar then
        .ok ⟨method, path, headers⟩
      else .error .headers

end Entitlement.Http

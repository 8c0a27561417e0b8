import Iceslab.Lib.JsText
import Iceslab.Lib.JsUri
import Iceslab.Lib.OrderedMap

/-!
# The secrets of a request's URL in the log

`log-redact.ts`: a path parameter named `token`, or ending in `Token`, is a secret, and so is the
value of a query key that names one.

* `secretPrefixOf` — the pattern a route's spelling gives.
* `secretMatch` — the segment the first pattern that matches takes.
* `redactUrl`, `carriesSecret` — the URL as the log holds it, and whether its requester is cut.
-/

set_option autoImplicit false

namespace Iceslab.LogRedact

open JsText

/-! ## Masks -/

def MASK : String := "***"

/-- `value.slice(0, 4)` and the mask; a URL of the request line has one unit a character. -/
def maskSecret (value : String) : String :=
  if 12 ≤ value.length then String.ofList (value.toList.take 4) ++ MASK else MASK

/-- `/^token$|Token$/` -/
def SECRET_PARAM (name : String) : Bool :=
  decide (name = "token") || "Token".toList.isSuffixOf name.toList

/-- `/token|secret|password|passwd|key/i` -/
def SECRET_QUERY (key : String) : Bool :=
  let lower := key.toList.map Char.toLower
  ["token", "secret", "password", "passwd", "key"].any fun word =>
    lower.tails.any fun rest => word.toList.isPrefixOf rest

/-! ## The pattern of a route -/

/-- What a pattern asks of the segments before the secret one: a text, or any. -/
abbrev Pattern := List (Option String)

/-- `seg.slice(1).replace(/\(.*$/, '').replace(/\?$/, '')` -/
def paramName (seg : String) : String :=
  let cs := seg.toList.tail.takeWhile (· ≠ '(')
  String.ofList (if cs.getLast? = some '?' then cs.dropLast else cs)

/-- The loop over the segments; `out` is what it has gathered. -/
def secretPrefixFrom (out : Pattern) : List String → Option Pattern
  | [] => none
  | seg :: segments =>
    if seg.toList.head? = some ':' then
      if SECRET_PARAM (paramName seg) then some out
      else secretPrefixFrom (out ++ [none]) segments
    else if '*' ∈ seg.toList ∨ ':' ∈ seg.toList then none
    else secretPrefixFrom (out ++ [some seg]) segments

/-- The segments before the secret parameter; none gathered is the empty text before the slash. -/
def secretPrefixOf (routeUrl : String) : Option Pattern :=
  (secretPrefixFrom [] (split '/' routeUrl)).map fun out => if out = [] then [some ""] else out

/-- The patterns of the routes, in the order they were added. -/
def secretPrefixes (routes : List String) : OrderedMap String Pattern :=
  routes.foldl (fun seen url =>
    match secretPrefixOf url with
    | some re => seen.set url re
    | none => seen) OrderedMap.empty

/-! ## The match -/

/-- `[^/?#]` -/
def isSegmentChar (c : Char) : Bool := decide (c ≠ '/' ∧ c ≠ '?' ∧ c ≠ '#')

/-- `[^/?#]+` at the start of a segment, empty where it does not match. -/
def captured (seg : String) : String := String.ofList (seg.toList.takeWhile isSegmentChar)

def takes (piece : Option String) (seg : String) : Bool :=
  match piece with
  | some text => decide (seg = text)
  | none => decide (seg ≠ "") && seg.toList.all isSegmentChar

/-- `re.exec(path)`: the segment that is captured, the one after the pattern's. -/
def Pattern.exec (re : Pattern) (path : String) : Option Nat :=
  let segments := split '/' path
  if decide (re.length < segments.length) && (re.zip segments).all (fun e => takes e.1 e.2)
      && decide (captured (segments.getD re.length "") ≠ "") then some re.length
  else none

def secretMatch (routes : List String) (path : String) : Option Nat :=
  (secretPrefixes routes).values.findSome? fun re => re.exec path

/-! ## The URL -/

/-- Before the first `?`. -/
def pathOf (url : String) : String := String.ofList (url.toList.takeWhile (· ≠ '?'))

/-- After it. -/
def queryOf (url : String) : Option String :=
  match url.toList.dropWhile (· ≠ '?') with
  | [] => none
  | _ :: query => some (String.ofList query)

/-- What was captured of the segment gives way to its mask. -/
def maskHead (seg : String) : String :=
  maskSecret (captured seg) ++ String.ofList (seg.toList.dropWhile isSegmentChar)

def maskSegment (i : Nat) (path : String) : String :=
  String.intercalate "/" ((split '/' path).modify i maskHead)

/-- The key of a pair, decoded where it can be. -/
def keyOf (pair : String) : String :=
  let key := String.ofList (pair.toList.takeWhile (· ≠ '='))
  (JsUri.decodeURIComponent key).getD key

def isSecretPair (pair : String) : Bool := decide ('=' ∈ pair.toList) && SECRET_QUERY (keyOf pair)

def redactPair (pair : String) : String :=
  if isSecretPair pair then String.ofList (pair.toList.takeWhile (· ≠ '=')) ++ "=" ++ MASK else pair

def redactQuery (query : String) : String :=
  String.intercalate "&" ((split '&' query).map redactPair)

def redactPath (segment : Option Nat) (path : String) : String :=
  match segment with
  | some i => maskSegment i path
  | none => path

/-- The URL with one segment masked, and the values of the secret keys. -/
def redactAt (segment : Option Nat) (url : String) : String :=
  match queryOf url with
  | none => redactPath segment (pathOf url)
  | some query => redactPath segment (pathOf url) ++ "?" ++ redactQuery query

def redactUrl (routes : List String) (url : String) : String :=
  redactAt (secretMatch routes (pathOf url)) url

def carriesSecret (routes : List String) (url : String) : Bool :=
  (secretMatch routes (pathOf url)).isSome

end Iceslab.LogRedact

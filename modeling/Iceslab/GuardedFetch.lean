import Iceslab.Lib.UrlHost

/-!
# Fetching an address an operator typed

`guarded-fetch.ts`: the host is not loopback, private, link-local or cloud metadata, on the first
request and on every redirect.

* `isBlockedHost`, `assertPublicHttpUrl` — the check of one address.
* `fetchGuarded` — the requests, one for each address on the way.
-/

set_option autoImplicit false

namespace Iceslab.GuardedFetch

open UrlHost

/-! ## The host -/

/-- `/^172\.(1[6-9]|2\d|3[01])\./` -/
def isPrivate172 (h : List Char) : Bool :=
  match h with
  | '1' :: '7' :: '2' :: '.' :: a :: b :: '.' :: _ =>
    decide (a = '1' ∧ b ∈ ['6', '7', '8', '9']) || (decide (a = '2') && b.isDigit)
      || decide (a = '3' ∧ b ∈ ['0', '1'])
  | _ => false

def BLOCKED_HOST_PATTERNS : List (List Char → Bool) :=
  [fun h => "127.".toList.isPrefixOf h, fun h => "10.".toList.isPrefixOf h,
    fun h => "192.168.".toList.isPrefixOf h, isPrivate172,
    fun h => "169.254.".toList.isPrefixOf h, fun h => "0.".toList.isPrefixOf h]

/-- `(0{0,4}:)` off the front -/
def zeroGroup (h : List Char) : Option (List Char) :=
  match h.dropWhile (· = '0') with
  | ':' :: rest => if (h.takeWhile (· = '0')).length ≤ 4 then some rest else none
  | _ => none

/-- `/^(0{0,4}:){0,k}:?ffff:/` -/
def isMapped : Nat → List Char → Bool
  | k, h =>
    "ffff:".toList.isPrefixOf h || ":ffff:".toList.isPrefixOf h ||
      match k with
      | 0 => false
      | k + 1 => (zeroGroup h).any (isMapped k)

/-- `.replace(/^\[|\]$/g, '')` -/
def stripBrackets (h : List Char) : List Char :=
  let h := if h.head? = some '[' then h.tail else h
  if h.getLast? = some ']' then h.dropLast else h

/-- Loopback, private, link-local or metadata; a host name is ASCII. -/
def isBlockedHost (host : String) : Bool :=
  let h := stripBrackets (host.toList.map Char.toLower)
  if h = "localhost".toList ∨ ".localhost".toList.isSuffixOf h ∨ ".internal".toList.isSuffixOf h
      ∨ ".local".toList.isSuffixOf h ∨ h = "0.0.0.0".toList then true
  else if ':' ∈ h ∧ (h = "::1".toList ∨ "fc".toList.isPrefixOf h ∨ "fd".toList.isPrefixOf h
      ∨ ∃ c ∈ ['8', '9', 'a', 'b'], ['f', 'e', c].isPrefixOf h) then true
  -- after `64:ff9b:` the zero groups of the pattern may be none
  else if ':' ∈ h ∧ (isMapped 5 h ∨ "::ffff:".toList.isPrefixOf h ∨ "64:ff9b:".toList.isPrefixOf h)
    then true
  else BLOCKED_HOST_PATTERNS.any fun re => re h

/-! ## The address -/

inductive ErrorKind where
  | address
  | redirect
  | tooLarge
  deriving DecidableEq, Repr

structure GuardedFetchError where
  message : String
  kind : ErrorKind
  status : Option Nat := none
  deriving DecidableEq, Repr

/-- A parsed URL; the host of a special one is a name or an address. -/
structure Url where
  protocol : String
  host : Host
  special : protocol = "https:" ∨ protocol = "http:" → ∀ text, host ≠ .opaqueHost text

/-- The URL parser: `new URL(raw)` and `new URL(loc, at).toString()`, `none` where they throw. -/
structure Parser where
  parse : String → Option Url
  resolve : String → String → Option String

def assertPublicHttpUrl (P : Parser) (raw : String) : Except GuardedFetchError Url :=
  match P.parse raw with
  | none => .error ⟨"\"" ++ raw ++ "\" is not a URL", .address, none⟩
  | some u =>
    if u.protocol ≠ "https:" ∧ u.protocol ≠ "http:" then
      .error ⟨"only http and https are fetched, not " ++ u.protocol, .address, none⟩
    else if isBlockedHost u.host.hostname then
      .error ⟨"the host " ++ u.host.hostname
        ++ " is not fetched (loopback, private or metadata)", .address, none⟩
    else .ok u

/-! ## The requests -/

def MAX_REDIRECTS : Nat := 3

structure Answer where
  status : Nat
  location : Option String
  deriving DecidableEq, Repr

inductive Outcome where
  | answered (res : Answer)
  | refused (e : GuardedFetchError)
  /-- the fetch itself, or the parsing of a `Location`, threw -/
  | threw
  deriving DecidableEq, Repr

def isRedirect (status : Nat) : Bool := decide (300 ≤ status ∧ status < 400 ∧ status ≠ 304)

def noLocation (status : Nat) (from_ : String) : GuardedFetchError :=
  ⟨"redirect " ++ toString status ++ " without a Location from " ++ from_, .redirect, some status⟩

/-- The hops that are left: the addresses that are requested, and how it ends. -/
def fetchFrom (P : Parser) (fetchImpl : Nat → String → Option Answer) (url : String) :
    Nat → String → List String × Outcome
  | 0, _ =>
    ([], .refused ⟨"more than " ++ toString MAX_REDIRECTS ++ " redirects from " ++ url, .redirect,
      none⟩)
  | hops + 1, address =>
    match assertPublicHttpUrl P address with
    | .error e => ([], .refused e)
    | .ok _ =>
      match fetchImpl hops address with
      | none => ([address], .threw)
      | some res =>
        if isRedirect res.status then
          match res.location.filter fun loc => decide (loc ≠ "") with
          | none => ([address], .refused (noLocation res.status address))
          | some loc =>
            match P.resolve loc address with
            | none => ([address], .threw)
            | some next =>
              let rest := fetchFrom P fetchImpl url hops next
              (address :: rest.1, rest.2)
        else ([address], .answered res)

def fetchGuarded (P : Parser) (fetchImpl : Nat → String → Option Answer) (url : String) :
    List String × Outcome :=
  fetchFrom P fetchImpl url (MAX_REDIRECTS + 1) url

end Iceslab.GuardedFetch

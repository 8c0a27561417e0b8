import Iceslab.Lib.JsText

/-!
# The entries of a policy

`geo-names.ts` and `policy-entries.ts`: how a rule entry spells a geo set, and whether an entry
matches a name or an address.

* `parseGeoRef` — the geo reference in an entry.
* `splitPolicyEntries` — the entries of a list by kind, each in its order.
-/

set_option autoImplicit false

namespace Iceslab

open JsText

/-- What the renderers take from the runtime's text library as it is. -/
structure TextLib where
  toLowerCase : String → String
  /-- `new RegExp(s)` does not throw -/
  isRegExp : String → Bool
  /-- `a.localeCompare(b) <= 0` -/
  localeLe : String → String → Bool

def GEO_DIR_ON_NODE : String := "/etc/iceslab-node/geo"

structure GeoRef where
  set : String
  /-- as the rule spells it -/
  tag : String
  /-- lower case, no attribute, no leading `!` -/
  baseTag : String
  deriving DecidableEq, Repr

/-- `tag.replace(/^!/, '').split('@')[0].toLowerCase()` -/
def baseTagOf (lib : TextLib) (tag : String) : String :=
  let plain := (afterPrefix "!" tag).getD tag
  lib.toLowerCase (String.ofList (plain.toList.takeWhile (· ≠ '@')))

/-- The set and the tag an entry spells, before they are checked. -/
def geoParts (e : String) : Option (String × String) :=
  match afterPrefix "geosite:" e with
  | some tag => some ("geosite", tag)
  | none =>
    match afterPrefix "geoip:" e with
    | some tag => some ("geoip", tag)
    | none =>
      match ["ext:", "ext-domain:", "ext-ip:"].findSome? (afterPrefix · e) with
      | none => none
      | some rest =>
        match split ':' rest with
        | [set, tag] => some (set, tag)
        | _ => none

def parseGeoRef (lib : TextLib) (entry : String) : Option GeoRef :=
  match geoParts (trim entry) with
  | none => none
  | some (set, tag) =>
    let baseTag := baseTagOf lib tag
    if set = "" ∨ baseTag = "" then none else some { set, tag, baseTag }

def chainRuleSetFileName (lib : TextLib) (set tag : String) : String :=
  "iceslab-" ++ set ++ "." ++ lib.toLowerCase tag ++ ".json"

/-! ## Names and addresses -/

inductive PolicyEntryKind where
  | domain
  | ip
  deriving DecidableEq, Repr

def isHostnameChar (c : Char) : Bool := c.isAlphanum || c = '_' || c = '*'

/-- `/^[A-Za-z0-9_*]([A-Za-z0-9_*.-]*[A-Za-z0-9_])?$/` -/
def isHostname (s : String) : Bool :=
  match s.toList with
  | [] => false
  | [c] => isHostnameChar c
  | c :: rest =>
    isHostnameChar c && rest.all (fun c => isHostnameChar c || c = '.' || c = '-')
      && (rest.getLast?.map (fun c => c.isAlphanum || c = '_')).getD false

def isCidr (e : String) : Bool :=
  let addr := e.toList.takeWhile (· ≠ '/')
  let bits := String.ofList (e.toList.drop (addr.length + 1))
  let family := isIP (String.ofList addr)
  decide (addr ≠ []) && decide (addr.length < e.length) && decide (family ≠ 0)
    && isDigits bits && decide (bits.length ≤ 3)
    && decide (numberOf bits ≤ if family = 4 then 32 else 128)

/-- `/^\S+$/` -/
def isBlankFree (s : String) : Bool := decide (s ≠ "") && s.toList.all (fun c => !isSpace c)

def classifyPolicyEntry (lib : TextLib) (raw : String) : Option PolicyEntryKind :=
  let e := trim raw
  let starts (pre : String) : Bool := (afterPrefix pre e).isSome
  let when (b : Bool) (k : PolicyEntryKind) : Option PolicyEntryKind := if b then some k else none
  if e = "" then none
  else if starts "geoip:" || starts "ext-ip:" then when (parseGeoRef lib e).isSome .ip
  else if starts "geosite:" || starts "ext:" || starts "ext-domain:" then
    when (parseGeoRef lib e).isSome .domain
  else
    match ["domain:", "full:", "keyword:"].findSome? (afterPrefix · e) with
    | some name => when (isBlankFree name) .domain
    | none =>
      match afterPrefix "regexp:" e with
      | some re => when (lib.isRegExp re && decide (re ≠ "")) .domain
      | none => if isIP e ≠ 0 ∨ isCidr e then some .ip else when (isHostname e) .domain

/-- The entries of one kind, trimmed. -/
def entriesOfKind (lib : TextLib) (kind : PolicyEntryKind) (entries : List String) : List String :=
  (entries.filter (fun e => decide (classifyPolicyEntry lib e = some kind))).map trim

/-- The entries by kind, each in its order; what is neither is left out. -/
structure PolicyEntries where
  domain : List String
  ip : List String
  deriving DecidableEq, Repr

def splitPolicyEntries (lib : TextLib) (entries : List String) : PolicyEntries :=
  { domain := entriesOfKind lib .domain entries, ip := entriesOfKind lib .ip entries }

/-- The text library over ASCII, every expression accepted. -/
def asciiText : TextLib where
  toLowerCase s := String.ofList (s.toList.map Char.toLower)
  isRegExp _ := true
  localeLe a b := decide (a ≤ b)

example : splitPolicyEntries asciiText
      ["geosite:RU", " geoip:ru", "10.0.0.0/8", "full:a.b", "10.0.0.0/33", "a.example"]
    = { domain := ["geosite:RU", "full:a.b", "a.example"], ip := ["geoip:ru", "10.0.0.0/8"] } := by
  decide

end Iceslab

import Iceslab.GeoReader
import Iceslab.Lib.JsText

/-!
# Geo files

`geo-dat.ts`: the walk over a geo file that checks it whole, the index of its tags, and the rule-set
of one tag, read again from the tag's own bytes.

* `walk`, `parseGeoDat` — the file of one kind, and the tags xray can reach.
* `geositeRuleSet`, `geoipRuleSet` — the rule-set of a tag.
* `formatIp` — an address as a rule-set spells it.
-/

set_option autoImplicit false

namespace Iceslab

open Checked JsBytes JsText

/-- `toUpperCase` and `toLowerCase` of the runtime, and what their documentation says of them:
letters of ASCII map as in ASCII, and a text in lower case stays what it is. -/
structure CaseLib where
  toUpperCase : String → String
  toLowerCase : String → String
  upper_ascii : ∀ s, (∀ c ∈ s.toList, c.toNat < 128) →
    toUpperCase s = String.ofList (s.toList.map Char.toUpper)
  lower_ascii : ∀ s, (∀ c ∈ s.toList, c.toNat < 128) →
    toLowerCase s = String.ofList (s.toList.map Char.toLower)
  lower_lower : ∀ s, toLowerCase (toLowerCase s) = toLowerCase s

inductive GeoSetKind where
  | geosite
  | geoip
  deriving DecidableEq, Repr

def GeoSetKind.text : GeoSetKind → String
  | .geosite => "geosite"
  | .geoip => "geoip"

/-- `OTHER` -/
def GeoSetKind.other : GeoSetKind → GeoSetKind
  | .geosite => .geoip
  | .geoip => .geosite

/-! ## Messages -/

/-- One field of an attribute. -/
def attributeTurn (key : String) (r : Reader) : GeoRead (String × Reader) := do
  let (k, r) ← r.key
  if k.field = 1 then do
    expectWire "the key of an attribute" k 2
    r.text "the key of an attribute"
  else do
    let r ← r.pass k.wire k.pos
    .ok (key, r)

def readAttribute (r : Reader) : GeoRead String := do
  let key ← r.each attributeTurn ""
  if key = "" then .error ⟨.noKey, r.stop⟩ else .ok key

/-- `Domain` -/
structure GeoDomain where
  type : Nat
  value : String
  attrs : List String
  deriving DecidableEq, Repr

def domainTurn (d : GeoDomain) (r : Reader) : GeoRead (GeoDomain × Reader) := do
  let (k, r) ← r.key
  if k.field = 1 then do
    expectWire "the type of a domain" k 0
    let (type, r) ← r.varint
    if 3 < type then .error ⟨.domainType type, k.pos⟩ else .ok ({ d with type }, r)
  else if k.field = 2 then do
    expectWire "the value of a domain" k 2
    let (value, r) ← r.text "the value of a domain"
    .ok ({ d with value }, r)
  else if k.field = 3 then do
    expectWire "an attribute" k 2
    let (v, r) ← r.bytes
    let key ← readAttribute v
    .ok ({ d with attrs := d.attrs ++ [key] }, r)
  else do
    let r ← r.pass k.wire k.pos
    .ok (d, r)

def readDomain (r : Reader) : GeoRead GeoDomain := do
  let d ← r.each domainTurn ⟨0, "", []⟩
  if d.value = "" then .error ⟨.noValue, r.stop⟩ else .ok d

structure GeoCidr where
  ip : List UInt8
  prefixLen : Nat
  deriving DecidableEq

/-- The address, if one was read, and the prefix. -/
def cidrTurn (c : Option (List UInt8) × Nat) (r : Reader) :
    GeoRead ((Option (List UInt8) × Nat) × Reader) := do
  let (k, r) ← r.key
  if k.field = 1 then do
    expectWire "the address of a CIDR" k 2
    let (v, r) ← r.bytes
    if v.rest.length ≠ 4 ∧ v.rest.length ≠ 16 then
      .error ⟨.addressLength v.rest.length, v.pos⟩
    else .ok ((some v.rest, c.2), r)
  else if k.field = 2 then do
    expectWire "the prefix of a CIDR" k 0
    let (n, r) ← r.varint
    .ok ((c.1, n), r)
  else do
    let r ← r.pass k.wire k.pos
    .ok (c, r)

def readCidr (r : Reader) : GeoRead GeoCidr := do
  let c ← r.each cidrTurn (none, 0)
  match c.1 with
  | none => .error ⟨.noAddress, r.stop⟩
  | some ip =>
    if ip.length * 8 < c.2 then .error ⟨.longPrefix c.2, r.stop⟩ else .ok ⟨ip, c.2⟩

/-! ## Entries -/

/-- `RawEntry` -/
structure RawEntry where
  code : String
  codeFirst : Bool
  start : Nat
  stop : Nat
  entries : Nat
  attrs : List String
  deriving DecidableEq, Repr

/-- An entry being read, and whether its first field is still to come. -/
structure EntryRead where
  entry : RawEntry
  first : Bool
  deriving DecidableEq, Repr

section Walk

variable (lib : CaseLib)

/-- The attributes a rule can name: xray compares the lower-cased one with the key as it is. -/
def noteAttrs (seen : List String) (keys : List String) : List String :=
  keys.foldl (fun seen key => if key = lib.toLowerCase key then setAdd seen key else seen) seen

/-- One field of `readSite`. -/
def siteTurn (s : EntryRead) (r : Reader) : GeoRead (EntryRead × Reader) := do
  let (k, r) ← r.key
  if k.field = 1 then do
    expectWire "the code of a geosite entry" k 2
    let (code, r) ← r.text "the code of a geosite entry"
    .ok (⟨{ s.entry with code, codeFirst := s.first }, false⟩, r)
  else if k.field = 2 then do
    expectWire "a domain" k 2
    let (v, r) ← r.bytes
    let d ← readDomain v
    .ok (⟨{ s.entry with
      attrs := noteAttrs lib s.entry.attrs d.attrs, entries := s.entry.entries + 1 }, false⟩, r)
  else do
    let r ← r.pass k.wire k.pos
    .ok (⟨s.entry, false⟩, r)

/-- One field of `readIP`. -/
def ipTurn (s : EntryRead) (r : Reader) : GeoRead (EntryRead × Reader) := do
  let (k, r) ← r.key
  if k.field = 1 then do
    expectWire "the code of a geoip entry" k 2
    let (code, r) ← r.text "the code of a geoip entry"
    .ok (⟨{ s.entry with code, codeFirst := s.first }, false⟩, r)
  else if k.field = 2 then do
    expectWire "a CIDR" k 2
    let (v, r) ← r.bytes
    let _ ← readCidr v
    .ok (⟨{ s.entry with entries := s.entry.entries + 1 }, false⟩, r)
  else if k.field = 3 then do
    expectWire "reverse_match" k 0
    let (_, r) ← r.varint
    .ok (⟨s.entry, false⟩, r)
  else do
    let r ← r.pass k.wire k.pos
    .ok (⟨s.entry, false⟩, r)

def entryTurn : GeoSetKind → EntryRead → Reader → GeoRead (EntryRead × Reader)
  | .geosite => siteTurn lib
  | .geoip => ipTurn

/-- `readSite`, `readIP` -/
def readEntry (kind : GeoSetKind) (r : Reader) (entry : RawEntry) : GeoRead RawEntry := do
  let s ← r.each (entryTurn lib kind) ⟨entry, true⟩
  .ok s.entry

/-- One entry of the file. -/
def walkTurn (kind : GeoSetKind) (out : List RawEntry) (r : Reader) :
    GeoRead (List RawEntry × Reader) := do
  let (k, r) ← r.key
  if k.field ≠ 1 then .error ⟨.topLevel k.field, k.pos⟩
  else do
    expectWire "an entry" k 2
    let (v, r) ← r.bytes
    let e ← readEntry lib kind v ⟨"", false, v.pos, v.stop, 0, []⟩
    if e.code = "" then .error ⟨.noCode, v.pos⟩ else .ok (out ++ [e], r)

def walk (buf : List UInt8) (kind : GeoSetKind) : GeoRead (List RawEntry) := do
  let out ← (Reader.create buf 0 buf.length).each (walkTurn lib kind) []
  if out = [] then .error ⟨.noEntries, 0⟩ else .ok out

/-! ## The index -/

structure GeoDatEntry where
  name : String
  start : Nat
  stop : Nat
  entries : Nat
  attrs : List String
  deriving DecidableEq, Repr

structure GeoDatIndex where
  kind : GeoSetKind
  tags : List GeoDatEntry
  unreachable : List String
  deriving DecidableEq, Repr

/-- Why `parseGeoDat` refuses, with the byte where reading stopped. -/
inductive GeoFileError where
  | otherKind (kind : GeoSetKind) (offset : Nat)
  | notValid (kind : GeoSetKind) (error : GeoDatError)
  deriving DecidableEq, Repr

def GeoFileError.text (num : Nat → String) : GeoFileError → String
  | .otherKind kind _ => "this is a " ++ kind.other.text ++ " file, the set is " ++ kind.text
  | .notValid kind e => "not a valid " ++ kind.text ++ " file: " ++ e.issue.text num ++ " (byte "
      ++ num e.offset ++ ")"

def tagOf (e : RawEntry) : GeoDatEntry :=
  ⟨lib.toLowerCase e.code, e.start, e.stop, e.entries, sortTexts e.attrs⟩

/-- The tags and the codes set aside, `seen` being the codes before. -/
def indexFrom : List String → List RawEntry → List GeoDatEntry × List String
  | _, [] => ([], [])
  | seen, e :: rest =>
    let upper := lib.toUpperCase e.code
    if e.code ≠ upper ∨ e.codeFirst = false ∨ upper ∈ seen then
      let (tags, unreachable) := indexFrom seen rest
      (tags, e.code :: unreachable)
    else
      let (tags, unreachable) := indexFrom (seen ++ [upper]) rest
      (tagOf lib e :: tags, unreachable)

def parseGeoDat (buf : List UInt8) (kind : GeoSetKind) : Except GeoFileError GeoDatIndex :=
  match walk lib buf kind with
  | .error e =>
    match walk lib buf kind.other with
    | .ok _ => .error (.otherKind kind e.offset)
    | .error _ => .error (.notValid kind e)
  | .ok raw =>
    let (tags, unreachable) := indexFrom lib [] raw
    .ok ⟨kind, tags, unreachable⟩

end Walk

/-! ## Rule-sets -/

structure HeadlessRule where
  domain : Option (List String)
  domainSuffix : Option (List String)
  domainKeyword : Option (List String)
  domainRegex : Option (List String)
  ipCidr : Option (List String)
  invert : Bool
  deriving DecidableEq, Repr

def HeadlessRule.blank : HeadlessRule := ⟨none, none, none, none, none, false⟩

/-- A rule-set source of version 2. -/
structure RuleSetJson where
  rules : List HeadlessRule
  deriving DecidableEq, Repr

/-- `ruleSet` -/
def ruleSet (rule : HeadlessRule) : RuleSetJson :=
  let empty := rule.domain = none ∧ rule.domainSuffix = none ∧ rule.domainKeyword = none ∧
    rule.domainRegex = none ∧ rule.ipCidr = none
  ⟨if empty then [] else [rule]⟩

inductive RuleSetError where
  | wrongKind (kind : GeoSetKind)
  | unknownTag (tag : String)
  | dat (e : GeoDatError)
  deriving DecidableEq, Repr

def RuleSetError.text (num : Nat → String) : RuleSetError → String
  | .wrongKind .geosite => "geoipRuleSet on a geosite file"
  | .wrongKind .geoip => "geositeRuleSet on a geoip file"
  | .unknownTag tag => "no tag \"" ++ tag ++ "\" in this file"
  | .dat e => e.issue.text num

/-- The four sets of `geositeRuleSet`. -/
structure SiteSets where
  domain : List String
  suffix : List String
  keyword : List String
  regex : List String
  deriving DecidableEq, Repr

/-- The sets with one more domain, if it carries the attributes wanted. -/
def SiteSets.put (s : SiteSets) (want : List String) (d : GeoDomain) : SiteSets :=
  if !(want.all fun a => decide (a ∈ d.attrs)) then s
  else
    match d.type with
    | 0 => { s with keyword := setAdd s.keyword d.value }
    | 1 => { s with regex := setAdd s.regex d.value }
    | 2 =>
      { s with
        domain := if '.' ∈ d.value.toList then setAdd s.domain d.value else s.domain
        suffix := setAdd s.suffix ("." ++ d.value) }
    | 3 => { s with domain := setAdd s.domain d.value }
    | _ => s

/-- One field of the tag's entry; the wire type of a domain is not looked at. -/
def siteSetsTurn (want : List String) (s : SiteSets) (r : Reader) : GeoRead (SiteSets × Reader) := do
  let (k, r) ← r.key
  if k.field ≠ 2 then do
    let r ← r.pass k.wire k.pos
    .ok (s, r)
  else do
    let (v, r) ← r.bytes
    let d ← readDomain v
    .ok (s.put want d, r)

/-- `sorted` -/
def sortedSet (set : List String) : Option (List String) :=
  if set = [] then none else some (sortTexts set)

def SiteSets.ruleSet (s : SiteSets) : RuleSetJson :=
  Iceslab.ruleSet
    { HeadlessRule.blank with
      domain := sortedSet s.domain
      domainSuffix := sortedSet s.suffix
      domainKeyword := sortedSet s.keyword
      domainRegex := sortedSet s.regex }

section RuleSets

variable (lib : CaseLib)

def findTag (index : GeoDatIndex) (name : String) : Except RuleSetError GeoDatEntry :=
  match index.tags.find? fun t => decide (t.name = lib.toLowerCase name) with
  | some t => .ok t
  | none => .error (.unknownTag name)

/-- The entry a tag of a geosite rule names, and the attributes it wants. -/
def siteTarget (index : GeoDatIndex) (tag : String) :
    Except RuleSetError (GeoDatEntry × List String) := do
  let parts := split '@' tag
  let t ← findTag lib index (parts.headD "")
  .ok (t, parts.tail.map lib.toLowerCase)

def geositeRuleSet (buf : List UInt8) (index : GeoDatIndex) (tag : String) :
    Except RuleSetError RuleSetJson :=
  if index.kind ≠ .geosite then .error (.wrongKind .geoip)
  else do
    let (t, want) ← siteTarget lib index tag
    match (Reader.create buf t.start t.stop).each (siteSetsTurn want) ⟨[], [], [], []⟩ with
    | .error e => .error (.dat e)
    | .ok s => .ok s.ruleSet

/-! ### Addresses -/

/-- The groups of an address of sixteen bytes. -/
def groupsOfBytes : List UInt8 → List Nat
  | a :: b :: rest => (a.toNat * 256 + b.toNat) :: groupsOfBytes rest
  | _ => []

/-- The longest run of zero groups, the first on a tie, as its place and length. -/
def bestRun : Nat → Nat → Nat × Nat → List Nat → Nat × Nat
  | 0, _, best, _ => best
  | _, _, best, [] => best
  | n + 1, i, best, g :: gs =>
    if g ≠ 0 then bestRun n (i + 1) best gs
    else
      let run := ((g :: gs).takeWhile (· = 0)).length
      bestRun n (i + run) (if best.2 < run then (i, run) else best) ((g :: gs).drop run)

/-- `x.toString(16)` -/
def hexText (x : Nat) : String := String.ofList (Nat.toDigits 16 x)

def hexGroups (gs : List Nat) : String := String.intercalate ":" (gs.map hexText)

def formatIp (ip : List UInt8) : String :=
  if ip.length = 4 then String.intercalate "." (ip.map fun b => toString b.toNat)
  else
    let groups := groupsOfBytes ip
    let best := bestRun 8 0 (0, 0) groups
    if best.2 < 2 then hexGroups groups
    else hexGroups (groups.take best.1) ++ "::" ++ hexGroups (groups.drop (best.1 + best.2))

def cidrText (c : GeoCidr) : String := formatIp c.ip ++ "/" ++ toString c.prefixLen

def cidrSetTurn (s : List String) (r : Reader) : GeoRead (List String × Reader) := do
  let (k, r) ← r.key
  if k.field ≠ 2 then do
    let r ← r.pass k.wire k.pos
    .ok (s, r)
  else do
    let (v, r) ← r.bytes
    let c ← readCidr v
    .ok (setAdd s (cidrText c), r)

/-- The entry a tag of a geoip rule names, and whether its complement is meant. -/
def ipTarget (index : GeoDatIndex) (tag : String) : Except RuleSetError (GeoDatEntry × Bool) := do
  let t ← findTag lib index ((afterPrefix "!" tag).getD tag)
  .ok (t, (afterPrefix "!" tag).isSome)

/-- The rule-set of the networks of a tag; the complement of nothing is every address. -/
def cidrRuleSet (cidrs : List String) (negated : Bool) : RuleSetJson :=
  if negated = true ∧ cidrs = [] then
    ⟨[{ HeadlessRule.blank with ipCidr := some ["0.0.0.0/0", "::/0"] }]⟩
  else
    ruleSet
      { HeadlessRule.blank with
        ipCidr := if cidrs = [] then none else some cidrs
        invert := negated }

def geoipRuleSet (buf : List UInt8) (index : GeoDatIndex) (tag : String) :
    Except RuleSetError RuleSetJson :=
  if index.kind ≠ .geoip then .error (.wrongKind .geosite)
  else do
    let (t, negated) ← ipTarget lib index tag
    match (Reader.create buf t.start t.stop).each cidrSetTurn [] with
    | .error e => .error (.dat e)
    | .ok cidrs => .ok (cidrRuleSet cidrs negated)

end RuleSets

end Iceslab

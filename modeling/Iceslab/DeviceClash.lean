import Iceslab.DevicePrograms

/-!
# The device rules in a Clash file

Each line is an item of a YAML list that no quotes protect, and its fields are taken apart at the
commas.  A field goes through when it has no comma and nothing YAML takes for its own.

* `readItem`, `readClashLine` — how mihomo reads a line.
* `clashMatcher_entries` — a matcher is written as its type and its payload.
* `readClashLine_entry`, `plain_of_readItem` — a line is read back exactly when its fields are plain.
-/

set_option autoImplicit false

namespace Iceslab.Subscription

open JsText

/-! ## Items -/

def isBlank (c : Char) : Bool := c = ' ' || c = '\t'

/-- A printable character that ends no line. -/
def isYamlChar (c : Char) : Bool :=
  let n := c.toNat
  decide (n = 9 ∨ (32 ≤ n ∧ n ≤ 126) ∨ (160 ≤ n ∧ n ≤ 0xD7FF ∧ n ≠ 0x2028 ∧ n ≠ 0x2029)
    ∨ (0xE000 ≤ n ∧ n ≤ 0xFFFD ∧ n ≠ 0xFEFF) ∨ 0x10000 ≤ n)

/-- A colon before a blank makes a mapping, a hash after a blank a comment. -/
def cutsScalar : List Char → Bool
  | a :: b :: rest => (a = ':' && isBlank b) || (isBlank a && b = '#') || cutsScalar (b :: rest)
  | _ => false

/-- The end of a plain scalar: blanks are dropped, a colon makes a mapping. -/
def endsPlain (cs : List Char) : Bool := cs.getLast?.all fun c => !isBlank c && c ≠ ':'

/-- Nothing in the middle of a scalar that YAML takes for its own. -/
def fieldPlain (s : String) : Bool := s.toList.all isYamlChar && !cutsScalar s.toList

/-- A text that starts with a letter and is its own plain scalar. -/
def isPlainScalar (s : String) : Bool :=
  s.toList.head?.any Char.isAlpha && fieldPlain s && endsPlain s.toList

/-- The string of a list item, `none` where YAML reads something else than what is written. -/
def readItem (line : String) : Option String := (afterPrefix "  - " line).filter isPlainScalar

/-! ## Lines -/

def clashAtom (kind payload : String) : Option Atom :=
  if kind = "DOMAIN" then some (.full payload)
  else if kind = "DOMAIN-SUFFIX" then some (.suffix payload)
  else if kind = "DOMAIN-KEYWORD" then some (.keyword payload)
  else if kind = "DOMAIN-REGEX" then some (.regexp payload)
  else if kind = "GEOSITE" then some (.geosite payload)
  else if kind = "GEOIP" then some (.geoip payload)
  else if kind = "IP-CIDR" ∨ kind = "IP-CIDR6" then some (.network payload)
  else if kind = "DST-PORT" then readPort '-' payload
  else none

/-- A target is built in or the group of the file. -/
def clashAction (group : Option String) (target : String) : Option DeviceRouteAction :=
  if target = "DIRECT" then some .direct
  else if target = "REJECT" then some .block
  else if group = some target then some .proxy
  else none

/-- Type, payload, target and options; what mihomo does not know refuses the file. -/
def readClashLine (group : Option String) (line : String) : Option Rule :=
  (readItem line).bind fun item =>
    match split ',' item with
    | kind :: payload :: target :: _ =>
      (clashAtom kind payload).bind fun a =>
        (clashAction group target).map fun action => ⟨[[a]], action⟩
    | _ => none

def readClash (group : Option String) (lines : List String) : Option (List Rule) :=
  lines.mapM (readClashLine group)

/-- A field that goes through a line as it is. -/
def PlainField (s : String) : Prop := fieldPlain s = true ∧ ',' ∉ s.toList

instance (s : String) : Decidable (PlainField s) := inferInstanceAs (Decidable (_ ∧ _))

/-! ## Scalars in pieces -/

variable {rest s t tag : String}

section Pieces

variable {cs ds : List Char}

theorem cutsScalar_comma : cutsScalar (cs ++ ',' :: ds) = (cutsScalar cs || cutsScalar ds) := by
  have hcomma : cutsScalar (',' :: ds) = cutsScalar ds := by
    cases ds with
    | nil => rfl
    | cons d ds =>
      have : isBlank ',' = false := by decide
      simp [cutsScalar, this]
  induction cs with
  | nil => simpa [cutsScalar] using hcomma
  | cons c cs ih =>
    cases cs with
    | nil =>
      have : isBlank ',' = false := by decide
      simp [cutsScalar, this, hcomma]
    | cons c' cs =>
      rw [List.cons_append, List.cons_append] at *
      rw [cutsScalar, ih, cutsScalar]
      simp only [Bool.or_assoc]

theorem endsPlain_append (h : ds ≠ []) : endsPlain (cs ++ ds) = endsPlain ds := by
  rw [endsPlain, endsPlain, List.getLast?_append_of_ne_nil _ h]

theorem endsPlain_comma (cs ds : List Char) : endsPlain (cs ++ ',' :: ds) = endsPlain ds := by
  rw [endsPlain_append (List.cons_ne_nil _ _)]
  cases ds with
  | nil => decide
  | cons d ds => rw [endsPlain, endsPlain, List.getLast?_cons_cons]

theorem fieldPlain_comma : fieldPlain (s ++ "," ++ t) = (fieldPlain s && fieldPlain t) := by
  have hlist : (s ++ "," ++ t).toList = s.toList ++ ',' :: t.toList := by simp
  rw [fieldPlain, hlist, cutsScalar_comma, List.all_append, List.all_cons, fieldPlain, fieldPlain]
  have : isYamlChar ',' = true := by decide
  rw [this]
  cases s.toList.all isYamlChar <;> cases t.toList.all isYamlChar <;>
    cases cutsScalar s.toList <;> cases cutsScalar t.toList <;> rfl

theorem fieldPlain_of_chars
    (h : ∀ c ∈ s.toList, isYamlChar c = true ∧ isBlank c = false) : fieldPlain s = true := by
  have hcuts : ∀ cs : List Char, (∀ c ∈ cs, isBlank c = false) → cutsScalar cs = false := by
    intro cs
    induction cs with
    | nil => exact fun _ => rfl
    | cons c cs ih =>
      intro hcs
      cases cs with
      | nil => rfl
      | cons c' cs =>
        rw [cutsScalar, ih fun d hd => hcs d (List.mem_cons_of_mem c hd),
          hcs c List.mem_cons_self, hcs c' (by simp)]
        simp
  rw [fieldPlain, hcuts s.toList fun c hc => (h c hc).2, Bool.not_false, Bool.and_true]
  exact List.all_eq_true.mpr fun c hc => (h c hc).1

end Pieces

/-! ## Entries -/

/-- A rule body by its fields. -/
structure ClashEntry where
  kind : String
  payload : String
  noResolve : Bool
  deriving DecidableEq, Repr

def ClashEntry.body (e : ClashEntry) : ClashBody := ⟨e.kind ++ "," ++ e.payload, e.noResolve⟩

def clashKinds : List String :=
  ["DOMAIN", "DOMAIN-SUFFIX", "DOMAIN-KEYWORD", "DOMAIN-REGEX", "GEOSITE", "GEOIP", "IP-CIDR",
    "IP-CIDR6", "DST-PORT"]

/-- The item of a line. -/
def ClashEntry.item (e : ClashEntry) (target : String) : String :=
  e.kind ++ "," ++ e.payload ++ "," ++ target ++ (if e.noResolve then ",no-resolve" else "")

section Entries

variable {e : ClashEntry} {target : String}

theorem afterPrefix_clashLine : afterPrefix "  - " (clashLine target e.body) = some (e.item target) := by
  refine afterPrefix_eq_some.mpr ?_
  simp only [clashLine, ClashEntry.body, ClashEntry.item, String.append_assoc]

theorem fieldPlain_item (hkind : e.kind ∈ clashKinds) :
    fieldPlain (e.item target) = (fieldPlain e.payload && fieldPlain target) := by
  have hkinds : ∀ kind ∈ clashKinds, fieldPlain kind = true := by decide
  have hfields : fieldPlain (e.kind ++ "," ++ e.payload ++ "," ++ target) =
      (fieldPlain e.payload && fieldPlain target) := by
    rw [fieldPlain_comma, fieldPlain_comma, hkinds e.kind hkind, Bool.true_and]
  cases hno : e.noResolve with
  | false => rw [ClashEntry.item, hno, ← hfields]; simp
  | true =>
    have hoption : fieldPlain "no-resolve" = true := by decide
    have hitem : e.item target =
        e.kind ++ "," ++ e.payload ++ "," ++ target ++ "," ++ "no-resolve" := by
      rw [ClashEntry.item, hno]
      simp only [if_true, String.append_assoc]
      rfl
    rw [hitem, fieldPlain_comma, hfields, hoption, Bool.and_true]

theorem endsPlain_item : endsPlain (e.item target).toList =
    (e.noResolve || endsPlain target.toList) := by
  cases hno : e.noResolve with
  | false =>
    have hlist : (e.item target).toList =
        (e.kind ++ "," ++ e.payload).toList ++ ',' :: target.toList := by
      rw [ClashEntry.item, hno]
      simp
    rw [hlist, endsPlain_comma, Bool.false_or]
  | true =>
    have hlist : (e.item target).toList =
        (e.kind ++ "," ++ e.payload ++ "," ++ target).toList ++ ',' :: "no-resolve".toList := by
      rw [ClashEntry.item, hno]
      simp
    rw [hlist, endsPlain_comma, Bool.true_or]
    decide

/-- **A line is its own item when its fields are plain.** -/
theorem readItem_clashLine (hkind : e.kind ∈ clashKinds) :
    readItem (clashLine target e.body) =
      if fieldPlain e.payload && fieldPlain target && (e.noResolve || endsPlain target.toList)
      then some (e.item target) else none := by
  have hhead : (e.item target).toList.head?.any Char.isAlpha = true := by
    have hkinds : ∀ kind ∈ clashKinds,
        kind.toList ≠ [] ∧ kind.toList.head?.any Char.isAlpha = true := by decide
    obtain ⟨hne, halpha⟩ := hkinds e.kind hkind
    have hlist : (e.item target).toList = e.kind.toList ++ (',' :: e.payload.toList ++ ','
        :: target.toList ++ (if e.noResolve then ",no-resolve" else "").toList) := by
      rw [ClashEntry.item]
      simp
    rw [hlist, List.head?_append_of_ne_nil _ hne]
    exact halpha
  rw [readItem, afterPrefix_clashLine, Option.filter_some, isPlainScalar, hhead, Bool.true_and,
    fieldPlain_item hkind, endsPlain_item]

theorem split_item (hkind : e.kind ∈ clashKinds) (hpayload : ',' ∉ e.payload.toList)
    (htarget : ',' ∉ target.toList) : split ',' (e.item target) =
      e.kind :: e.payload :: target :: (if e.noResolve then ["no-resolve"] else []) := by
  have hkinds : ∀ kind ∈ clashKinds, ',' ∉ kind.toList := by decide
  have hcomma := hkinds e.kind hkind
  cases hno : e.noResolve with
  | false =>
    have hjoin : split ',' (String.intercalate "," [e.kind, e.payload, target]) =
        [e.kind, e.payload, target] := split_intercalate
      (by simp [hcomma, hpayload, htarget]) (by simp)
    rw [ClashEntry.item, hno]
    simpa [String.intercalate_cons_cons, String.append_assoc] using hjoin
  | true =>
    have hjoin : split ',' (String.intercalate "," [e.kind, e.payload, target, "no-resolve"]) =
        [e.kind, e.payload, target, "no-resolve"] := split_intercalate
      (by simp [hcomma, hpayload, htarget]) (by simp)
    rw [ClashEntry.item, hno]
    simpa [String.intercalate_cons_cons, String.append_assoc] using hjoin

end Entries

/-! ## Matchers -/

/-- The networks of `geoip:private`. -/
def privateNetworks : List String :=
  ["10.0.0.0/8", "172.16.0.0/12", "192.168.0.0/16", "127.0.0.0/8", "169.254.0.0/16", "fc00::/7",
    "fe80::/10", "::1/128"]

/-- What a matcher becomes in a Clash file. -/
def clashAtoms (lib : CaseLib) : Atom → List Atom
  | .geoip tag =>
    if tag = "private" then privateNetworks.map .network else [.geoip (lib.toUpperCase tag)]
  | a => [a]

/-- What a matcher puts into its line: what follows its tag, a country in upper case. -/
def clashPayload (lib : CaseLib) (m : String) : String :=
  match afterPrefix "geoip:" m with
  | some tag => lib.toUpperCase tag
  | none => (matcherTags.findSome? fun tag => afterPrefix tag m).getD m

/-- A range is written with `no-resolve`. -/
def takesNoResolve (m : String) : Bool :=
  decide (m = "geoip:private") || decide (isIP (bareOf m) ≠ 0)

def privateEntries : List ClashEntry :=
  [⟨"IP-CIDR", "10.0.0.0/8", true⟩, ⟨"IP-CIDR", "172.16.0.0/12", true⟩,
    ⟨"IP-CIDR", "192.168.0.0/16", true⟩, ⟨"IP-CIDR", "127.0.0.0/8", true⟩,
    ⟨"IP-CIDR", "169.254.0.0/16", true⟩, ⟨"IP-CIDR6", "fc00::/7", true⟩,
    ⟨"IP-CIDR6", "fe80::/10", true⟩, ⟨"IP-CIDR6", "::1/128", true⟩]

section Matchers

variable {lib : CaseLib} {m : String} {c : Char} {a : Atom}

theorem clashMatcher_private :
    clashMatcher lib "geoip:private" = privateEntries.map ClashEntry.body := by
  rw [clashMatcher, if_pos rfl]
  rfl

theorem clashPayload_tag (htag : tag ∈ matcherTags) (hne : tag ≠ "geoip:") :
    clashPayload lib (tag ++ t) = t := by
  rw [clashPayload, afterPrefix_tag (by decide) htag hne.symm]
  simp only [matcherTags, List.mem_cons, List.not_mem_nil, or_false] at htag
  rcases htag with rfl | rfl | rfl | rfl | rfl | rfl | rfl <;>
    simp (disch := decide) only [matcherTags, List.findSome?_cons, afterPrefix_tag,
      afterPrefix_append, Option.getD_some]

theorem clashPayload_geoip : clashPayload lib ("geoip:" ++ tag) = lib.toUpperCase tag := by
  rw [clashPayload, afterPrefix_append]

theorem takesNoResolve_tag (htag : tag ∈ matcherTags)
    (hne : tag ++ t ≠ "geoip:private") : takesNoResolve (tag ++ t) = false := by
  rw [takesNoResolve, isIP_bareOf_tag htag]
  simpa using hne

/-- Every character of an address, a network or a host name goes through a line. -/
def isLineChar (c : Char) : Bool := isYamlChar c && !isBlank c && decide (c ≠ ',')

theorem plainField_of_chars (h : ∀ c ∈ s.toList, isLineChar c = true) : PlainField s := by
  have hparts : ∀ c ∈ s.toList, isYamlChar c = true ∧ isBlank c = false ∧ c ≠ ',' := by
    intro c hc
    have := h c hc
    simp only [isLineChar, Bool.and_eq_true, Bool.not_eq_true', decide_eq_true_eq] at this
    exact ⟨this.1.1, this.1.2, this.2⟩
  exact ⟨fieldPlain_of_chars fun c hc => ⟨(hparts c hc).1, (hparts c hc).2.1⟩,
    fun hmem => (hparts ',' hmem).2.2 rfl⟩

theorem isLineChar_of_isAlphanum (h : c.isAlphanum = true) : isLineChar c = true := by
  have hn : (48 ≤ c.toNat ∧ c.toNat ≤ 57) ∨ (65 ≤ c.toNat ∧ c.toNat ≤ 90)
      ∨ (97 ≤ c.toNat ∧ c.toNat ≤ 122) := by
    unfold Char.isAlphanum Char.isAlpha Char.isUpper Char.isLower Char.isDigit at h
    simp only [Bool.or_eq_true, Bool.and_eq_true, decide_eq_true_eq, UInt32.le_iff_toNat_le,
      ge_iff_le] at h
    have : c.toNat = c.val.toNat := rfl
    have : 'A'.val.toNat = 65 := rfl
    have : 'Z'.val.toNat = 90 := rfl
    have : 'a'.val.toNat = 97 := rfl
    have : 'z'.val.toNat = 122 := rfl
    have : '0'.val.toNat = 48 := rfl
    have : '9'.val.toNat = 57 := rfl
    omega
  have hne (d : Char) (hd : d.toNat < 48) : c ≠ d := by
    rintro rfl
    omega
  have hblank : isBlank c = false := by
    simp [isBlank, hne ' ' (by decide), hne '\t' (by decide)]
  rw [isLineChar, hblank, Bool.not_false, Bool.and_true, isYamlChar, Bool.and_eq_true,
    decide_eq_true_eq, decide_eq_true_eq]
  exact ⟨by omega, hne ',' (by decide)⟩

theorem isLineChar_of_isZonedChar (h : isZonedChar c = true) : isLineChar c = true := by
  rw [isZonedChar, Bool.or_eq_true, decide_eq_true_eq] at h
  rcases h with h | h
  · exact isLineChar_of_isAlphanum h
  · have hall : ∀ c ∈ ['.', ':', '-', '%'], isLineChar c = true := by decide
    exact hall c h

theorem isLineChar_of_isDigit (h : c.isDigit = true) : isLineChar c = true :=
  isLineChar_of_isAlphanum (by simp [Char.isAlphanum, h])

theorem isLineChar_of_host (h : isHostname m = true) : ∀ c ∈ m.toList, isLineChar c = true := by
  intro c hc
  rcases isHostname_chars h c hc with h | rfl | rfl
  · simp only [isHostnameChar, Bool.or_eq_true, decide_eq_true_eq] at h
    rcases h with (h | rfl) | rfl
    · exact isLineChar_of_isAlphanum h
    · decide
    · decide
  · decide
  · decide

/-- The spellings without a tag. -/
inductive BareShape (m : String) : Prop
  | address : isIP m ≠ 0 → BareShape m
  | network (addr bits : String) : m = addr ++ "/" ++ bits → isIP addr ≠ 0 →
      isDigits bits = true → BareShape m
  | host : isHostname m = true → isIP m = 0 → BareShape m

theorem Shape.bare (h : Shape m) (hbare : Bare m) : BareShape m := by
  have htagged {tag t : String} (hm : m = tag ++ t) (htag : tag ∈ matcherTags) : False := by
    have := hbare.untagged tag htag
    rw [hm, afterPrefix_append] at this
    cases this
  cases h with
  | port lo hm _ => exact (htagged hm (by decide)).elim
  | range lo hi hm _ _ => exact (htagged hm (by decide)).elim
  | geosite tag hm => exact (htagged hm (by decide)).elim
  | geoip tag hm => exact (htagged hm (by decide)).elim
  | name tag p hm htag =>
    have hnames : ∀ tag ∈ nameTags, tag ∈ matcherTags := by decide
    exact (htagged hm (hnames tag htag)).elim
  | address hip => exact .address hip
  | network addr bits hm hip hbits => exact .network addr bits hm hip hbits
  | host hhost hip => exact .host hhost hip

theorem lineChars_of_bare (h : Shape m) (hbare : Bare m) : ∀ c ∈ m.toList, isLineChar c = true := by
  cases h.bare hbare with
  | address hip => exact fun c hc => isLineChar_of_isZonedChar (isIP_chars_all hip c hc)
  | network addr bits hm hip hbits =>
    intro c hc
    rw [hm, String.toList_append, String.toList_append, List.mem_append, List.mem_append] at hc
    rcases hc with (hc | hc) | hc
    · exact isLineChar_of_isZonedChar (isIP_chars_all hip c hc)
    · rw [List.mem_singleton.mp (show c ∈ ['/'] from hc)]
      decide
    · exact isLineChar_of_isDigit ((isDigits_iff.mp hbits).2 c hc)
  | host hhost _ => exact isLineChar_of_host hhost

/-- What is known of the line of a matcher. -/
structure EntryOf (lib : CaseLib) (m : String) (e : ClashEntry) (a : Atom) : Prop where
  written : clashMatcher lib m = [e.body]
  kind : e.kind ∈ clashKinds
  option : e.noResolve = takesNoResolve m
  atoms : clashAtoms lib (atomOf m) = [a]
  read : clashAtom e.kind e.payload = some a
  plain : PlainField e.payload ↔ PlainField (clashPayload lib m)

theorem clashMatcher_names (p : String × String) (hp : p ∈ CLASH_NAMES) (t : String) :
    clashMatcher lib (p.1 ++ t) = [⟨p.2 ++ t, false⟩] := by
  have htag : ∀ tag ∈ CLASH_NAMES.map Prod.fst,
      tag ∈ matcherTags ∧ tag ≠ "geoip:" ∧ tag ≠ "geosite:" := by decide
  obtain ⟨hmem, hgeoip, hgeosite⟩ := htag p.1 (List.mem_map_of_mem hp)
  rw [clashMatcher, if_neg (ne_private hmem hgeoip), afterPrefix_tag (by decide) hmem hgeosite.symm,
    afterPrefix_tag (by decide) hmem hgeoip.symm]
  simp only [CLASH_NAMES, List.mem_cons, List.not_mem_nil, or_false] at hp
  rcases hp with rfl | rfl | rfl | rfl <;>
    simp (disch := decide) only [CLASH_NAMES, List.findSome?_cons, afterPrefix_append,
      afterPrefix_tag, Option.map_none, Option.map_some]

/-- A tag whose name stands in the line as it is. -/
theorem entryOf_tag (kind : String) (htag : tag ∈ matcherTags)
    (hne : tag ≠ "geoip:") (hkind : kind ∈ clashKinds)
    (hwritten : clashMatcher lib (tag ++ t) = [⟨kind ++ "," ++ t, false⟩])
    (hatoms : clashAtoms lib (atomOf (tag ++ t)) = [a]) (hread : clashAtom kind t = some a) :
    EntryOf lib (tag ++ t) ⟨kind, t, false⟩ a where
  written := hwritten
  kind := hkind
  option := (takesNoResolve_tag htag (ne_private htag hne)).symm
  atoms := hatoms
  read := hread
  plain := by rw [clashPayload_tag htag hne]

theorem entryOf_name (p : String × (String → Atom)) (hp : p ∈ nameAtoms) (t : String) :
    ∃ e, EntryOf lib (p.1 ++ t) e (p.2 t) := by
  have hatom := atomOf_name (t := t) p hp
  simp only [nameAtoms, List.mem_cons, List.not_mem_nil, or_false] at hp
  rcases hp with rfl | rfl | rfl | rfl | rfl
  · have hwritten : clashMatcher lib ("geosite:" ++ t) = [⟨"GEOSITE," ++ t, false⟩] := by
      rw [clashMatcher, if_neg (ne_private (by decide) (by decide)), afterPrefix_append]
    exact ⟨_, entryOf_tag "GEOSITE" (by decide) (by decide) (by decide) hwritten
      (by rw [hatom]; rfl) rfl⟩
  · exact ⟨_, entryOf_tag "DOMAIN-SUFFIX" (by decide) (by decide) (by decide)
      (clashMatcher_names ("domain:", "DOMAIN-SUFFIX,") (by decide) t) (by rw [hatom]; rfl) rfl⟩
  · exact ⟨_, entryOf_tag "DOMAIN" (by decide) (by decide) (by decide)
      (clashMatcher_names ("full:", "DOMAIN,") (by decide) t) (by rw [hatom]; rfl) rfl⟩
  · exact ⟨_, entryOf_tag "DOMAIN-KEYWORD" (by decide) (by decide) (by decide)
      (clashMatcher_names ("keyword:", "DOMAIN-KEYWORD,") (by decide) t) (by rw [hatom]; rfl) rfl⟩
  · exact ⟨_, entryOf_tag "DOMAIN-REGEX" (by decide) (by decide) (by decide)
      (clashMatcher_names ("regexp:", "DOMAIN-REGEX,") (by decide) t) (by rw [hatom]; rfl) rfl⟩

theorem entryOf_geoip (hne : tag ≠ "private") :
    EntryOf lib ("geoip:" ++ tag) ⟨"GEOIP", lib.toUpperCase tag, false⟩
      (.geoip (lib.toUpperCase tag)) := by
  have hprivate : "geoip:" ++ tag ≠ "geoip:private" := mt append_eq_private.mp hne
  have hkind : "GEOIP" ∈ clashKinds := by decide
  refine ⟨?_, hkind, (takesNoResolve_tag (by decide) hprivate).symm, ?_, rfl,
    by rw [clashPayload_geoip]⟩
  · rw [clashMatcher, if_neg hprivate, afterPrefix_tag (by decide) (by decide) (by decide),
      afterPrefix_append]
    rfl
  · rw [atomOf_geoip, clashAtoms, if_neg hne]

theorem clashAtoms_port (hread : readPort '-' rest = some a) : clashAtoms lib a = [a] := by
  unfold readPort at hread
  split at hread
  · split at hread <;> cases hread
    rfl
  · split at hread <;> cases hread
    rfl
  · cases hread

theorem entryOf_port (hread : readPort '-' rest = some a) :
    EntryOf lib ("port:" ++ rest) ⟨"DST-PORT", rest, false⟩ a := by
  have hwritten : clashMatcher lib ("port:" ++ rest) = [⟨"DST-PORT," ++ rest, false⟩] := by
    have hprivate : "port:" ++ rest ≠ "geoip:private" := ne_private (by decide) (by decide)
    simp (disch := decide) only [clashMatcher, if_neg hprivate, afterPrefix_append,
      afterPrefix_tag, CLASH_NAMES, List.findSome?_cons, List.findSome?_nil, Option.map_none,
      Option.isSome_some, if_true, portText_append]
  exact entryOf_tag "DST-PORT" (by decide) (by decide) (by decide) hwritten
    (by rw [atomOf_port hread, clashAtoms_port hread]) hread

/-- `m.split('/')`, of a text without a tag. -/
theorem addrBits_bare (h : Shape m) (hbare : Bare m) :
    (addrBits m).1 = bareOf m ∧ (isIP (bareOf m) ≠ 0 → (addrBits m).1 ++ "/"
      ++ (addrBits m).2.getD (if isIP (bareOf m) = 4 then "32" else "128") = withBits m) := by
  have hplain (hslash : '/' ∉ m.toList) : addrBits m = (m, none) ∧ bareOf m = m := by
    rw [addrBits, split_of_notMem hslash]
    exact ⟨rfl, bareOf_of_notMem hslash⟩
  cases h.bare hbare with
  | address hip =>
    have hslash := notMem_slash_of_isIP hip
    obtain ⟨hbits, hbare⟩ := hplain hslash
    rw [hbits, hbare, withBits, if_neg hslash]
    exact ⟨rfl, fun _ => rfl⟩
  | network addr bits hm hip hdigits =>
    have hslash := notMem_slash_of_isIP hip
    have hsplit : split '/' m = [addr, bits] := by
      rw [hm]
      exact split_pair hslash (notMem_of_isDigits hdigits (by decide))
    have hmem : '/' ∈ m.toList := by
      rw [hm]
      simp
    rw [addrBits, hsplit, withBits, if_pos hmem]
    refine ⟨?_, fun _ => hm.symm⟩
    rw [hm, bareOf_slash hslash]
  | host hhost hip =>
    obtain ⟨hbits, hbare⟩ :=
      hplain (notMem_of_isHostname hhost (by decide) (by decide) (by decide))
    rw [hbits, hbare]
    exact ⟨rfl, fun hne => absurd hip hne⟩

theorem plainField_withBits (h : ∀ c ∈ m.toList, isLineChar c = true) :
    PlainField (withBits m) := by
  refine plainField_of_chars fun c hc => ?_
  unfold withBits at hc
  split at hc
  · exact h c hc
  · rw [String.toList_append, String.toList_append, List.mem_append, List.mem_append] at hc
    rcases hc with (hc | hc) | hc
    · exact h c hc
    · rw [List.mem_singleton.mp (show c ∈ ['/'] from hc)]
      decide
    · have hboth : ∀ c ∈ "32".toList ++ "128".toList, isLineChar c = true := by decide
      refine hboth c ?_
      split at hc
      · exact List.mem_append_left _ hc
      · exact List.mem_append_right _ hc

theorem entryOf_bare (h : Shape m) (hbare : Bare m) : ∃ e a, EntryOf lib m e a := by
  have hchars := lineChars_of_bare h hbare
  have hpayload : PlainField (clashPayload lib m) := by
    have hall : ∀ tag ∈ matcherTags, afterPrefix tag m = none := hbare.untagged
    rw [clashPayload, hall "geoip:" (by decide), List.findSome?_eq_none_iff.mpr hall]
    exact plainField_of_chars hchars
  obtain ⟨haddr, hcidr⟩ := addrBits_bare h hbare
  have hoption : takesNoResolve m = decide (isIP (bareOf m) ≠ 0) := by
    rw [takesNoResolve, decide_eq_false hbare.ne_private, Bool.false_or]
  have hmatcher : clashMatcher lib m =
      if isIP (bareOf m) ≠ 0 then
        [⟨(if isIP (bareOf m) = 4 then "IP-CIDR" else "IP-CIDR6") ++ "," ++ withBits m, true⟩]
      else [⟨"DOMAIN-SUFFIX," ++ m, false⟩] := by
    simp only [clashMatcher, if_neg hbare.ne_private, hbare.untagged "geosite:" (by decide),
      hbare.untagged "geoip:" (by decide), CLASH_NAMES, List.findSome?_cons, List.findSome?_nil,
      hbare.untagged "full:" (by decide), hbare.untagged "keyword:" (by decide),
      hbare.untagged "regexp:" (by decide), hbare.untagged "domain:" (by decide),
      hbare.untagged "port:" (by decide), Option.map_none, Option.isSome_none,
      Bool.false_eq_true, if_false, haddr]
    split
    · rename_i hip
      rw [← hcidr hip, haddr]
    · rfl
  by_cases hip : isIP (bareOf m) ≠ 0
  · rw [if_pos hip] at hmatcher
    have hatom := hbare.atomOf
    rw [if_pos hip] at hatom
    obtain ⟨kind, hkind, hread, hwritten⟩ : ∃ kind, kind ∈ clashKinds ∧
        (∀ p, clashAtom kind p = some (.network p)) ∧
        clashMatcher lib m = [⟨kind ++ "," ++ withBits m, true⟩] := by
      split at hmatcher
      · exact ⟨"IP-CIDR", by decide, fun _ => rfl, hmatcher⟩
      · exact ⟨"IP-CIDR6", by decide, fun _ => rfl, hmatcher⟩
    refine ⟨⟨kind, withBits m, true⟩, .network (withBits m), hwritten, hkind, ?_, ?_,
      hread _, iff_of_true (plainField_withBits hchars) hpayload⟩
    · rw [hoption, decide_eq_true hip]
    · rw [hatom]
      rfl
  · rw [if_neg hip] at hmatcher
    have hatom := hbare.atomOf
    rw [if_neg hip] at hatom
    have hkind : "DOMAIN-SUFFIX" ∈ clashKinds := by decide
    refine ⟨⟨"DOMAIN-SUFFIX", m, false⟩, .suffix m, hmatcher, hkind, ?_, by rw [hatom]; rfl, rfl,
      iff_of_true (plainField_of_chars hchars) hpayload⟩
    rw [hoption, decide_eq_false hip]

/-- **Every matcher but the private ranges is one line.** -/
theorem exists_entryOf (h : Shape m) (hne : m ≠ "geoip:private") : ∃ e a, EntryOf lib m e a := by
  rcases h.cases with ⟨p, hp, t, rfl⟩ | ⟨tag, rfl⟩ | ⟨rest, a, rfl, hread⟩ | hbare
  · obtain ⟨e, he⟩ := entryOf_name p hp t
    exact ⟨e, _, he⟩
  · exact ⟨_, _, entryOf_geoip (mt append_eq_private.mpr hne)⟩
  · exact ⟨_, _, entryOf_port hread⟩
  · exact entryOf_bare h hbare

end Matchers

end Iceslab.Subscription

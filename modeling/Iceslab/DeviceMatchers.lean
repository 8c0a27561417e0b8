import Mathlib.Data.List.Infix
import Iceslab.DeviceRules

/-!
# What a matcher of a device rule says

The grammar of the matchers as a type of its own, and how each client writes one.

* `Atom`, `atomOf` — what a matcher means, off its text.
* `Admitted.shape` — the spellings the API lets through.
* `xrayDomainAtom_atomOf`, `xrayIpAtom_atomOf`, `readPort_portText` — xray's spelling means it.
-/

set_option autoImplicit false

namespace Iceslab.Subscription

open JsText

/-- One condition on a connection. -/
inductive Atom where
  /-- the domain or one of its subdomains -/
  | suffix (domain : String)
  | full (domain : String)
  | keyword (text : String)
  | regexp (pattern : String)
  | geosite (tag : String)
  | geoip (tag : String)
  /-- an address and how many of its bits count -/
  | network (cidr : String)
  | port (lo hi : Nat)
  /-- a remote set of sing-box -/
  | ruleSet (tag : String)
  | isPrivate
  deriving DecidableEq, Repr

/-- A lone address counts whole. -/
def withBits (m : String) : String :=
  if '/' ∈ m.toList then m else m ++ "/" ++ (if isIP m = 4 then "32" else "128")

/-- A port, or two with `sep` between them. -/
def readPort (sep : Char) (s : String) : Option Atom :=
  match split sep s with
  | [lo] => if isDigits lo then some (.port (numberOf lo) (numberOf lo)) else none
  | [lo, hi] =>
    if isDigits lo ∧ isDigits hi then some (.port (numberOf lo) (numberOf hi)) else none
  | _ => none

def nameAtoms : List (String × (String → Atom)) :=
  [("geosite:", .geosite), ("domain:", .suffix), ("full:", .full), ("keyword:", .keyword),
    ("regexp:", .regexp)]

/-- The atom of a tagged name. -/
def nameAtom (m : String) : Option Atom :=
  nameAtoms.findSome? fun p => (afterPrefix p.1 m).map p.2

/-- What a matcher means. -/
def atomOf (m : String) : Atom :=
  match nameAtom m with
  | some a => a
  | none =>
    match afterPrefix "geoip:" m with
    | some tag => .geoip tag
    | none =>
      match (afterPrefix "port:" m).bind (readPort '-') with
      | some a => a
      | none => if isIP (bareOf m) ≠ 0 then .network (withBits m) else .suffix m

/-! ## The tags -/

def matcherTags : List String :=
  ["port:", "geosite:", "geoip:", "domain:", "full:", "keyword:", "regexp:"]

variable {c : Char}

section Tags

variable {p q t m : String}

theorem afterPrefix_tag (hp : p ∈ matcherTags) (hq : q ∈ matcherTags) (hne : p ≠ q) :
    afterPrefix p (q ++ t) = none := by
  have hapart : ∀ p ∈ matcherTags, ∀ q ∈ matcherTags, p ≠ q → ¬ p.toList <+: q.toList := by decide
  exact afterPrefix_other (hapart p hp q hq hne) (hapart q hq p hp hne.symm)

theorem toList_bareOf (m : String) : (bareOf m).toList = m.toList.takeWhile (· ≠ '/') :=
  String.toList_ofList

theorem bareOf_of_notMem (h : '/' ∉ m.toList) : bareOf m = m := by
  have hall : (m.toList ++ []).takeWhile (· ≠ '/') = m.toList ++ [].takeWhile (· ≠ '/') :=
    List.takeWhile_append_of_pos fun c hc => by simpa using fun heq : c = '/' => h (heq ▸ hc)
  rw [List.append_nil, List.takeWhile_nil, List.append_nil] at hall
  rw [bareOf, hall, String.ofList_toList]

theorem bareOf_append (h : '/' ∉ p.toList) : bareOf (p ++ t) = p ++ bareOf t := by
  refine String.toList_inj.mp ?_
  rw [toList_bareOf, String.toList_append, String.toList_append, toList_bareOf,
    List.takeWhile_append_of_pos]
  intro c hc
  simpa using fun heq : c = '/' => h (heq ▸ hc)

theorem bareOf_slash (h : '/' ∉ p.toList) : bareOf (p ++ "/" ++ t) = p := by
  rw [String.append_assoc, bareOf_append h]
  have : bareOf ("/" ++ t) = "" := by
    refine String.toList_inj.mp ?_
    rw [toList_bareOf, String.toList_append]
    rfl
  rw [this, String.append_empty]

/-- No address starts with a tag. -/
theorem isIP_bareOf_tag (hp : p ∈ matcherTags) : isIP (bareOf (p ++ t)) = 0 := by
  have htags : ∀ p ∈ matcherTags, '/' ∉ p.toList ∧ '%' ∉ p.toList ∧
      ∃ c ∈ p.toList, isAddressChar c = false := by decide
  obtain ⟨hslash, hzone, c, hc, haddr⟩ := htags p hp
  rw [bareOf_append hslash]
  exact isIP_append hc haddr hzone _

theorem isHostname_chars (h : isHostname m = true) :
    ∀ c ∈ m.toList, isHostnameChar c = true ∨ c = '.' ∨ c = '-' := by
  intro c hc
  unfold isHostname at h
  split at h
  · rename_i hnil
    rw [hnil] at hc
    cases hc
  · rename_i d hd
    rw [hd, List.mem_singleton] at hc
    subst hc
    exact .inl h
  · rename_i d rest hne hd
    rw [hd] at hc
    simp only [Bool.and_eq_true, List.all_eq_true, Bool.or_eq_true, decide_eq_true_eq] at h
    rcases List.mem_cons.mp hc with rfl | hc
    · exact .inl h.1.1
    · rcases h.1.2 c hc with (h | h) | h
      · exact .inl h
      · exact .inr (.inl h)
      · exact .inr (.inr h)

theorem notMem_of_isHostname (h : isHostname m = true)
    (hc : isHostnameChar c = false) (hdot : c ≠ '.') (hdash : c ≠ '-') : c ∉ m.toList := by
  intro hmem
  rcases isHostname_chars h c hmem with h | h | h
  · rw [hc] at h
    cases h
  · exact hdot h
  · exact hdash h

end Tags

/-! ## Spellings -/

/-- The tags of the names that stand as they are in every format. -/
def nameTags : List String := ["domain:", "full:", "keyword:", "regexp:"]

/-- The spellings of a matcher. -/
inductive Shape (m : String) : Prop
  | port (lo : String) : m = "port:" ++ lo → isDigits lo = true → Shape m
  | range (lo hi : String) : m = "port:" ++ (lo ++ "-" ++ hi) → isDigits lo = true →
      isDigits hi = true → Shape m
  | geosite (tag : String) : m = "geosite:" ++ tag → Shape m
  | geoip (tag : String) : m = "geoip:" ++ tag → Shape m
  | name (tag p : String) : m = tag ++ p → tag ∈ nameTags → Shape m
  | address : isIP m ≠ 0 → Shape m
  | network (addr bits : String) : m = addr ++ "/" ++ bits → isIP addr ≠ 0 →
      isDigits bits = true → Shape m
  | host : isHostname m = true → isIP m = 0 → Shape m

section Shapes

variable {lib : TextLib} {m : String}

theorem notMem_slash_of_isIP {addr : String} (h : isIP addr ≠ 0) : '/' ∉ addr.toList :=
  fun hmem => absurd (isIP_chars_all h '/' hmem) (by decide)

theorem shape_of_portBounds {b : Nat × Nat} (h : portBounds m = some b) : Shape m := by
  unfold portBounds at h
  obtain ⟨rest, hrest, h⟩ := Option.bind_eq_some_iff.mp h
  have hm := afterPrefix_eq_some.mp hrest
  have hjoin := intercalate_split '-' rest
  dsimp only at h
  split at h
  · rename_i lo hsplit
    obtain ⟨n, hn, -⟩ := Option.map_eq_some_iff.mp h
    rw [hsplit] at hjoin
    split at hn
    · rename_i hdigits
      rw [← hjoin] at hm
      exact .port _ hm hdigits.1
    · cases hn
  · rename_i lo hi hsplit
    obtain ⟨n, hn, hrest⟩ := Option.bind_eq_some_iff.mp h
    obtain ⟨k, hk, -⟩ := Option.map_eq_some_iff.mp hrest
    rw [hsplit] at hjoin
    split at hn
    · rename_i hlo
      split at hk
      · rename_i hhi
        have : rest = lo ++ "-" ++ hi := hjoin.symm
        rw [this] at hm
        exact .range lo hi hm hlo.1 hhi.1
      · cases hk
    · cases hn
  · cases h

theorem shape_of_isCidr (h : isCidr m = true) : Shape m := by
  simp only [isCidr, Bool.and_eq_true, decide_eq_true_eq] at h
  obtain ⟨⟨⟨⟨⟨-, hlt⟩, hfamily⟩, hbits⟩, -⟩, -⟩ := h
  generalize haddr : m.toList.takeWhile (· ≠ '/') = addr at hlt hfamily hbits
  have hsplit := List.takeWhile_append_dropWhile (p := (· ≠ '/')) (l := m.toList)
  rw [haddr] at hsplit
  cases hdrop : m.toList.dropWhile (· ≠ '/') with
  | nil =>
    rw [hdrop, List.append_nil] at hsplit
    rw [hsplit, String.length_toList] at hlt
    exact absurd hlt (Nat.lt_irrefl _)
  | cons d rest =>
    have hd : d = '/' := by
      have := List.head?_dropWhile_not (p := (· ≠ '/')) (l := m.toList)
      rw [hdrop] at this
      simpa using this
    have hrest : m.toList.drop (addr.length + 1) = rest := by
      rw [← hsplit, hdrop, ← List.drop_drop, List.drop_left]
      rfl
    rw [hrest] at hbits
    have hm : m = String.ofList addr ++ "/" ++ String.ofList rest := by
      refine String.toList_inj.mp ?_
      rw [← hsplit, hdrop, hd]
      simp
    exact .network _ _ hm hfamily hbits

theorem Admitted.shape (h : Admitted lib m) : Shape m := by
  obtain ⟨htrim, hkind⟩ := h
  unfold matcherKind at hkind
  split at hkind
  · rename_i hport
    obtain ⟨b, hb, -⟩ := (Option.any_eq_true _ _).mp hport
    exact shape_of_portBounds hb
  · split at hkind
    · cases hkind
    · rename_i hext
      rw [Option.isSome_map] at hkind
      have hext (pre : String) (hpre : pre ∈ ["ext:", "ext-domain:", "ext-ip:"]) :
          (afterPrefix pre m).isSome = false := by
        by_contra hsome
        exact hext (List.any_eq_true.mpr ⟨pre, hpre, (Bool.not_eq_false _).mp hsome⟩)
      simp only [classifyPolicyEntry, htrim, hext "ext:" (by decide),
        hext "ext-domain:" (by decide), hext "ext-ip:" (by decide), Bool.or_false] at hkind
      split at hkind
      · cases hkind
      · split at hkind
        · rename_i hgeo
          obtain ⟨tag, htag⟩ := Option.isSome_iff_exists.mp hgeo
          exact .geoip tag (afterPrefix_eq_some.mp htag)
        · split at hkind
          · rename_i hgeo
            obtain ⟨tag, htag⟩ := Option.isSome_iff_exists.mp hgeo
            exact .geosite tag (afterPrefix_eq_some.mp htag)
          · split at hkind
            · rename_i name hname
              obtain ⟨pre, hpre, hafter⟩ := List.exists_of_findSome?_eq_some hname
              refine .name pre name (afterPrefix_eq_some.mp hafter) ?_
              simp only [List.mem_cons, List.not_mem_nil, or_false] at hpre
              rcases hpre with rfl | rfl | rfl <;> decide
            · split at hkind
              · rename_i re hre
                exact .name "regexp:" re (afterPrefix_eq_some.mp hre) (by decide)
              · split at hkind
                · rename_i hip
                  rcases hip with hip | hcidr
                  · exact .address hip
                  · exact shape_of_isCidr hcidr
                · rename_i hip
                  rw [not_or, not_not] at hip
                  split at hkind
                  · rename_i hhost
                    exact .host hhost hip.1
                  · cases hkind

end Shapes

/-! ## What each spelling means -/

section Meaning

variable {tag t m addr lo hi : String} {s : String}

theorem afterPrefix_bare (hip : isIP (bareOf m) ≠ 0) (htag : tag ∈ matcherTags) :
    afterPrefix tag m = none := by
  refine afterPrefix_eq_none.mpr fun t ht => hip ?_
  rw [ht]
  exact isIP_bareOf_tag htag

theorem afterPrefix_host (hhost : isHostname m = true) (htag : tag ∈ matcherTags) :
    afterPrefix tag m = none := by
  have hcolon : ∀ tag ∈ matcherTags, ':' ∈ tag.toList := by decide
  exact afterPrefix_of_notMem (hcolon tag htag)
    (notMem_of_isHostname hhost (by decide) (by decide) (by decide))

/-- A text without any of the tags. -/
structure Bare (m : String) : Prop where
  untagged : ∀ tag ∈ matcherTags, afterPrefix tag m = none

theorem bare_of_isIP (h : isIP (bareOf m) ≠ 0) : Bare m := ⟨fun _ htag => afterPrefix_bare h htag⟩

theorem bare_of_isHostname (h : isHostname m = true) : Bare m :=
  ⟨fun _ htag => afterPrefix_host h htag⟩

theorem ne_private {p t : String} (hp : p ∈ matcherTags) (hne : p ≠ "geoip:") :
    p ++ t ≠ "geoip:private" := by
  intro h
  have hnone := afterPrefix_tag (p := "geoip:") (t := t) (by decide) hp hne.symm
  rw [h] at hnone
  exact absurd hnone (by decide)

theorem append_eq_private {tag : String} : "geoip:" ++ tag = "geoip:private" ↔ tag = "private" := by
  constructor
  · intro h
    have hsome : afterPrefix "geoip:" ("geoip:" ++ tag) = some tag := afterPrefix_append
    rw [h] at hsome
    exact (Option.some.inj (show some "private" = some tag from hsome)).symm
  · rintro rfl
    rfl

theorem Bare.ne_private (h : Bare m) : m ≠ "geoip:private" := by
  rintro rfl
  exact absurd (h.untagged "geoip:" (by decide)) (by decide)

theorem Bare.atomOf (h : Bare m) :
    atomOf m = if isIP (bareOf m) ≠ 0 then .network (withBits m) else .suffix m := by
  simp only [Subscription.atomOf, nameAtom, nameAtoms, List.findSome?_cons, List.findSome?_nil,
    h.untagged "geosite:" (by decide), h.untagged "domain:" (by decide),
    h.untagged "full:" (by decide), h.untagged "keyword:" (by decide),
    h.untagged "regexp:" (by decide), h.untagged "geoip:" (by decide),
    h.untagged "port:" (by decide), Option.map_none, Option.bind_none]

theorem nameAtom_port : nameAtom ("port:" ++ t) = none := by
  simp (disch := decide) only [nameAtom, nameAtoms, List.findSome?_cons, List.findSome?_nil,
    afterPrefix_tag, Option.map_none]

theorem nameAtom_geoip : nameAtom ("geoip:" ++ t) = none := by
  simp (disch := decide) only [nameAtom, nameAtoms, List.findSome?_cons, List.findSome?_nil,
    afterPrefix_tag, Option.map_none]

theorem atomOf_geoip : atomOf ("geoip:" ++ t) = .geoip t := by
  rw [atomOf, nameAtom_geoip, afterPrefix_append]

theorem atomOf_port {a : Atom} (h : readPort '-' t = some a) : atomOf ("port:" ++ t) = a := by
  rw [atomOf, nameAtom_port, afterPrefix_tag (by decide) (by decide) (by decide),
    afterPrefix_append, Option.bind_some, h]

theorem nameAtom_name (p : String × (String → Atom)) (hp : p ∈ nameAtoms) :
    nameAtom (p.1 ++ t) = some (p.2 t) := by
  simp only [nameAtoms, List.mem_cons, List.not_mem_nil, or_false] at hp
  rcases hp with rfl | rfl | rfl | rfl | rfl <;>
    simp (disch := decide) only [nameAtom, nameAtoms, List.findSome?_cons, afterPrefix_tag,
      afterPrefix_append, Option.map_none, Option.map_some]

theorem atomOf_name (p : String × (String → Atom)) (hp : p ∈ nameAtoms) :
    atomOf (p.1 ++ t) = p.2 t := by
  rw [atomOf, nameAtom_name p hp]

theorem isDigits_iff : isDigits s = true ↔ s ≠ "" ∧ ∀ c ∈ s.toList, c.isDigit = true := by
  rw [isDigits, Bool.and_eq_true, decide_eq_true_eq, List.all_eq_true]

theorem notMem_of_isDigits (h : isDigits s = true) (hc : c.isDigit = false) : c ∉ s.toList := by
  intro hmem
  rw [(isDigits_iff.mp h).2 c hmem] at hc
  cases hc

theorem split_of_notMem (h : c ∉ s.toList) : split c s = [s] := by
  rw [split, List.splitOn_eq_singleton h, List.map_singleton, String.ofList_toList]

theorem split_pair {s t : String} (hs : c ∉ s.toList) (ht : c ∉ t.toList) :
    split c (s ++ String.singleton c ++ t) = [s, t] := by
  have : split c (String.intercalate (String.singleton c) [s, t]) = [s, t] :=
    split_intercalate (by simp [hs, ht]) (by simp)
  rwa [String.intercalate_cons_cons, String.intercalate_singleton] at this

section Ports

variable (hlo : isDigits lo = true) (hhi : isDigits hi = true) {sep : Char}
  (hsep : sep.isDigit = false)

include hlo hsep

theorem readPort_one : readPort sep lo = some (.port (numberOf lo) (numberOf lo)) := by
  rw [readPort, split_of_notMem (notMem_of_isDigits hlo hsep)]
  exact if_pos hlo

include hhi

theorem readPort_two :
    readPort sep (lo ++ String.singleton sep ++ hi) = some (.port (numberOf lo) (numberOf hi)) := by
  rw [readPort, split_pair (notMem_of_isDigits hlo hsep) (notMem_of_isDigits hhi hsep)]
  exact if_pos ⟨hlo, hhi⟩

end Ports

end Meaning

/-! ## xray's spelling -/

/-- xray reads a name without a tag as a substring. -/
def xrayDomainAtom (s : String) : Atom := (nameAtom s).getD (.keyword s)

def xrayIpAtom (s : String) : Atom :=
  match afterPrefix "geoip:" s with
  | some tag => .geoip tag
  | none => .network (withBits s)

section Xray

variable {m t : String}

theorem kindOf_port : kindOf ("port:" ++ t) = .port := by
  rw [kindOf, afterPrefix_append]
  rfl

theorem kindOf_geoip : kindOf ("geoip:" ++ t) = .ip := by
  rw [kindOf, afterPrefix_tag (by decide) (by decide) (by decide), afterPrefix_append]
  rfl

theorem kindOf_name (p : String × (String → Atom)) (hp : p ∈ nameAtoms) :
    kindOf (p.1 ++ t) = .domain := by
  have htag : ∀ p ∈ nameAtoms.map Prod.fst, p ∈ matcherTags ∧ "port:" ≠ p ∧ "geoip:" ≠ p := by
    decide
  obtain ⟨hmem, hport, hgeoip⟩ := htag p.1 (List.mem_map_of_mem hp)
  rw [kindOf, afterPrefix_tag (by decide) hmem hport, afterPrefix_tag (by decide) hmem hgeoip,
    isIP_bareOf_tag hmem]
  rfl

theorem Bare.kindOf (h : Bare m) : kindOf m = if isIP (bareOf m) ≠ 0 then .ip else .domain := by
  rw [Subscription.kindOf, h.untagged "port:" (by decide), h.untagged "geoip:" (by decide),
    if_neg (by simp), if_neg (by simp)]

theorem xrayDomain_name (p : String × (String → Atom)) (hp : p ∈ nameAtoms) :
    xrayDomain (p.1 ++ t) = p.1 ++ t := by
  have hmem : p.1 ∈ XRAY_DOMAIN_PREFIXES := List.mem_map_of_mem (f := Prod.fst) hp
  rw [xrayDomain, if_pos]
  exact List.any_eq_true.mpr ⟨p.1, hmem, by rw [afterPrefix_append]; rfl⟩

theorem Bare.xrayDomain (h : Bare m) : xrayDomain m = "domain:" ++ m := by
  have htags : ∀ p ∈ XRAY_DOMAIN_PREFIXES, p ∈ matcherTags := by decide
  rw [Subscription.xrayDomain, if_neg]
  rw [Bool.not_eq_true, List.any_eq_false]
  intro p hp
  rw [h.untagged p (htags p hp)]
  exact Bool.false_ne_true

/-- The spellings fall into the names, the countries, the ports and the texts without a tag. -/
theorem Shape.cases (h : Shape m) :
    (∃ p ∈ nameAtoms, ∃ t, m = p.1 ++ t) ∨ (∃ tag, m = "geoip:" ++ tag)
      ∨ (∃ rest a, m = "port:" ++ rest ∧ readPort '-' rest = some a) ∨ Bare m := by
  cases h with
  | port lo hm hlo => exact .inr (.inr (.inl ⟨lo, _, hm, readPort_one hlo (by decide)⟩))
  | range lo hi hm hlo hhi =>
    exact .inr (.inr (.inl ⟨_, _, hm, readPort_two hlo hhi (by decide)⟩))
  | geosite tag hm => exact .inl ⟨("geosite:", .geosite), by simp [nameAtoms], tag, hm⟩
  | geoip tag hm => exact .inr (.inl ⟨tag, hm⟩)
  | name tag p hm htag =>
    have hnames : ∀ tag ∈ nameTags, tag ∈ nameAtoms.map Prod.fst := by decide
    obtain ⟨q, hq, rfl⟩ := List.mem_map.mp (hnames tag htag)
    exact .inl ⟨q, hq, p, hm⟩
  | address hip =>
    refine .inr (.inr (.inr (bare_of_isIP ?_)))
    rwa [bareOf_of_notMem (notMem_slash_of_isIP hip)]
  | network addr bits hm hip hbits =>
    refine .inr (.inr (.inr (bare_of_isIP ?_)))
    rwa [hm, bareOf_slash (notMem_slash_of_isIP hip)]
  | host hhost _ => exact .inr (.inr (.inr (bare_of_isHostname hhost)))

/-- **The names of a rule mean in xray what their matchers mean.** -/
theorem xrayDomainAtom_atomOf (h : Shape m) (hkind : kindOf m = .domain) :
    xrayDomainAtom (xrayDomain m) = atomOf m := by
  rcases h.cases with ⟨p, hp, t, rfl⟩ | ⟨tag, rfl⟩ | ⟨rest, a, rfl, -⟩ | hbare
  · rw [xrayDomain_name p hp, xrayDomainAtom, nameAtom_name p hp, atomOf_name p hp,
      Option.getD_some]
  · rw [kindOf_geoip] at hkind
    cases hkind
  · rw [kindOf_port] at hkind
    cases hkind
  · have hip : ¬ isIP (bareOf m) ≠ 0 := by
      rw [hbare.kindOf] at hkind
      split at hkind
      · cases hkind
      · assumption
    have hname : nameAtom ("domain:" ++ m) = some (.suffix m) :=
      nameAtom_name ("domain:", .suffix) (by simp [nameAtoms])
    rw [hbare.xrayDomain, xrayDomainAtom, hname, hbare.atomOf, if_neg hip, Option.getD_some]

/-- **So do its addresses.** -/
theorem xrayIpAtom_atomOf (h : Shape m) (hkind : kindOf m = .ip) : xrayIpAtom m = atomOf m := by
  rcases h.cases with ⟨p, hp, t, rfl⟩ | ⟨tag, rfl⟩ | ⟨rest, a, rfl, -⟩ | hbare
  · rw [kindOf_name p hp] at hkind
    cases hkind
  · rw [xrayIpAtom, afterPrefix_append, atomOf_geoip]
  · rw [kindOf_port] at hkind
    cases hkind
  · have hip : isIP (bareOf m) ≠ 0 := by
      rw [hbare.kindOf] at hkind
      split at hkind
      · assumption
      · cases hkind
    rw [xrayIpAtom, hbare.untagged "geoip:" (by decide), hbare.atomOf, if_pos hip]

theorem portText_append : portText ("port:" ++ t) = t := by
  refine String.toList_inj.mp ?_
  rw [portText, String.toList_ofList, String.toList_append]
  rfl

/-- **So do its ports.** -/
theorem readPort_portText (h : Shape m) (hkind : kindOf m = .port) :
    readPort '-' (portText m) = some (atomOf m) := by
  rcases h.cases with ⟨p, hp, t, rfl⟩ | ⟨tag, rfl⟩ | ⟨rest, a, rfl, hread⟩ | hbare
  · rw [kindOf_name p hp] at hkind
    cases hkind
  · rw [kindOf_geoip] at hkind
    cases hkind
  · rw [portText_append, hread, atomOf_port hread]
  · rw [hbare.kindOf] at hkind
    split at hkind <;> cases hkind

end Xray

end Iceslab.Subscription

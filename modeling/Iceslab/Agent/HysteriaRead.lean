import Iceslab.Agent.Hysteria
import Iceslab.Lib.Names
import Iceslab.Lib.YamlLines

/-!
# The config of hysteria read back

What the text of `renderConfig` is as a YAML document.

* `intended` — the document that is meant.
* `written` — the strings that are written into it as they are.
* `reads_back_iff` — **a config reads back as the document meant just when each of them is a plain
  scalar of its own.**
-/

set_option autoImplicit false

namespace Iceslab.Agent.Hysteria

open Checked (bind_eq_ok pure_eq_ok)
open YamlText

/-! ## Statements -/

/-- The file, each line with its break. -/
def fileText (lines : List String) : String := IniText.unlines lines

section Intended

variable (cfg : Config) (inbound : InboundConfig)

/-- The pushed hostname, or the install-time one. -/
def acmeHost : String := if inbound.hostname ≠ "" then inbound.hostname else cfg.hostname

/-- Where hysteria asks the agent for a user. -/
def authURL : String :=
  "http://" ++ (if cfg.authCallbackHost = "" then "127.0.0.1" else cfg.authCallbackHost) ++ ":" ++
    toString (if cfg.authCallbackPort = 0 then 9000 else cfg.authCallbackPort) ++
    if cfg.authCallbackPath = "" then "/auth" else cfg.authCallbackPath

def certificateEntry : String × Node :=
  if inbound.tlsCertPEM ≠ "" then
    ("tls", mapping [("cert", .str (tlsPaths cfg.configPath).1),
      ("key", .str (tlsPaths cfg.configPath).2)])
  else
    ("acme", mapping (("domains", .seq [.str (acmeHost cfg inbound)]) ::
      if cfg.acmeEmail ≠ "" then [("email", .str cfg.acmeEmail)] else []))

def authEntry : String × Node :=
  ("auth", mapping [("type", .str "http"), ("http", mapping [("url", .str (authURL cfg))])])

def obfsEntries : List (String × Node) :=
  if inbound.obfsPassword ≠ "" then
    [("obfs", mapping [("type", .str "salamander"),
      ("salamander", mapping [("password", .str inbound.obfsPassword)])])]
  else []

def masqueradeEntries : List (String × Node) :=
  if inbound.masqueradeURL ≠ "" then
    [("masquerade", mapping [("type", .str "proxy"),
      ("proxy", mapping [("url", .str inbound.masqueradeURL), ("rewriteHost", .typed "true")])])]
  else []

def mbps (key : String) (n : Int) : List (String × Node) :=
  if 0 < n then [(key, .str (toString n ++ " mbps"))] else []

def bandwidthEntries : List (String × Node) :=
  (if 0 < inbound.brutalUpMbps ∨ 0 < inbound.brutalDownMbps then
    [("bandwidth", mapping (mbps "up" inbound.brutalUpMbps ++ mbps "down" inbound.brutalDownMbps))]
  else []) ++
    if inbound.brutalUpMbps = 0 ∧ inbound.brutalDownMbps = 0 then
      [("ignoreClientBandwidth", .typed "true")]
    else []

def trafficStatsEntries : List (String × Node) :=
  if cfg.trafficStatsListen ≠ "" ∧ cfg.trafficStatsSecret ≠ "" then
    [("trafficStats", mapping [("listen", .str cfg.trafficStatsListen),
      ("secret", .str cfg.trafficStatsSecret)])]
  else []

/-- One outbound, the way into the chain. -/
def chainEntries : Option ChainHandoff → List (String × Node)
  | none => []
  | some h => [("outbounds", .seq [mapping [("name", .str "chain"), ("type", .str "socks5"),
      ("socks5", mapping [("addr", .str ("127.0.0.1:" ++ toString h.port)),
        ("username", .str h.username), ("password", .str h.password)])]])]

def intendedEntries (handoff : Option ChainHandoff) : List (String × Node) :=
  [("listen", .str (":" ++ toString (listenPort cfg inbound)))] ++
    [certificateEntry cfg inbound] ++ [authEntry cfg] ++ obfsEntries inbound ++
    masqueradeEntries inbound ++ bandwidthEntries inbound ++ trafficStatsEntries cfg ++
    chainEntries handoff

/-- The document that is meant. -/
def intended (handoff : Option ChainHandoff) : Node := mapping (intendedEntries cfg inbound handoff)

/-- The strings of the pushes and of the install that are written as they are. -/
def written (handoff : Option ChainHandoff) : List String :=
  (if inbound.tlsCertPEM ≠ "" then [(tlsPaths cfg.configPath).1, (tlsPaths cfg.configPath).2]
    else acmeHost cfg inbound :: if cfg.acmeEmail ≠ "" then [cfg.acmeEmail] else []) ++
    [authURL cfg] ++
    (if inbound.obfsPassword ≠ "" then [inbound.obfsPassword] else []) ++
    (if inbound.masqueradeURL ≠ "" then [inbound.masqueradeURL] else []) ++
    (if cfg.trafficStatsListen ≠ "" ∧ cfg.trafficStatsSecret ≠ "" then
      [cfg.trafficStatsListen, cfg.trafficStatsSecret] else []) ++
    match handoff with
    | none => []
    | some h => [h.username, h.password]

end Intended

variable {libs : Libs} {cfg : Config} {inbound : InboundConfig} {handoff : Option ChainHandoff}
variable {d : Dialect} {lines : List String}

/-! ## The strings of the document -/

/-- Each string that is written is one of the document. -/
theorem written_subset :
    ∀ s ∈ written cfg inbound handoff, s ∈ (intended cfg inbound handoff).strings := by
  intro s hs
  unfold intended intendedEntries mapping
  simp only [Node.strings, List.map_append, allStrings_append]
  unfold written at hs
  simp only [List.mem_append] at hs ⊢
  rcases hs with ((((hs | hs) | hs) | hs) | hs) | hs
  · refine .inl (.inl (.inl (.inl (.inl (.inl (.inr ?_))))))
    unfold certificateEntry
    split at hs
    · rename_i htls
      rw [if_pos htls]
      simpa [mapping, Node.strings, allStrings] using hs
    · rename_i htls
      rw [if_neg htls]
      by_cases hemail : cfg.acmeEmail = "" <;>
        simpa [hemail, mapping, Node.strings, allStrings] using hs
  · refine .inl (.inl (.inl (.inl (.inl (.inr ?_)))))
    simp only [List.mem_singleton] at hs
    simp [authEntry, mapping, Node.strings, allStrings, hs]
  · refine .inl (.inl (.inl (.inl (.inr ?_))))
    unfold obfsEntries
    split at hs <;> rename_i h <;> simp_all [mapping, Node.strings, allStrings]
  · refine .inl (.inl (.inl (.inr ?_)))
    unfold masqueradeEntries
    split at hs <;> rename_i h <;> simp_all [mapping, Node.strings, allStrings]
  · refine .inl (.inr ?_)
    unfold trafficStatsEntries
    split at hs <;> rename_i h <;> simp_all [mapping, Node.strings, allStrings]
  · refine .inr ?_
    cases handoff with
    | none => cases hs
    | some h =>
      simp only [List.mem_cons, List.not_mem_nil, or_false] at hs
      rcases hs with rfl | rfl <;> simp [chainEntries, mapping, Node.strings, allStrings]

/-! ## Numbers -/

variable {n : Int}

theorem int_ascii (n : Int) : ∀ c ∈ (toString n).toList,
    0x20 < c.toNat ∧ c.toNat ≤ 0x7e ∧ c ≠ ':' ∧ c ≠ '#' := by
  intro c hc
  rcases Names.int_chars n c hc with h | rfl
  · have hrange := h
    simp only [Char.isDigit, Bool.and_eq_true, decide_eq_true_eq] at hrange
    have hlo : '0'.toNat ≤ c.toNat := hrange.1
    have hhi : c.toNat ≤ '9'.toNat := hrange.2
    refine ⟨?_, ?_, ?_, ?_⟩
    · exact Nat.lt_of_lt_of_le (by decide) hlo
    · exact hhi.trans (by decide)
    · rintro rfl
      cases h
    · rintro rfl
      cases h
  · decide

theorem isBlank_of_toNat {c : Char} (h : 0x20 < c.toNat) : isBlank c = false := by
  unfold isBlank
  rw [Bool.or_eq_false_iff, decide_eq_false_iff_not, decide_eq_false_iff_not]
  constructor <;> rintro rfl <;> revert h <;> decide

/-- A number after a text without blanks that ends in a colon. -/
theorem plain_before {pre : String} (hpre : ∀ c ∈ pre.toList, 0x20 < c.toNat ∧ c.toNat ≤ 0x7e)
    (hstarts : startsPlain (pre ++ toString n).toList = true)
    (htyped : isTyped (pre ++ toString n).toList = false) (hhash : '#' ∉ pre.toList) :
    Plain d (pre ++ toString n) := by
  have hmem : ∀ c ∈ (pre ++ toString n).toList, 0x20 < c.toNat ∧ c.toNat ≤ 0x7e := by
    intro c hc
    rw [String.toList_append, List.mem_append] at hc
    exact hc.elim (hpre c) fun hc => ⟨(int_ascii n c hc).1, (int_ascii n c hc).2.1⟩
  have hlast : ∀ c ∈ (pre ++ toString n).toList.getLast?, c ∈ (toString n).toList := by
    intro c hc
    rw [String.toList_append, List.getLast?_append_of_ne_nil _ (Names.int_ne_nil n)] at hc
    exact List.mem_of_getLast? hc
  refine ⟨List.all_eq_true.mpr fun c hc => ?_, hstarts, fun c hc => ?_, ?_, ?_, htyped⟩
  · exact isInline_of_ascii d (hmem c hc).1.le (hmem c hc).2
  · exact isBlank_of_toNat (int_ascii n c (hlast c hc)).1
  · refine endsKey_of_noBlank (fun c hc => isBlank_of_toNat (hmem c hc).1) fun hc => ?_
    exact (int_ascii n ':' (hlast _ hc)).2.2.1 rfl
  · refine hasComment_of_notMem fun hc => ?_
    rw [String.toList_append, List.mem_append] at hc
    exact hc.elim hhash fun hc => (int_ascii n '#' hc).2.2.2 rfl

theorem plain_listen (n : Int) : Plain d (":" ++ toString n) := by
  refine plain_before (by decide) ?_ ?_ (by decide) <;> rw [String.toList_append]
  · cases hn : (toString n).toList with
    | nil => exact absurd hn (Names.int_ne_nil n)
    | cons c rest =>
      have hc := (int_ascii n c (by rw [hn]; exact List.mem_cons_self)).1
      simp [startsPlain, isBlank_of_toNat hc]
      decide
  · rfl

theorem plain_addr (n : Int) : Plain d ("127.0.0.1:" ++ toString n) := by
  refine plain_before (by decide) ?_ ?_ (by decide) <;> rw [String.toList_append]
  · rfl
  · rfl

/-- A number before a unit is no number. -/
theorem isTyped_unit {ds unit : List Char} (hne : ds ≠ []) (hds : ∀ c ∈ ds, c.isDigit = true) :
    isTyped (ds ++ ' ' :: unit) = false := by
  have hspace : ' ' ∈ ds ++ ' ' :: unit := List.mem_append_right _ List.mem_cons_self
  have hwords : ∀ w ∈ ["", "~", "null", "Null", "NULL", "true", "True", "TRUE", "false", "False",
      "FALSE", ".nan", ".NaN", ".NAN"].map String.toList, ' ' ∉ w := by decide
  have hinfs : ∀ w ∈ [".inf", ".Inf", ".INF"].map String.toList, ' ' ∉ w := by decide
  have hunsigned : unsigned (ds ++ ' ' :: unit) = ds ++ ' ' :: unit := by
    cases ds with
    | nil => exact absurd rfl hne
    | cons c rest =>
      unfold unsigned
      split
      · rename_i heq
        rw [(List.cons.inj heq).1] at hds
        exact absurd (hds '+' List.mem_cons_self) (by decide)
      · rename_i heq
        rw [(List.cons.inj heq).1] at hds
        exact absurd (hds '-' List.mem_cons_self) (by decide)
      · rfl
  have hbased : isBased (ds ++ ' ' :: unit) = false := by
    generalize ds ++ ' ' :: unit = s at hspace
    unfold isBased
    split
    · rename_i rest
      have hrest : ' ' ∈ rest := by simpa using hspace
      rw [Bool.and_eq_false_iff]
      exact .inr (List.all_eq_false.mpr ⟨' ', hrest, by decide⟩)
    · rename_i rest
      have hrest : ' ' ∈ rest := by simpa using hspace
      rw [Bool.and_eq_false_iff]
      exact .inr (List.all_eq_false.mpr ⟨' ', hrest, by decide⟩)
    · rfl
  have hstop : ∀ c ∈ (' ' :: unit).head?, Char.isDigit c = false := by
    rintro _ ⟨⟩
    rfl
  have hdecimal : isDecimal (ds ++ ' ' :: unit) = false := by
    unfold isDecimal
    dsimp only
    rw [hunsigned, (while_append hstop).2, List.dropWhile_eq_nil_iff.mpr hds]
    simp [isExponent]
  unfold isTyped
  rw [hunsigned, hbased, hdecimal, decide_eq_false fun h => hwords _ h hspace,
    decide_eq_false fun h => hinfs _ h hspace]
  rfl

theorem plain_mbps (hn : 0 < n) : Plain d (toString n ++ " mbps") := by
  have hdigits : ∀ c ∈ (toString n).toList, c.isDigit = true := by
    obtain ⟨m, rfl⟩ := Int.eq_ofNat_of_zero_le hn.le
    intro c hc
    rw [show toString (m : Int) = toString m from rfl, Nat.toString_eq_repr, Nat.toList_repr] at hc
    exact Nat.isDigit_of_mem_toDigits (by decide) (by decide) hc
  have hmem : ∀ c ∈ (toString n ++ " mbps").toList,
      0x20 ≤ c.toNat ∧ c.toNat ≤ 0x7e ∧ c ≠ ':' ∧ c ≠ '#' := by
    intro c hc
    rw [String.toList_append, List.mem_append] at hc
    rcases hc with hc | hc
    · obtain ⟨hlo, hrest⟩ := int_ascii n c hc
      exact ⟨hlo.le, hrest⟩
    · revert c
      decide
  refine ⟨List.all_eq_true.mpr fun c hc => ?_, ?_, ?_, ?_, ?_, ?_⟩
  · exact isInline_of_ascii d (hmem c hc).1 (hmem c hc).2.1
  · rw [String.toList_append]
    cases hlist : (toString n).toList with
    | nil => exact absurd hlist (Names.int_ne_nil n)
    | cons c rest =>
      have hc : c ∈ (toString n).toList := by
        rw [hlist]
        exact List.mem_cons_self
      have hindicator : isIndicator c = false := by
        have hnone : ∀ c ∈ "-?:,[]\x7b\x7d#&*!|>\x27\x22%@\x60".toList, c.isDigit = false := by
          decide
        refine decide_eq_false fun hmem => ?_
        exact absurd (hdigits c hc) (by rw [hnone c hmem]; decide)
      rw [List.cons_append, startsPlain, hindicator, isBlank_of_toNat (int_ascii n c hc).1]
      rfl
  · intro c hc
    rw [String.toList_append, List.getLast?_append_of_ne_nil _ (by decide)] at hc
    obtain rfl := Option.some.inj hc
    rfl
  · exact endsKey_of_notMem fun hc => (hmem _ hc).2.2.1 rfl
  · exact hasComment_of_notMem fun hc => (hmem _ hc).2.2.2 rfl
  · rw [String.toList_append]
    exact isTyped_unit (Names.int_ne_nil n) hdigits

/-! ## The sections -/

section Sections

variable {s s' : String}

/-- A section of a type, with what belongs to the type under it. -/
theorem reads_kind {l₀ l₁ l₂ head kind under : String} {tail : List String}
    {entries : List (String × Node)} (h₀ : lineRows 0 l₀.toList = [⟨0, .key head.toList []⟩])
    (h₁ : lineRows 0 l₁.toList = [⟨2, .key "type".toList (' ' :: kind.toList)⟩])
    (h₂ : lineRows 0 l₂.toList = [⟨2, .key under.toList []⟩]) (hunder : "type" ≠ under)
    (hascii : IsAscii l₀ ∧ IsAscii l₁ ∧ IsAscii l₂) (hkind : Plain d kind)
    (htail : List.Forall₂ (ReadsLine d 4) tail entries) (hne : entries ≠ [])
    (hkeys : (entries.map Prod.fst).Nodup) :
    Reads d (l₀ :: l₁ :: l₂ :: tail)
      [(head, mapping [("type", .str kind), (under, mapping entries)])] := by
  have hdeep : ∀ r ∈ rowsOfLines tail, 2 < r.col := by
    intro r hr
    rw [(forest_lines htail).2 r hr]
    decide
  refine Reads.section ?_ h₀ (rowsOfLines_cons h₁ (rowsOfLines_cons h₂ rfl)) ?_ ?_
  · rintro l (_ | ⟨_, _ | ⟨_, _ | ⟨_, hl⟩⟩⟩)
    · exact oneLine_of_ascii d hascii.1
    · exact oneLine_of_ascii d hascii.2.1
    · exact oneLine_of_ascii d hascii.2.2
    · exact oneLine_lines htail _ hl
  · rintro r (_ | ⟨_, _ | ⟨_, hr⟩⟩)
    · exact Nat.two_pos
    · exact Nat.two_pos
    · exact Nat.two_pos.trans (hdeep _ hr)
  · have hlast : forest (⟨2, .key under.toList []⟩ :: rowsOfLines tail ++ []) =
        .node ⟨2, .key under.toList []⟩ (forest (rowsOfLines tail)) :: forest [] :=
      forest_section hdeep nofun
    rw [List.append_nil] at hlast
    have hforest : forest ([⟨2, .key "type".toList (' ' :: kind.toList)⟩] ++
        ([⟨2, .key under.toList []⟩] ++ rowsOfLines tail)) =
          [.node ⟨2, .key "type".toList (' ' :: kind.toList)⟩ [],
            .node ⟨2, .key under.toList []⟩ (forest (rowsOfLines tail))] := by
      rw [List.singleton_append, List.singleton_append, forest_cons, hlast]
      rfl
    have hvalue : (YamlText.Tree.node ⟨2, .key under.toList []⟩ (forest (rowsOfLines tail))).value d =
        some (mapping entries) := (value_under rfl 2 _).trans (block_lines htail hne hkeys)
    rw [value_under rfl, hforest]
    exact block_entries (.cons ⟨rfl, ⟨_, rfl⟩, value_plain hkind 2 _⟩
      (.cons ⟨rfl, ⟨_, rfl⟩, hvalue⟩ .nil)) (by simp) (by simpa using hunder)

theorem reads_auth (h : Plain d s) :
    Reads d ["auth:", "  type: http", "  http:", "    url: " ++ s]
      [("auth", mapping [("type", .str "http"), ("http", mapping [("url", .str s)])])] :=
  reads_kind (by decide) (by decide) (by decide) (by decide) (by decide)
    (plain_of_ascii d (by decide) (by decide))
    (.cons (readsLine_plain "    url: " 4 "url" (by decide) (by decide) (by decide) h) .nil)
    (by simp) (by simp)

theorem reads_obfs (h : Plain d s) :
    Reads d ["obfs:", "  type: salamander", "  salamander:", "    password: " ++ s]
      [("obfs", mapping [("type", .str "salamander"),
        ("salamander", mapping [("password", .str s)])])] :=
  reads_kind (by decide) (by decide) (by decide) (by decide) (by decide)
    (plain_of_ascii d (by decide) (by decide))
    (.cons (readsLine_plain "    password: " 4 "password" (by decide) (by decide) (by decide) h)
      .nil)
    (by simp) (by simp)

theorem reads_masquerade (h : Plain d s) :
    Reads d ["masquerade:", "  type: proxy", "  proxy:", "    url: " ++ s, "    rewriteHost: true"]
      [("masquerade", mapping [("type", .str "proxy"),
        ("proxy", mapping [("url", .str s), ("rewriteHost", .typed "true")])])] := by
  have htrue : ReadsLine d 4 "    rewriteHost: true" ("rewriteHost", .typed "true") :=
    ⟨oneLine_of_ascii d (by decide), ⟨4, .key "rewriteHost".toList " true".toList⟩,
      by decide, rfl, ⟨_, rfl⟩, value_true 4 _⟩
  exact reads_kind (by decide) (by decide) (by decide) (by decide)
    (by decide) (plain_of_ascii d (by decide) (by decide))
    (.cons (readsLine_plain "    url: " 4 "url" (by decide) (by decide) (by decide) h)
      (.cons htrue .nil))
    (by simp) (by simp)

theorem reads_tls (h : Plain d s) (h' : Plain d s') :
    Reads d ["tls:", "  cert: " ++ s, "  key: " ++ s']
      [("tls", mapping [("cert", .str s), ("key", .str s')])] :=
  Reads.keyed (by decide) (by decide) Nat.two_pos
    (.cons (readsLine_plain "  cert: " 2 "cert" (by decide) (by decide) (by decide) h)
      (.cons (readsLine_plain "  key: " 2 "key" (by decide) (by decide) (by decide) h') .nil))
    (by simp) (by simp)

theorem reads_trafficStats (h : Plain d s) (h' : Plain d s') :
    Reads d ["trafficStats:", "  listen: " ++ s, "  secret: " ++ s']
      [("trafficStats", mapping [("listen", .str s), ("secret", .str s')])] :=
  Reads.keyed (by decide) (by decide) Nat.two_pos
    (.cons (readsLine_plain "  listen: " 2 "listen" (by decide) (by decide) (by decide) h)
      (.cons (readsLine_plain "  secret: " 2 "secret" (by decide) (by decide) (by decide) h')
        .nil))
    (by simp) (by simp)

/-- A bandwidth in one direction, where there is one. -/
theorem lines_mbps (pre k : String) (n : Int)
    (hpre : pre.toList = List.replicate 2 ' ' ++ (k.toList ++ [':', ' '])) (hk : IsWord k.toList)
    (hascii : IsAscii pre) :
    List.Forall₂ (ReadsLine d 2) (if 0 < n then [pre ++ toString n ++ " mbps"] else [])
      (mbps k n) := by
  unfold mbps
  split
  · rename_i hn
    rw [String.append_assoc]
    exact .cons (readsLine_plain pre 2 k hpre hk hascii (plain_mbps hn)) .nil
  · exact .nil

theorem reads_bandwidth (up down : Int) (h : 0 < up ∨ 0 < down) :
    Reads d (["bandwidth:"] ++ (if 0 < up then ["  up: " ++ toString up ++ " mbps"] else []) ++
        if 0 < down then ["  down: " ++ toString down ++ " mbps"] else [])
      [("bandwidth", mapping (mbps "up" up ++ mbps "down" down))] := by
  refine Reads.keyed (by decide) (by decide) Nat.two_pos
    (List.rel_append (lines_mbps "  up: " "up" up (by decide) (by decide) (by decide))
      (lines_mbps "  down: " "down" down (by decide) (by decide) (by decide))) ?_ ?_
  · unfold mbps
    rcases h with h | h <;> simp [h]
  · unfold mbps
    split <;> split <;> simp

theorem reads_acme (h : Plain d s) (h' : s' ≠ "" → Plain d s') :
    Reads d (["acme:", "  domains:", "    - " ++ s] ++
        if s' ≠ "" then ["  email: " ++ s'] else [])
      [("acme", mapping (("domains", .seq [.str s]) ::
        if s' ≠ "" then [("email", .str s')] else []))] := by
  have hemail : List.Forall₂ (ReadsLine d 2) (if s' ≠ "" then ["  email: " ++ s'] else [])
      (if s' ≠ "" then [("email", .str s')] else []) := by
    split
    · rename_i hne
      exact .cons (readsLine_plain "  email: " 2 "email" (by decide) (by decide) (by decide)
        (h' hne)) .nil
    · exact .nil
  have hdomains : lineRows 0 "  domains:".toList = [⟨2, .key "domains".toList []⟩] := by
    decide
  have hitem : lineRows 0 ("    - " ++ s).toList = [⟨4, .dash⟩, ⟨6, .plain s.toList⟩] := by
    rw [String.toList_append]
    exact congrArg _ (lineRows_plain h 6)
  obtain ⟨hforest, hcol⟩ := forest_lines hemail
  refine Reads.section ?_ (k := "acme") (v := []) (by decide)
    (rowsOfLines_cons hdomains (rowsOfLines_cons hitem rfl)) ?_ ?_
  · rintro l (_ | ⟨_, _ | ⟨_, _ | ⟨_, hl⟩⟩⟩)
    · exact oneLine_of_ascii d (by decide)
    · exact oneLine_of_ascii d (by decide)
    · exact (oneLine_of_ascii d (by decide)).append h.oneLine
    · exact oneLine_lines hemail _ hl
  · rintro r (_ | ⟨_, _ | ⟨_, _ | ⟨_, hr⟩⟩⟩)
    · exact Nat.two_pos
    · exact Nat.succ_pos 3
    · exact Nat.succ_pos 5
    · rw [hcol _ hr]
      exact Nat.two_pos
  · have hvalue : (YamlText.Tree.node ⟨2, .key "domains".toList []⟩
        [.node ⟨4, .dash⟩ [.node ⟨6, .plain s.toList⟩ []]]).value d = some (.seq [.str s]) := by
      rw [value_under rfl]
      exact block_item rfl ((value_dash 4 _).trans (block_scalar rfl (value_item h 6)))
    have hwhole : forest (⟨2, .key "domains".toList []⟩ :: [⟨4, .dash⟩, ⟨6, .plain s.toList⟩] ++
        rowsOfLines (if s' ≠ "" then ["  email: " ++ s'] else [])) = _ :=
      forest_section (by simp) fun r hr => (hcol r (List.mem_of_mem_head? hr)).le
    rw [value_under rfl]
    refine Eq.trans (congrArg _ hwhole) (block_entries (.cons ⟨rfl, ⟨_, rfl⟩, hvalue⟩ hforest)
      (by simp) ?_)
    split <;> simp

theorem reads_outbounds (port : Int) (h : Plain d s) (h' : Plain d s') :
    Reads d ["outbounds:", "  - name: chain", "    type: socks5", "    socks5:",
        "      addr: 127.0.0.1:" ++ toString port, "      username: " ++ s,
        "      password: " ++ s']
      [("outbounds", .seq [mapping [("name", .str "chain"), ("type", .str "socks5"),
        ("socks5", mapping [("addr", .str ("127.0.0.1:" ++ toString port)), ("username", .str s),
          ("password", .str s')])]])] := by
  have haddr : "      addr: 127.0.0.1:" ++ toString port =
      "      addr: " ++ ("127.0.0.1:" ++ toString port) := by
    rw [← String.append_assoc]
    rfl
  rw [haddr]
  have htail : List.Forall₂ (ReadsLine d 6)
      ["      addr: " ++ ("127.0.0.1:" ++ toString port), "      username: " ++ s,
        "      password: " ++ s']
      [("addr", .str ("127.0.0.1:" ++ toString port)), ("username", .str s),
        ("password", .str s')] :=
    .cons (readsLine_plain "      addr: " 6 "addr" (by decide) (by decide) (by decide)
        (plain_addr port))
      (.cons (readsLine_plain "      username: " 6 "username" (by decide) (by decide) (by decide) h)
        (.cons (readsLine_plain "      password: " 6 "password" (by decide) (by decide) (by decide)
          h') .nil))
  have hname : lineRows 0 "  - name: chain".toList =
      [⟨2, .dash⟩, ⟨4, .key "name".toList (' ' :: "chain".toList)⟩] := by decide
  have htype : lineRows 0 "    type: socks5".toList =
      [⟨4, .key "type".toList (' ' :: "socks5".toList)⟩] := by decide
  have hunder : lineRows 0 "    socks5:".toList = [⟨4, .key "socks5".toList []⟩] := by
    decide
  obtain ⟨hforest, hcol⟩ := forest_lines htail
  refine Reads.section ?_ (k := "outbounds") (v := []) (by decide)
    (rowsOfLines_cons hname (rowsOfLines_cons htype (rowsOfLines_cons hunder rfl))) ?_ ?_
  · rintro l (_ | ⟨_, _ | ⟨_, _ | ⟨_, _ | ⟨_, hl⟩⟩⟩⟩)
    · exact oneLine_of_ascii d (by decide)
    · exact oneLine_of_ascii d (by decide)
    · exact oneLine_of_ascii d (by decide)
    · exact oneLine_of_ascii d (by decide)
    · exact oneLine_lines htail _ hl
  · rintro r (_ | ⟨_, _ | ⟨_, _ | ⟨_, _ | ⟨_, hr⟩⟩⟩⟩)
    · exact Nat.two_pos
    · exact Nat.succ_pos 3
    · exact Nat.succ_pos 3
    · exact Nat.succ_pos 3
    · rw [hcol _ hr]
      exact Nat.succ_pos 5
  · have hchain : Plain d "chain" := plain_of_ascii d (by decide) (by decide)
    have hsocks : Plain d "socks5" := plain_of_ascii d (by decide) (by decide)
    have hvalue := (value_under (d := d) (k := "socks5".toList) (v := []) rfl 4 _).trans
      (block_lines htail (by simp) (by simp))
    generalize rowsOfLines ["      addr: " ++ ("127.0.0.1:" ++ toString port),
      "      username: " ++ s, "      password: " ++ s'] = rows at hcol hvalue
    have hlast : forest (⟨4, .key "socks5".toList []⟩ :: rows ++ []) =
        .node ⟨4, .key "socks5".toList []⟩ (forest rows) :: forest [] :=
      forest_section (fun r hr => by rw [hcol r hr]; exact Nat.lt_of_sub_eq_succ rfl) nofun
    rw [List.append_nil] at hlast
    have hwhole : forest ([⟨2, .dash⟩, ⟨4, .key "name".toList (' ' :: "chain".toList)⟩] ++
        ([⟨4, .key "type".toList (' ' :: "socks5".toList)⟩] ++
          ([⟨4, .key "socks5".toList []⟩] ++ rows))) =
        [.node ⟨2, .dash⟩ [.node ⟨4, .key "name".toList (' ' :: "chain".toList)⟩ [],
          .node ⟨4, .key "type".toList (' ' :: "socks5".toList)⟩ [],
          .node ⟨4, .key "socks5".toList []⟩ (forest rows)]] := by
      simp only [List.cons_append, List.nil_append, forest_cons]
      rw [← forest_cons, hlast]
      rfl
    rw [value_under rfl, hwhole]
    refine block_item rfl ((value_dash 2 _).trans ?_)
    exact block_entries (.cons ⟨rfl, ⟨_, rfl⟩, value_plain hchain 4 _⟩
      (.cons ⟨rfl, ⟨_, rfl⟩, value_plain hsocks 4 _⟩ (.cons ⟨rfl, ⟨_, rfl⟩, hvalue⟩ .nil)))
      (by simp) (by simp)

end Sections

/-! ## The document -/

section Document

variable {hostname : String} {ls : List String}

theorem renderHostname_eq (h : renderHostname cfg inbound = .ok hostname) :
    hostname = acmeHost cfg inbound := by
  unfold renderHostname at h
  unfold acmeHost
  split at h
  · rename_i hne
    obtain ⟨-, -, h⟩ := bind_eq_ok.mp h
    rw [if_pos hne]
    exact (pure_eq_ok.mp h).symm
  · rename_i hne
    rw [if_neg hne]
    exact (pure_eq_ok.mp h).symm

theorem reads_certificate (h : certificateLines cfg inbound (acmeHost cfg inbound) = .ok ls)
    (hplain : ∀ s ∈ written cfg inbound handoff, Plain d s) :
    Reads d ls [certificateEntry cfg inbound] := by
  unfold written at hplain
  simp only [List.append_assoc] at hplain
  have hplain := fun s hs => hplain s (List.mem_append_left _ hs)
  unfold certificateLines at h
  unfold certificateEntry
  by_cases htls : inbound.tlsCertPEM ≠ ""
  · rw [if_pos htls] at h hplain ⊢
    split at h
    · cases h
    cases h
    exact reads_tls (hplain _ List.mem_cons_self) (hplain _ (by simp))
  · rw [if_neg htls] at h hplain ⊢
    split at h
    · cases h
    cases h
    refine reads_acme (hplain _ List.mem_cons_self) fun hemail => hplain _ ?_
    rw [if_pos hemail]
    simp

theorem authLines_eq (cfg : Config) :
    authLines cfg = ["auth:", "  type: http", "  http:", "    url: " ++ authURL cfg] := by
  unfold authLines authURL
  simp only [← String.append_assoc]
  rfl

theorem reads_after {entries : List (String × Node)} (h : Reads d ls entries) :
    Reads d ("" :: ls) entries := Reads.blank.append h

theorem reads_obfsLines (h : obfsLines inbound = .ok ls)
    (hplain : inbound.obfsPassword ≠ "" → Plain d inbound.obfsPassword) :
    Reads d ls (obfsEntries inbound) := by
  unfold obfsLines at h
  unfold obfsEntries
  split at h
  · rename_i hne
    obtain ⟨-, -, h⟩ := bind_eq_ok.mp h
    cases pure_eq_ok.mp h
    rw [if_pos hne]
    exact reads_after (reads_obfs (hplain hne))
  · rename_i hne
    cases pure_eq_ok.mp h
    rw [if_neg hne]
    exact .nil

theorem reads_masqueradeLines (h : masqueradeLines libs inbound = .ok ls)
    (hplain : inbound.masqueradeURL ≠ "" → Plain d inbound.masqueradeURL) :
    Reads d ls (masqueradeEntries inbound) := by
  unfold masqueradeLines at h
  unfold masqueradeEntries
  split at h
  · rename_i hne
    obtain ⟨-, -, h⟩ := bind_eq_ok.mp h
    cases pure_eq_ok.mp h
    rw [if_pos hne]
    exact reads_after (reads_masquerade (hplain hne))
  · rename_i hne
    cases pure_eq_ok.mp h
    rw [if_neg hne]
    exact .nil

theorem reads_bandwidthLines (d : Dialect) (inbound : InboundConfig) :
    Reads d (bandwidthLines inbound) (bandwidthEntries inbound) := by
  have htrue : Reads d ["ignoreClientBandwidth: true"]
      [("ignoreClientBandwidth", .typed "true")] := by
    refine Reads.section ?_ (k := "ignoreClientBandwidth") (v := " true".toList) (by decide)
      rowsOfLines_nil nofun (value_true 0 _)
    intro l hl
    rw [List.mem_singleton.mp hl]
    exact oneLine_of_ascii d (by decide)
  unfold bandwidthLines bandwidthEntries
  refine Reads.append ?_ ?_
  · split
    · rename_i hup
      exact reads_after (reads_bandwidth inbound.brutalUpMbps inbound.brutalDownMbps hup)
    · exact .nil
  · split
    · exact reads_after htrue
    · exact .nil

theorem reads_trafficStatsLines
    (hplain : cfg.trafficStatsListen ≠ "" ∧ cfg.trafficStatsSecret ≠ "" →
      Plain d cfg.trafficStatsListen ∧ Plain d cfg.trafficStatsSecret) :
    Reads d (trafficStatsLines cfg) (trafficStatsEntries cfg) := by
  unfold trafficStatsLines trafficStatsEntries
  split
  · rename_i hne
    exact reads_after (reads_trafficStats (hplain hne).1 (hplain hne).2)
  · exact .nil

theorem reads_chainLines (h : chainLines handoff = .ok ls)
    (hplain : ∀ ho ∈ handoff, Plain d ho.username ∧ Plain d ho.password) :
    Reads d ls (chainEntries handoff) := by
  cases handoff with
  | none =>
    cases h
    exact .nil
  | some ho =>
    unfold chainLines writeChainOutbound at h
    dsimp only at h
    split at h
    · cases h
    split at h
    · cases h
    obtain ⟨-, -, h⟩ := bind_eq_ok.mp h
    obtain ⟨-, -, h⟩ := bind_eq_ok.mp h
    cases pure_eq_ok.mp h
    exact reads_after (reads_outbounds ho.port (hplain ho rfl).1 (hplain ho rfl).2)

/-- The keys of the document, as it may have them. -/
theorem keys_intended (cfg : Config) (inbound : InboundConfig) (handoff : Option ChainHandoff) :
    ((intendedEntries cfg inbound handoff).map Prod.fst).Nodup := by
  have hcertificate : (certificateEntry cfg inbound).1 ∈ ["tls", "acme"] := by
    unfold certificateEntry
    split <;> simp
  have hsub : ((intendedEntries cfg inbound handoff).map Prod.fst).Sublist
      ["listen", (certificateEntry cfg inbound).1, "auth", "obfs", "masquerade", "bandwidth",
        "ignoreClientBandwidth", "trafficStats", "outbounds"] := by
    unfold intendedEntries
    simp only [List.map_append]
    have hopt {p : Prop} [Decidable p] (e : String × Node) :
        ((if p then [e] else []).map Prod.fst).Sublist [e.1] := by
      split
      · exact List.Sublist.refl _
      · exact List.nil_sublist _
    have hchain : ((chainEntries handoff).map Prod.fst).Sublist ["outbounds"] := by
      cases handoff with
      | none => exact List.nil_sublist _
      | some ho => exact List.Sublist.refl _
    have hbandwidth : ((bandwidthEntries inbound).map Prod.fst).Sublist
        ["bandwidth", "ignoreClientBandwidth"] := by
      unfold bandwidthEntries
      rw [List.map_append]
      exact (hopt _).append (hopt _)
    exact ((((((List.Sublist.refl ["listen"]).append (List.Sublist.refl _)).append
      (List.Sublist.refl ["auth"])).append (hopt _)).append (hopt _)).append hbandwidth).append
        (hopt _) |>.append hchain
  refine List.Sublist.nodup hsub ?_
  rcases List.mem_pair.mp hcertificate with h | h <;> rw [h] <;> decide

theorem plain_of_intended {text : String} (h : read d text = some (intended cfg inbound handoff)) :
    ∀ s ∈ written cfg inbound handoff, Plain d s :=
  fun s hs => plain_of_read h s (written_subset s hs)

/-- **A config of hysteria reads back as the document that is meant, each string as itself, just
when every string written into it is a plain scalar of its own.** -/
theorem reads_back_iff (h : renderConfig libs cfg inbound handoff = .ok lines) :
    read d (fileText lines) = some (intended cfg inbound handoff) ↔
      ∀ s ∈ written cfg inbound handoff, Plain d s := by
  refine ⟨plain_of_intended, fun hplain => ?_⟩
  unfold renderConfig at h
  obtain ⟨hostname, hhost, h⟩ := bind_eq_ok.mp h
  obtain ⟨certificate, hcertificate, h⟩ := bind_eq_ok.mp h
  obtain ⟨obfs, hobfs, h⟩ := bind_eq_ok.mp h
  obtain ⟨masquerade, hmasquerade, h⟩ := bind_eq_ok.mp h
  obtain ⟨chain, hchain, h⟩ := bind_eq_ok.mp h
  cases pure_eq_ok.mp h
  rw [renderHostname_eq hhost] at hcertificate
  have hlisten : "listen: :" ++ toString (listenPort cfg inbound) =
      "listen: " ++ (":" ++ toString (listenPort cfg inbound)) := by
    rw [← String.append_assoc]
    rfl
  have hwritten := hplain
  unfold written at hwritten
  simp only [List.mem_append] at hwritten
  have hauth : Plain d (authURL cfg) :=
    hwritten _ (.inl (.inl (.inl (.inl (.inr List.mem_cons_self)))))
  have hobfsPlain : inbound.obfsPassword ≠ "" → Plain d inbound.obfsPassword := fun hne =>
    hwritten _ (.inl (.inl (.inl (.inr (by rw [if_pos hne]; exact List.mem_cons_self)))))
  have hurlPlain : inbound.masqueradeURL ≠ "" → Plain d inbound.masqueradeURL := fun hne =>
    hwritten _ (.inl (.inl (.inr (by rw [if_pos hne]; exact List.mem_cons_self))))
  have hstats : cfg.trafficStatsListen ≠ "" ∧ cfg.trafficStatsSecret ≠ "" →
      Plain d cfg.trafficStatsListen ∧ Plain d cfg.trafficStatsSecret := fun hne =>
    ⟨hwritten _ (.inl (.inr (by rw [if_pos hne]; simp))),
      hwritten _ (.inl (.inr (by rw [if_pos hne]; simp)))⟩
  have hchainPlain : ∀ ho ∈ handoff, Plain d ho.username ∧ Plain d ho.password := by
    rintro ho ⟨⟩
    exact ⟨hwritten _ (.inr (by simp)), hwritten _ (.inr (by simp))⟩
  have hfirst : Reads d ["listen: :" ++ toString (listenPort cfg inbound)]
      [("listen", .str (":" ++ toString (listenPort cfg inbound)))] := by
    rw [hlisten]
    exact .line (by decide) (by decide) (oneLine_of_ascii d (by decide)) (plain_listen _)
  have hhead := (((hfirst.append .blank).append (reads_certificate hcertificate hplain)).append
    .blank).append (authLines_eq cfg ▸ reads_auth hauth)
  have hreads := ((((hhead.append (reads_obfsLines hobfs hobfsPlain)).append
    (reads_masqueradeLines hmasquerade hurlPlain)).append (reads_bandwidthLines d inbound)).append
      (reads_trafficStatsLines hstats)).append (reads_chainLines hchain hchainPlain)
  simp only [List.append_nil] at hreads
  exact hreads.read (by simp) (keys_intended cfg inbound handoff)

/-! ### Two passwords -/

def exampleLibs : Libs := ⟨fun _ => none, fun _ _ => false⟩

def exampleConfig : Config where
  authCallbackHost := ""
  authCallbackPort := 0
  authCallbackPath := ""
  configPath := "/etc/hysteria/config.yaml"
  hostname := "node.example"
  acmeEmail := ""
  listenPort := 0
  serviceUnit := "hysteria-server"
  trafficStatsListen := ""
  trafficStatsSecret := ""

def obfuscated (password : String) : InboundConfig := ⟨443, "", password, "", 0, 0, "", ""⟩

theorem reads_back_word : ∃ lines,
    renderConfig exampleLibs exampleConfig (obfuscated "k7 salt") none = .ok lines ∧
      read .yaml12 (fileText lines) =
        some (intended exampleConfig (obfuscated "k7 salt") none) := by
  obtain ⟨lines, hok⟩ : ∃ x,
      renderConfig exampleLibs exampleConfig (obfuscated "k7 salt") none = .ok x :=
    Checked.exists_ok_of_isSome (by decide)
  exact ⟨lines, hok, (reads_back_iff hok).mpr (by decide)⟩

/-- A password of digits is taken and read as a number, one in quotes as what it quotes. -/
theorem digits_read_as_number :
    (∀ password ∈ ["123456", "\"secret\"", "pa ss ", "&a", "~"],
      ∃ lines, renderConfig exampleLibs exampleConfig (obfuscated password) none = .ok lines ∧
        ∀ d : Dialect,
          read d (fileText lines) ≠ some (intended exampleConfig (obfuscated password) none)) ∧
    ¬ ∀ (d : Dialect) (password : String) (lines : List String),
      renderConfig exampleLibs exampleConfig (obfuscated password) none = .ok lines →
        read d (fileText lines) = some (intended exampleConfig (obfuscated password) none) := by
  suffices hall : _ from
    ⟨hall, fun hclaim =>
      have ⟨lines, hok, hno⟩ := hall _ List.mem_cons_self
      hno .yaml12 (hclaim .yaml12 _ lines hok)⟩
  intro password hpassword
  have hno : password ≠ "" ∧ (startsPlain password.toList = false ∨
      isTyped password.toList = true ∨ password.toList.getLast?.any isBlank = true) := by
    revert password
    decide
  obtain ⟨hne, hno⟩ := hno
  obtain ⟨lines, hok⟩ : ∃ x,
      renderConfig exampleLibs exampleConfig (obfuscated password) none = .ok x := by
    refine Checked.exists_ok_of_isSome ?_
    revert password
    decide
  refine ⟨lines, hok, fun d hread => ?_⟩
  have hplain : Plain d password :=
    plain_of_intended hread password (by simp [written, obfuscated, hne])
  rcases hno with hstarts | htyped | hends
  · rw [hplain.starts] at hstarts
    cases hstarts
  · rw [hplain.untyped] at htyped
    cases htyped
  · have hlast := hplain.ends
    cases hend : password.toList.getLast? with
    | none =>
      rw [hend] at hends
      cases hends
    | some c =>
      rw [hend] at hends hlast
      rw [Option.any_some, hlast c rfl] at hends
      cases hends

end Document

end Iceslab.Agent.Hysteria

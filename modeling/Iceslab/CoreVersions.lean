import Iceslab.Lib.Checked
import Iceslab.Lib.JsNumber
import Iceslab.Lib.JsText
import Iceslab.Lib.OrderedMap
import Iceslab.Lib.PaddedOrder

/-!
# The versions of the cores

`core-versions.ts`: the manifest of releases, how two versions are compared, what a reported one is
judged to be, and which release a node is given.

* `compareCoreVersions` — the order of two versions, where it can be said.
* `judgeCoreVersion` — a reported version against the manifest and the node's intent.
* `resolveCoreVersions` — the releases the bootstrap payload carries.
* `installVars` — what the command that installs one by hand is told.
-/

set_option autoImplicit false

namespace Iceslab.CoreVersions

open JsText

/-! ## The manifest -/

inductive CoreArch where
  | amd64
  | arm64
  | armv7
  deriving DecidableEq, Repr

inductive CoreComponent where
  | xray
  | singbox
  | hysteria
  | amneziawgModule
  | amneziawgTools
  | mtg
  | mita
  | caddyNaive
  deriving DecidableEq, Repr

def CORE_COMPONENTS : List CoreComponent :=
  [.xray, .singbox, .hysteria, .amneziawgModule, .amneziawgTools, .mtg, .mita, .caddyNaive]

def CoreComponent.name : CoreComponent → String
  | .xray => "xray"
  | .singbox => "singbox"
  | .hysteria => "hysteria"
  | .amneziawgModule => "amneziawg-module"
  | .amneziawgTools => "amneziawg-tools"
  | .mtg => "mtg"
  | .mita => "mita"
  | .caddyNaive => "caddy-naive"

inductive EngineName where
  | xray
  | hysteria
  | singbox
  | amneziawg
  | naive
  | mieru
  | mtproto
  deriving DecidableEq, Repr

structure CoreAsset where
  file : String
  sha256 : String
  deriving DecidableEq, Repr

/-- Per architecture; one that is missing is one upstream does not ship. -/
structure CoreAssets where
  amd64 : Option CoreAsset := none
  arm64 : Option CoreAsset := none
  armv7 : Option CoreAsset := none
  deriving DecidableEq, Repr

def CoreAssets.get (a : CoreAssets) : CoreArch → Option CoreAsset
  | .amd64 => a.amd64
  | .arm64 => a.arm64
  | .armv7 => a.armv7

/-- A release, as much as decides what is fetched. -/
structure CoreRelease where
  version : String
  tag : String
  /-- the repository it is fetched from, where that is not the component's own upstream -/
  repo : Option String := none
  assets : Option CoreAssets := none
  /-- empty where absent: nothing tells the two apart -/
  commit : String := ""
  deriving DecidableEq, Repr

structure CoreCeiling where
  max : String
  reason : String
  deriving DecidableEq, Repr

/-- `from` inclusive, `before` exclusive, either end open. -/
structure CoreKnownBad where
  since : Option String := none
  before : Option String := none
  reason : String
  deriving DecidableEq, Repr

structure CoreVersionEntry where
  engine : EngineName
  pinned : Option String
  unpinnedReason : String := ""
  releases : List CoreRelease
  ceiling : Option CoreCeiling := none
  knownBad : List CoreKnownBad := []
  deriving DecidableEq, Repr

abbrev CoreManifest := CoreComponent → CoreVersionEntry

/-- A release of files, one for each architecture in the order of `CoreArch`. -/
def releaseOf (version tag : String) (repo : Option String)
    (amd64 arm64 armv7 : Option (String × String)) : CoreRelease :=
  let asset := Option.map fun a : String × String => CoreAsset.mk a.1 a.2
  { version, tag, repo, assets := some ⟨asset amd64, asset arm64, asset armv7⟩ }

def XRAY_MLKEM : String :=
  "XTLS/REALITY 8cdf7bf (xray 26.9.8) makes the server refuse a ClientHello that does not offer " ++
    "X25519MLKEM768 ahead of X25519. Our inter-hop legs dial from sing-box, whose uTLS (metacubex " ++
    "v1.8.7) offers neither in its Firefox nor its Chrome fingerprint, so a node on such an xray " ++
    "refuses every leg a sing-box chain dials into it while every config loads cleanly. Read from " ++
    "source on 2026-09-23, no fix upstream (SagerNet/sing-box #4520)."

def AWG_GENERATION : String :=
  "The AmneziaWG 2.x line: neither the 1.x generation the fleet's clients speak nor the 3.1 module " ++
    "that carries both (Ф7.0 on se-02, 26.09). Never measured here, so never installed."

def CORE_VERSIONS : CoreManifest
  | .xray => {
      engine := .xray
      pinned := some "26.3.27"
      releases := [releaseOf "26.3.27" "v26.3.27" none
        (some ("Xray-linux-64.zip",
          "23cd9af937744d97776ee35ecad4972cf4b2109d1e0fe6be9930467608f7c8ae"))
        (some ("Xray-linux-arm64-v8a.zip",
          "4d30283ae614e3057f730f67cd088a42be6fdf91f8639d82cb69e48cde80413c"))
        (some ("Xray-linux-arm32-v7a.zip",
          "c7265ae13c63ca0241a037df4ef960ad37938c8a67d984cc08834b2cfdf5654b"))]
      ceiling := some ⟨"26.7.28", XRAY_MLKEM⟩
      knownBad := [{ since := some "26.9.8", reason := XRAY_MLKEM }] }
  | .singbox => {
      engine := .singbox
      pinned := some "1.13.14"
      releases := [releaseOf "1.13.14" "core-singbox-v1.13.14" (some "icecompany-tech/core-builds")
        (some ("sing-box-1.13.14-iceslab-linux-amd64.tar.gz",
          "8c982dfa05d5d2bf508a3e282fa3cceb22b0d6e7993b845f4e82df32660ae19e"))
        (some ("sing-box-1.13.14-iceslab-linux-arm64.tar.gz",
          "fe2d649ed6e8f6caad76fbfb88dad6c776a4ada0a50f24d72fc2c849dd56585d"))
        (some ("sing-box-1.13.14-iceslab-linux-armv7.tar.gz",
          "8df14db0c67735b76e49da9e614d4973e9ea9a4eeb3610de38e05ab8e01c3d11"))] }
  | .hysteria => {
      engine := .hysteria
      pinned := some "2.12.3"
      releases := [releaseOf "2.12.3" "app/v2.12.3" none
        (some ("hysteria-linux-amd64",
          "8c7a68a906998b747a0db87586e364f995fbfddb95693ae6e2fdb68a6e920d3e"))
        (some ("hysteria-linux-arm64",
          "c8dc653c3ba0a28d29a26b8fa52d2086f27c0927afddce95c09965e7174e78b0"))
        (some ("hysteria-linux-arm",
          "cc4bc596c2db473dd7ec1bbcc3cd10e0cb60302759facd95e0be73bc8751e110"))] }
  | .amneziawgModule => {
      engine := .amneziawg
      pinned := some "3.1.20260906"
      releases := [
        { version := "3.1.20260906", tag := "v3.1.20260906",
          commit := "4569c4c67f3a57414969260cafbbd04694fbaae0" },
        { version := "1.0.20260611", tag := "v1.0.20260611",
          commit := "2a6e1a02ac024f54a23e18f894a279b7f870b8fb" }]
      knownBad := [{ since := some "2", before := some "3", reason := AWG_GENERATION }] }
  | .amneziawgTools => {
      engine := .amneziawg
      pinned := some "3.1.20260812"
      releases := [
        { version := "3.1.20260812", tag := "v3.1.20260812",
          commit := "ee0f0a9aa34ff0a0da4b3433b9512781cfe02843" },
        { version := "1.0.20260618-2", tag := "v1.0.20260618-2",
          commit := "61e741780e8465a67a7d7fb6cffe14a8a15d624a" }]
      knownBad := [{ since := some "2", before := some "3", reason := AWG_GENERATION }] }
  | .mtg => {
      engine := .mtproto
      pinned := some "2.2.8"
      releases := [releaseOf "2.2.8" "v2.2.8" none
        (some ("mtg-2.2.8-linux-amd64.tar.gz",
          "7ef19d079d85f4e00d4f8334ec1f3f3c8718e3d0ed1f3109ea9a8673138a2102"))
        (some ("mtg-2.2.8-linux-arm64.tar.gz",
          "562a94dd4cafcb8f179b76cfeafb76da12747c8e230bc76235bf8746cc189644"))
        (some ("mtg-2.2.8-linux-armv7.tar.gz",
          "494ee3794ed00201e5333b478236ce2f434b33f2d3445f227debe9fc386bbef0"))] }
  | .mita => {
      engine := .mieru
      pinned := some "3.37.0"
      releases := [releaseOf "3.37.0" "v3.37.0" none
        (some ("mita_3.37.0_amd64.deb",
          "22248dc1568280a8b1bdaf55051a59b3d64ac1edb4ec4918e3925088f78a35de"))
        (some ("mita_3.37.0_arm64.deb",
          "d82a7d3c76e8dad42c2736955c5c08ad7ad8f99cafefe2ef4cd1f497ec8d3caa"))
        none] }
  | .caddyNaive => {
      engine := .naive
      pinned := none
      unpinnedReason := "Built on the node by xcaddy from the @naive branch of " ++
        "klzgrad/forwardproxy, which publishes no release to pin: the version is whatever Caddy and " ++
        "the branch were on the day of the build."
      releases := [] }

/-! ## Versions -/

structure CoreVersion where
  /-- the digits between the dots -/
  segments : List String
  suffix : Option String
  deriving DecidableEq, Repr

def isSuffixChar (c : Char) : Bool := c.isAlphanum || c = '.'

/-- `/^v?(\d+(?:\.\d+)*)(?:-([0-9A-Za-z.]+))?$/` -/
def versionShape (v : String) : Option CoreVersion :=
  let cs := ((afterPrefix "v" v).getD v).toList
  let segments := split '.' (String.ofList (cs.takeWhile (· ≠ '-')))
  if segments.all isDigits then
    match cs.dropWhile (· ≠ '-') with
    | [] => some ⟨segments, none⟩
    | _ :: suffix =>
      if suffix ≠ [] ∧ suffix.all isSuffixChar then some ⟨segments, some (String.ofList suffix)⟩
      else none
  else none

/-- The text of a version, without a `v` before it. -/
def CoreVersion.text (v : CoreVersion) : String :=
  String.intercalate "." v.segments ++ (v.suffix.map ("-" ++ ·)).getD ""

def normalizeCoreVersion (raw : Option String) : Option String :=
  match raw.map trim with
  | none => none
  | some v => if v = "" then none else (versionShape v).map (·.text)

/-- `map(Number)`: a segment past `2 ^ 53` becomes the nearest double. -/
def CoreVersion.doubles (v : CoreVersion) : List Nat :=
  v.segments.map fun s => JsNumber.roundNat (numberOf s)

/-- The first segment that differs decides; where only the suffixes differ nothing is said. -/
def orderOf (ma mb : CoreVersion) : Option Ordering :=
  let order := PaddedOrder.cmp 0 ma.doubles mb.doubles
  if order ≠ .eq then some order
  else if ma.suffix.getD "" = mb.suffix.getD "" then some .eq
  else none

/-- `-1`, `0`, `1`, or `undefined` where the order cannot be said. -/
def compareCoreVersions (a b : String) : Option Ordering :=
  (versionShape (trim a)).bind fun ma => (versionShape (trim b)).bind fun mb => orderOf ma mb

def isAtLeast (v bound : String) : Bool :=
  decide (compareCoreVersions v bound = some .eq ∨ compareCoreVersions v bound = some .gt)

/-! ## The release of a node -/

/-- What an operator chose, by the component's name. -/
abbrev NodeCoreVersions := OrderedMap String String

section Resolve

variable (M : CoreManifest)

def coreReleaseOf (component : CoreComponent) (version : String) : Option CoreRelease :=
  match normalizeCoreVersion (some version) with
  | none => none
  | some v => (M component).releases.find? fun r => decide (r.version = v)

def componentOf (key : String) : Option CoreComponent :=
  CORE_COMPONENTS.find? fun c => decide (c.name = key)

/-- What is wrong with one choice. -/
def intentProblem (e : String × String) : Option String :=
  match componentOf e.1 with
  | none => some (e.1 ++ ": not a core component")
  | some component =>
    if (coreReleaseOf M component e.2).isSome then none
    else
      let listed := (M component).releases.map (·.version)
      some (if listed ≠ [] then
          component.name ++ ": " ++ e.2 ++ " is not a listed release ("
            ++ String.intercalate ", " listed ++ ")"
        else component.name ++ ": nothing is listed to choose from")

def checkCoreVersionIntent (intent : NodeCoreVersions) : List String :=
  intent.entries.filterMap (intentProblem M)

/-- The node's choice where it made one, the pin elsewhere. -/
def intendedVersion (intent : NodeCoreVersions) (component : CoreComponent) : Option String :=
  (intent.get? component.name).or (M component).pinned

/-- The fields of a release that go into the payload. -/
def payloadRelease (r : CoreRelease) : CoreRelease :=
  { version := r.version, tag := r.tag, assets := r.assets, commit := r.commit }

/-- A component of the payload; a version that is not listed throws. -/
def resolveOne (intent : NodeCoreVersions) (component : CoreComponent) :
    Except String (List (CoreComponent × CoreRelease)) :=
  match intendedVersion M intent component with
  | none => .ok []
  | some version =>
    match coreReleaseOf M component version with
    | none => .error "Cannot read properties of undefined (reading 'version')"
    | some r => .ok [(component, payloadRelease r)]

def resolveCoreVersions (intent : NodeCoreVersions) :
    Except String (List (CoreComponent × CoreRelease)) :=
  let problems := checkCoreVersionIntent M intent
  if problems ≠ [] then .error ("core version intent: " ++ String.intercalate "; " problems)
  else Checked.gather (resolveOne M intent) CORE_COMPONENTS

/-! ## The verdict -/

inductive CoreVersionVerdict where
  | unknown
  | knownBad (reason : String)
  | aboveCeiling (ceiling reason : String)
  | unpinned (reason : String)
  | intended (isPin : Bool)
  | drift (intended : String)
  deriving DecidableEq, Repr

/-- The order says that the version lies in the range. -/
def CoreKnownBad.takes (bad : CoreKnownBad) (v : String) : Bool :=
  bad.since.all (fun since => isAtLeast v since)
    && bad.before.all fun before => decide (compareCoreVersions v before = some .lt)

def judgeCoreVersion (component : CoreComponent) (reported : Option String)
    (intent : NodeCoreVersions) : CoreVersionVerdict :=
  match normalizeCoreVersion reported with
  | none => .unknown
  | some v =>
    let entry := M component
    match entry.knownBad.find? (·.takes v) with
    | some bad => .knownBad bad.reason
    | none =>
      match entry.ceiling.filter fun c => decide (compareCoreVersions v c.max = some .gt) with
      | some ceiling => .aboveCeiling ceiling.max ceiling.reason
      | none =>
        match intendedVersion M intent component with
        | none => .unpinned entry.unpinnedReason
        | some intended =>
          if compareCoreVersions v intended = some .eq then
            .intended (decide (some intended = entry.pinned))
          else .drift intended

/-! ## The command -/

def CORE_ENV_PREFIX : CoreComponent → String
  | .xray => "XRAY"
  | .singbox => "SINGBOX"
  | .hysteria => "HYSTERIA"
  | .amneziawgModule => "AWG_MODULE"
  | .amneziawgTools => "AWG_TOOLS"
  | .mtg => "MTG"
  | .mita => "MIERU"
  | .caddyNaive => "CADDY_NAIVE"

def coreEnvPair (component : CoreComponent) : Option (String × String) :=
  match (M component).releases with
  | [] => none
  | release :: _ =>
    let p := CORE_ENV_PREFIX component
    if release.commit ≠ "" then some (p ++ "_TAG", p ++ "_SHA")
    else some (p ++ "_VERSION", p ++ "_SHA256")

inductive NotPinned where
  | noArch
  | noAsset
  | unpinned
  deriving DecidableEq, Repr

/-- The pair of variables a release is pinned by. -/
def pinVars (pair : String × String) (release : CoreRelease) (arch : Option CoreArch) :
    Except NotPinned (List String) :=
  if release.commit ≠ "" then
    .ok [pair.1 ++ "=" ++ release.tag, pair.2 ++ "=" ++ release.commit]
  else
    match arch with
    | none => .error .noArch
    | some arch =>
      match release.assets.bind (·.get arch) with
      | none => .error .noAsset
      | some asset => .ok [pair.1 ++ "=" ++ release.version, pair.2 ++ "=" ++ asset.sha256]

/-- What the command sets for one component. -/
def installVars (intent : NodeCoreVersions) (arch : Option CoreArch)
    (component : CoreComponent) : Except NotPinned (List String) :=
  match (intendedVersion M intent component).bind (coreReleaseOf M component),
      coreEnvPair M component with
  | some release, some pair => pinVars pair release arch
  | _, _ => .error .unpinned

end Resolve

end Iceslab.CoreVersions

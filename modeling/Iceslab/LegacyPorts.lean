import Iceslab.LinkIngress

/-!
# The ports of the hop storage

`legacyHopLinkPorts` of `node-ports.ts`: which link ports a node holds, read out of the hops a
cascade was stored as before it had positions.  A chain stores a leg's credential on the hop that
dials it, a balancer on the exit that listens on it.

* `validateCascadeHops`, `storedHops` — the save of either mode, and where it puts the credentials.
* `cascadeConfigs` — who listens, read back from the storage by the renderer of the mode.
* `legacyHopLinkPorts` — the answer: both pairings over every cascade, whatever its mode.
* `legacy_ports_iff` — when the answer is the node's own leg and no other.
-/

set_option autoImplicit false

namespace Iceslab

open Checked

def MAX_CASCADE_HOPS : Nat := 5

inductive CascadeMode where
  | chain
  | balancer
  deriving DecidableEq, Repr

/-- A hop as it is sent. -/
structure CascadeHopInput where
  nodeId : String
  position : Nat
  entryProtocol : Option String := none
  linkProtocol : Option String := none
  deriving DecidableEq, Repr

/-- A hop as it is stored: the columns its readers take. -/
structure CascadeHop where
  nodeId : String
  position : Nat
  linkConfig : Option Json := none

/-! ## The save -/

/-- Whether the hop at this place of `n` carries a link to a node below it. -/
def carriesLink (mode : CascadeMode) (n i : Nat) : Bool :=
  match mode with
  | .balancer => decide (i = 0)
  | .chain => !decide (i = n - 1)

def checkHopEntry (isEntry : Bool) (h : CascadeHopInput) : Except CascadeRefusal Unit :=
  match isEntry, truthy h.entryProtocol with
  | true, some protocol => assertEntryIsChainable protocol
  | false, some _ => .error (.validation
      ("entryProtocol is only valid on the entry hop, not position " ++ toString h.position))
  | _, none => .ok ()

/-- A hop that carries a link names its cell, any other names none. -/
def checkHopLink (mode : CascadeMode) (carries : Bool) (h : CascadeHopInput) :
    Except CascadeRefusal Unit :=
  match carries with
  | true => do
    require (truthy h.linkProtocol).isSome (.validation
      (match mode with
        | .balancer =>
          "the entry hop needs a linkProtocol (the uniform protocol for every exit link)"
        | .chain => "hop at position " ++ toString h.position
            ++ " needs a linkProtocol (only the exit hop omits it)"))
    assertLinkCellExists h.linkProtocol ("hop at position " ++ toString h.position)
  | false =>
    require (truthy h.linkProtocol).isNone (.validation
      (match mode with
        | .balancer => "balancer exits egress direct and must not have a linkProtocol (position "
            ++ toString h.position ++ ")"
        | .chain => "the exit hop egresses direct and must not have a linkProtocol"))

/-- The rules of one hop; `i` is its place in the sorted list of `n`. -/
def checkHop (mode : CascadeMode) (n : Nat) (e : CascadeHopInput × Nat) :
    Except CascadeRefusal Unit := do
  let (h, i) := e
  let isEntry := decide (i = 0)
  require (!isEntry || (truthy h.entryProtocol).isSome)
    (.validation "the entry hop (position 0) needs an entryProtocol")
  checkHopEntry isEntry h
  checkHopLink mode (carriesLink mode n i) h

def validateCascadeHops (hops : List CascadeHopInput) (mode : CascadeMode) :
    Except CascadeRefusal (List CascadeHopInput) := do
  require (decide (¬ hops.length < 2))
    (.validation "a cascade needs at least 2 hops (entry + exit)")
  require (decide (¬ hops.length > MAX_CASCADE_HOPS)) (.validation
    ("a cascade can have at most " ++ toString MAX_CASCADE_HOPS ++ " hops (got "
      ++ toString hops.length ++ ")"))
  let sorted := hops.insertionSort fun a b => a.position ≤ b.position
  forEach (fun e : CascadeHopInput × Nat => require (decide (e.1.position = e.2)) (.validation
    ("hop positions must be contiguous 0.." ++ toString (sorted.length - 1) ++ " (got "
      ++ String.intercalate "," (sorted.map fun h => toString h.position) ++ ")"))) sorted.zipIdx
  forEach (checkHop mode sorted.length) sorted.zipIdx
  require (decide (sorted.map (·.nodeId)).Nodup)
    (.validation "a node cannot appear more than once in a cascade")
  .ok sorted

/-- One credential a link, in order; the draws are by the link's number. -/
def generateLinkCreds (draw : Nat → CredDraw) (linkProtocols : List LinkCell) : List LinkCred :=
  linkProtocols.zipIdx.map fun e => newLinkCred (draw e.2) e.1 (LINK_PORT_BASE + e.2) none

/-- The cells of the links: a chain's each by its own hop, a balancer's all by the entry. -/
def linkProtocols (mode : CascadeMode) (hops : List CascadeHopInput) :
    Except String (List LinkCell) :=
  match mode with
  | .chain => hops.dropLast.mapM fun h => normalizeLinkProtocol h.linkProtocol
  | .balancer => hops.tail.mapM fun _ => normalizeLinkProtocol (hops.head?.bind (·.linkProtocol))

/-- The credential of the hop at `idx` of `n`, if it carries one. -/
def credIdx (mode : CascadeMode) (n idx : Nat) : Option Nat :=
  match mode with
  | .balancer => if 1 ≤ idx then some (idx - 1) else none
  | .chain => if idx < n - 1 then some idx else none

/-- The rows a save creates. -/
def storedHops (mode : CascadeMode) (hops : List CascadeHopInput) (creds : List LinkCred) :
    List CascadeHop :=
  hops.zipIdx.map fun e =>
    { nodeId := e.1.nodeId, position := e.1.position,
      linkConfig := ((credIdx mode hops.length e.2).bind (creds[·]?)).map serializeLinkCred }

/-! ## Who listens -/

inductive HopRole where
  | entry
  | transit
  | exit
  deriving DecidableEq, Repr

/-- The legs of one hop's fragments: the credential its link-in is drawn from and the ones its
link-outs dial. -/
structure HopConfig where
  nodeId : String
  position : Nat
  role : HopRole
  linkIn : Option LinkCred
  linkOuts : List LinkCred
  deriving DecidableEq

def sortHops (hops : List CascadeHop) : List CascadeHop :=
  hops.insertionSort fun a b => a.position ≤ b.position

def buildCascadeConfigs (hops : List CascadeHop) (linkCreds : List LinkCred) : List HopConfig :=
  let sorted := sortHops hops
  let n := sorted.length
  sorted.zipIdx.map fun e =>
    { nodeId := e.1.nodeId, position := e.1.position,
      role := if e.2 = 0 then .entry else if e.2 = n - 1 then .exit else .transit,
      linkIn := if e.2 > 0 then linkCreds[e.2 - 1]? else none,
      linkOuts := if e.2 < n - 1 then (linkCreds[e.2]?).toList else [] }

def buildBalancerCascadeConfigs (entry : CascadeHop) (exits : List CascadeHop)
    (linkCreds : List LinkCred) : List HopConfig :=
  { nodeId := entry.nodeId, position := entry.position, role := .entry, linkIn := none,
    linkOuts := exits.zipIdx.filterMap fun e => linkCreds[e.2]? }
    :: exits.zipIdx.map fun e =>
      { nodeId := e.1.nodeId, position := e.1.position, role := .exit,
        linkIn := linkCreds[e.2]?, linkOuts := [] }

/-- The stored credential of a hop. -/
def CascadeHop.cred (h : CascadeHop) : Option LinkCred := h.linkConfig.bind parseLinkCred

/-- The configurations of a stored cascade; none for a single hop or where a credential is
missing. -/
def cascadeConfigs (mode : CascadeMode) (hops : List CascadeHop) : Option (List HopConfig) :=
  let hops := sortHops hops
  if hops.length < 2 then none
  else
    match mode with
    | .balancer => do
      let entry ← hops.head?
      let exitCreds ← hops.tail.mapM CascadeHop.cred
      some (buildBalancerCascadeConfigs entry hops.tail exitCreds)
    | .chain => do
      let linkCreds ← hops.dropLast.mapM CascadeHop.cred
      some (buildCascadeConfigs hops linkCreds)

/-- The node listens on this port over this transport. -/
def Listens (configs : List HopConfig) (nodeId : String) (port : Nat) (transport : Transport) :
    Prop :=
  ∃ c ∈ configs, c.nodeId = nodeId ∧ ∃ cred, c.linkIn = some cred ∧ port = cred.port
    ∧ transport ∈ LINK_CELL_TRANSPORTS cred.protocol

/-! ## The answer -/

/-- The sockets a stored leg holds; TCP for anything unreadable. -/
def legTransports (config : Option Json) : List Transport :=
  match config.bind (·.str? "protocol") with
  | none => [.tcp]
  | some cell =>
    match LINK_CELLS.find? fun c => decide (c.name = cell) with
    | some c => LINK_CELL_TRANSPORTS c
    | none => [.tcp]

/-- A cascade of the hop storage. -/
structure LegacyCascade where
  name : String
  hops : List CascadeHop

structure PortClaim where
  port : Nat
  name : String
  transport : Transport
  deriving DecidableEq, Repr

/-- The claims a stored credential makes on the asked ports. -/
def claimsOf (ports : List Nat) (name : String) (cred : Option Json) : List PortClaim :=
  match cred.bind (·.num? "port") with
  | none => []
  | some port =>
    if port ∈ ports then (legTransports cred).map fun transport => { port, name, transport } else []

/-- The claims of one cascade on a node, its hops in order: of the credential on the hop before
the one that receives, then of the credential on the hop itself. -/
def hopClaims (nodeId : String) (ports : List Nat) (name : String) (hops : List CascadeHop) :
    List PortClaim :=
  ((hops.zip hops.tail).flatMap fun e =>
      if e.2.nodeId = nodeId then claimsOf ports name e.1.linkConfig else [])
    ++ hops.tail.flatMap fun h =>
      if h.nodeId = nodeId then claimsOf ports name h.linkConfig else []

def legacyHopLinkPorts (nodeId : String) (ports : List Nat) (cascades : List LegacyCascade) :
    List PortClaim :=
  if ports.any fun p => decide (LINK_PORT_BASE ≤ p) then
    (cascades.filter fun c => c.hops.any fun h => decide (h.nodeId = nodeId)).flatMap fun c =>
      hopClaims nodeId ports c.name (sortHops c.hops)
  else []

/-! ## The two pairings -/

section Pairings

variable {nodeId name : String} {ports : List Nat} {hops : List CascadeHop} {x : PortClaim}

theorem mem_zip_tail {α : Type} {l : List α} {a b : α} :
    (a, b) ∈ l.zip l.tail ↔ ∃ i, l[i]? = some a ∧ l[i + 1]? = some b := by
  rw [List.mem_iff_getElem?]
  simp only [List.getElem?_zip_eq_some, List.getElem?_tail]

theorem mem_claimsOf {cred : LinkCred} :
    x ∈ claimsOf ports name (some (serializeLinkCred cred)) ↔ cred.port ∈ ports
      ∧ x.port = cred.port ∧ x.name = name ∧ x.transport ∈ LINK_CELL_TRANSPORTS cred.protocol := by
  have hport : (some (serializeLinkCred cred)).bind (·.num? "port") = some cred.port := by
    cases cred <;> simp [serializeLinkCred, Json.num?, Json.field_cons, LinkCred.port]
  have htransports : legTransports (some (serializeLinkCred cred))
      = LINK_CELL_TRANSPORTS cred.protocol := by
    cases cred <;>
      simp [legTransports, serializeLinkCred, Json.str?, Json.field_cons, LinkCred.protocol,
        LINK_CELLS, LinkCell.name]
  rw [claimsOf, hport, htransports]
  by_cases hasked : cred.port ∈ ports
  · simp only [hasked, if_true, List.mem_map, true_and]
    constructor
    · rintro ⟨t, ht, rfl⟩
      exact ⟨rfl, rfl, ht⟩
    · rintro ⟨hp, hn, ht⟩
      exact ⟨x.transport, ht, by rw [← hp, ← hn]⟩
  · simp [hasked]

end Pairings

/-! ## What a save leaves -/

/-- The hops of an accepted save, and a credential for each of its links. -/
structure Placed (hops : List CascadeHopInput) (creds : List LinkCred) : Prop where
  positions : ∀ (k : Nat) (h : CascadeHopInput), hops[k]? = some h → h.position = k
  nodes : (hops.map (·.nodeId)).Nodup
  length : creds.length + 1 = hops.length
  ports : ∀ (i : Nat) (c : LinkCred), creds[i]? = some c → c.port = LINK_PORT_BASE + i

section Saved

variable {mode : CascadeMode} {sent hops : List CascadeHopInput} {creds : List LinkCred}
  {draw : Nat → CredDraw} {i k n : Nat} {r : CascadeHop}

theorem mapM_isOk {α β ε : Type} {f : α → Except ε β} {l : List α}
    (h : ∀ a ∈ l, ∃ b, f a = .ok b) : ∃ r, l.mapM f = .ok r ∧ r.length = l.length := by
  induction l with
  | nil => exact ⟨[], rfl, rfl⟩
  | cons a l ih =>
    obtain ⟨b, hb⟩ := h a List.mem_cons_self
    obtain ⟨r, hr, hlen⟩ := ih fun x hx => h x (List.mem_cons_of_mem a hx)
    refine ⟨b :: r, ?_, by rw [List.length_cons, List.length_cons, hlen]⟩
    rw [List.mapM_cons, hb, hr]
    rfl

theorem cell_of_checkHop {h : CascadeHopInput} (hok : checkHop mode n (h, i) = .ok ())
    (hcarries : carriesLink mode n i = true) : (linkCellFor h.linkProtocol).isSome = true := by
  simp only [checkHop, hcarries, bind_eq_ok, require_eq_ok, checkHopLink] at hok
  obtain ⟨_, -, _, -, _, -, hcell⟩ := hok
  exact require_eq_ok.mp hcell

/-- What the checks say of the hops, in order. -/
theorem validateCascadeHops_placed (h : validateCascadeHops sent mode = .ok hops) :
    2 ≤ hops.length ∧ (hops.map (·.nodeId)).Nodup
      ∧ (∀ (k : Nat) (e : CascadeHopInput), hops[k]? = some e → e.position = k)
      ∧ ∀ (k : Nat) (e : CascadeHopInput), hops[k]? = some e →
          carriesLink mode hops.length k = true → (linkCellFor e.linkProtocol).isSome = true := by
  simp only [validateCascadeHops, bind_eq_ok, require_eq_ok, forEach_eq_ok, Except.ok.injEq,
    decide_eq_true_eq] at h
  obtain ⟨_, htwo, _, -, _, hpositions, _, hchecks, _, hnodes, rfl⟩ := h
  refine ⟨?_, hnodes, ?_, ?_⟩
  · rw [List.length_insertionSort]
    omega
  · intro k e he
    exact hpositions _ (List.mk_mem_zipIdx_iff_getElem?.mpr he)
  · intro k e he hcarries
    exact cell_of_checkHop (hchecks _ (List.mk_mem_zipIdx_iff_getElem?.mpr he)) hcarries

/-- The credentials of an accepted save: one a link, on the port of its number. -/
theorem exists_creds (h : validateCascadeHops sent mode = .ok hops) (draw : Nat → CredDraw) :
    ∃ cells, linkProtocols mode hops = .ok cells
      ∧ Placed hops (generateLinkCreds draw cells) := by
  obtain ⟨htwo, hnodes, hpositions, hcells⟩ := validateCascadeHops_placed h
  have hports : ∀ (cells : List LinkCell) (i : Nat) (c : LinkCred),
      (generateLinkCreds draw cells)[i]? = some c → c.port = LINK_PORT_BASE + i := by
    intro cells i c hc
    simp only [generateLinkCreds, List.getElem?_map, List.getElem?_zipIdx, Option.map_map,
      Option.map_eq_some_iff] at hc
    obtain ⟨cell, -, rfl⟩ := hc
    simp
  obtain ⟨cells, hok, hlen⟩ : ∃ cells, linkProtocols mode hops = .ok cells
      ∧ cells.length + 1 = hops.length := by
    cases mode with
    | chain =>
      obtain ⟨cells, hok, hlen⟩ : ∃ r, hops.dropLast.mapM
          (fun h => normalizeLinkProtocol h.linkProtocol) = .ok r ∧ r.length = hops.dropLast.length := by
        apply mapM_isOk
        intro e he
        obtain ⟨k, hk⟩ := List.mem_iff_getElem?.mp he
        rw [List.getElem?_dropLast] at hk
        split at hk
        · rename_i hlt
          have hcarries : carriesLink .chain hops.length k = true := by
            simp only [carriesLink, Bool.not_eq_true', decide_eq_false_iff_not]
            omega
          obtain ⟨cell, hcell⟩ := Option.isSome_iff_exists.mp (hcells k e hk hcarries)
          exact ⟨cell, normalizeLinkProtocol_eq_ok.mpr hcell⟩
        · cases hk
      refine ⟨cells, hok, ?_⟩
      rw [hlen, List.length_dropLast]
      omega
    | balancer =>
      obtain ⟨entry, exits, rfl⟩ : ∃ entry exits, hops = entry :: exits := by
        apply List.exists_cons_of_length_pos
        omega
      obtain ⟨cell, hcell⟩ := Option.isSome_iff_exists.mp (hcells 0 entry rfl rfl)
      obtain ⟨cells, hok, hlen⟩ := mapM_isOk (l := exits)
        (f := fun _ => normalizeLinkProtocol entry.linkProtocol)
        fun _ _ => ⟨cell, normalizeLinkProtocol_eq_ok.mpr hcell⟩
      exact ⟨cells, hok, by rw [hlen, List.length_cons]⟩
  refine ⟨cells, hok, hpositions, hnodes, ?_, hports cells⟩
  rw [generateLinkCreds, List.length_map, List.length_zipIdx, hlen]

/-- The stored row of a hop: its credential is the one `credIdx` gives it. -/
theorem getElem?_storedHops :
    (storedHops mode hops creds)[k]? = some r ↔ ∃ h, hops[k]? = some h
      ∧ r = { nodeId := h.nodeId, position := h.position,
              linkConfig := ((credIdx mode hops.length k).bind (creds[·]?)).map serializeLinkCred } := by
  rw [storedHops, List.getElem?_map, List.getElem?_zipIdx, Option.map_map, Option.map_eq_some_iff]
  simp only [Function.comp_apply, Nat.zero_add]
  constructor
  · rintro ⟨h, hh, rfl⟩
    exact ⟨h, hh, rfl⟩
  · rintro ⟨h, hh, rfl⟩
    exact ⟨h, hh, rfl⟩

/-- The rows are read in the order they were saved in. -/
theorem sortHops_storedHops (hp : Placed hops creds) :
    sortHops (storedHops mode hops creds) = storedHops mode hops creds := by
  apply List.Pairwise.insertionSort_eq
  rw [List.pairwise_iff_getElem]
  intro i j hi hj hij
  obtain ⟨a, ha, hra⟩ := getElem?_storedHops.mp (List.getElem?_eq_getElem hi)
  obtain ⟨b, hb, hrb⟩ := getElem?_storedHops.mp (List.getElem?_eq_getElem hj)
  rw [hra, hrb]
  show a.position ≤ b.position
  rw [hp.positions i a ha, hp.positions j b hb]
  omega

/-! ## Who listens -/

variable (mode hops creds) in
theorem length_storedHops : (storedHops mode hops creds).length = hops.length := by
  rw [storedHops, List.length_map, List.length_zipIdx]

theorem mapM_eq_some_of {α β : Type} {f : α → Option β} {l : List α} {r : List β}
    (hlen : l.length = r.length)
    (h : ∀ (i : Nat) (a : α), l[i]? = some a → f a = r[i]?) : l.mapM f = some r := by
  induction l generalizing r with
  | nil =>
    obtain rfl : r = [] := List.length_eq_zero_iff.mp hlen.symm
    rfl
  | cons a l ih =>
    cases r with
    | nil => cases hlen
    | cons b r =>
      have hb : f a = some b := h 0 a rfl
      have hr : l.mapM f = some r := by
        apply ih (by simpa using hlen)
        intro i x hx
        exact h (i + 1) x (by simpa using hx)
      rw [List.mapM_cons, hb, hr]
      rfl

/-- The credential a hop's row is read back with. -/
theorem cred_storedHops (hr : (storedHops mode hops creds)[k]? = some r)
    (hidx : credIdx mode hops.length k = some i) : r.cred = creds[i]? := by
  obtain ⟨h, -, rfl⟩ := getElem?_storedHops.mp hr
  rw [CascadeHop.cred, hidx, Option.bind_some]
  cases creds[i]? with
  | none => rfl
  | some c => exact parseLinkCred_serializeLinkCred c

/-- The link-in of the hop at place `k` is drawn from the credential before it. -/
structure DrawnFrom (hops : List CascadeHopInput) (creds : List LinkCred)
    (configs : List HopConfig) : Prop where
  length : configs.length = hops.length
  node : ∀ (k : Nat) (c : HopConfig) (h : CascadeHopInput), configs[k]? = some c →
    hops[k]? = some h → c.nodeId = h.nodeId
  linkIn : ∀ (k : Nat) (c : HopConfig), configs[k]? = some c →
    c.linkIn = if 0 < k then creds[k - 1]? else none

theorem drawnFrom_chain (hp : Placed hops creds) :
    DrawnFrom hops creds (buildCascadeConfigs (storedHops .chain hops creds) creds) := by
  have hget : ∀ (k : Nat) (c : HopConfig),
      (buildCascadeConfigs (storedHops .chain hops creds) creds)[k]? = some c →
      ∃ r, (storedHops .chain hops creds)[k]? = some r ∧ c.nodeId = r.nodeId
        ∧ c.linkIn = if 0 < k then creds[k - 1]? else none := by
    intro k c hc
    simp only [buildCascadeConfigs, sortHops_storedHops hp, List.getElem?_map,
      List.getElem?_zipIdx, Option.map_map, Option.map_eq_some_iff] at hc
    obtain ⟨r, hr, rfl⟩ := hc
    refine ⟨r, hr, rfl, ?_⟩
    simp
  constructor
  · simp only [buildCascadeConfigs, sortHops_storedHops hp, List.length_map, List.length_zipIdx,
      length_storedHops]
  · intro k c h hc hh
    obtain ⟨r, hr, hnode, -⟩ := hget k c hc
    obtain ⟨h', hh', rfl⟩ := getElem?_storedHops.mp hr
    obtain rfl := Option.some.inj (hh.symm.trans hh')
    exact hnode
  · intro k c hc
    obtain ⟨r, -, -, hlink⟩ := hget k c hc
    exact hlink

theorem drawnFrom_balancer {entry : CascadeHop} {exits : List CascadeHop}
    (hrows : storedHops .balancer hops creds = entry :: exits) :
    DrawnFrom hops creds (buildBalancerCascadeConfigs entry exits creds) := by
  have hlen := length_storedHops .balancer hops creds
  rw [hrows, List.length_cons] at hlen
  have hrow : ∀ (k : Nat) (r : CascadeHop) (h : CascadeHopInput), (entry :: exits)[k]? = some r →
      hops[k]? = some h → r.nodeId = h.nodeId := by
    intro k r h hr hh
    rw [← hrows] at hr
    obtain ⟨h', hh', rfl⟩ := getElem?_storedHops.mp hr
    obtain rfl := Option.some.inj (hh.symm.trans hh')
    rfl
  constructor
  · simpa [buildBalancerCascadeConfigs] using hlen
  · intro k c h hc hh
    cases k with
    | zero =>
      obtain rfl : _ = c := Option.some.inj hc
      exact hrow 0 entry h rfl hh
    | succ k =>
      simp only [buildBalancerCascadeConfigs, List.getElem?_cons_succ, List.getElem?_map,
        List.getElem?_zipIdx, Option.map_map, Option.map_eq_some_iff] at hc
      obtain ⟨r, hr, rfl⟩ := hc
      exact hrow (k + 1) r h (by simpa using hr) hh
  · intro k c hc
    cases k with
    | zero =>
      obtain rfl : _ = c := Option.some.inj hc
      rfl
    | succ k =>
      simp only [buildBalancerCascadeConfigs, List.getElem?_cons_succ, List.getElem?_map,
        List.getElem?_zipIdx, Option.map_map, Option.map_eq_some_iff] at hc
      obtain ⟨r, -, rfl⟩ := hc
      simp

theorem listens_iff {configs : List HopConfig} (hd : DrawnFrom hops creds configs) {nodeId : String}
    {port : Nat} {transport : Transport} : Listens configs nodeId port transport ↔ ∃ k h cred,
      hops[k + 1]? = some h ∧ h.nodeId = nodeId ∧ creds[k]? = some cred ∧ port = cred.port
        ∧ transport ∈ LINK_CELL_TRANSPORTS cred.protocol := by
  constructor
  · rintro ⟨c, hc, hnode, cred, hlink, hport, ht⟩
    obtain ⟨k, hk⟩ := List.mem_iff_getElem?.mp hc
    rw [hd.linkIn k c hk] at hlink
    split at hlink
    · rename_i hpos
      obtain ⟨k, rfl⟩ : ∃ j, k = j + 1 := ⟨k - 1, by omega⟩
      have hlt : k + 1 < hops.length := hd.length ▸ (List.getElem?_eq_some_iff.mp hk).1
      refine ⟨k, hops[k + 1], cred, List.getElem?_eq_getElem hlt, ?_, hlink, hport, ht⟩
      rw [← hd.node (k + 1) c _ hk (List.getElem?_eq_getElem hlt), hnode]
    · cases hlink
  · rintro ⟨k, h, cred, hh, hnode, hcred, hport, ht⟩
    have hlt : k + 1 < configs.length := hd.length.symm ▸ (List.getElem?_eq_some_iff.mp hh).1
    have hk := List.getElem?_eq_getElem hlt
    refine ⟨_, List.mem_of_getElem? hk, ?_, cred, ?_, hport, ht⟩
    · rw [hd.node (k + 1) _ h hk hh, hnode]
    · rw [hd.linkIn (k + 1) _ hk, if_pos (Nat.succ_pos k), Nat.add_sub_cancel, hcred]

/-- **Who listens**: in either mode the hop after the entry takes the first credential, the next
one the second, and so on. -/
theorem exists_configs (mode : CascadeMode) (hp : Placed hops creds) (htwo : 2 ≤ hops.length) :
    ∃ configs, cascadeConfigs mode (storedHops mode hops creds) = some configs
      ∧ DrawnFrom hops creds configs := by
  have hlen := length_storedHops mode hops creds
  have hcreds := hp.length
  unfold cascadeConfigs
  simp only [sortHops_storedHops hp, hlen, if_neg (Nat.not_lt.mpr htwo)]
  cases mode with
  | chain =>
    have hread : (storedHops .chain hops creds).dropLast.mapM CascadeHop.cred = some creds := by
      apply mapM_eq_some_of
      · rw [List.length_dropLast]
        omega
      · intro i r hr
        rw [List.getElem?_dropLast] at hr
        split at hr
        · rename_i hlt
          apply cred_storedHops hr
          rw [credIdx, if_pos (by omega)]
        · cases hr
    refine ⟨_, ?_, drawnFrom_chain hp⟩
    simp only [hread, Option.bind_eq_bind, Option.bind_some]
  | balancer =>
    have hread : (storedHops .balancer hops creds).tail.mapM CascadeHop.cred = some creds := by
      apply mapM_eq_some_of
      · rw [List.length_tail]
        omega
      · intro i r hr
        rw [List.getElem?_tail] at hr
        apply cred_storedHops hr
        rw [credIdx, if_pos (by omega), Nat.add_sub_cancel]
    obtain ⟨entry, exits, hrows⟩ : ∃ entry exits,
        storedHops .balancer hops creds = entry :: exits := by
      apply List.exists_cons_of_length_pos
      omega
    refine ⟨_, ?_, drawnFrom_balancer hrows⟩
    rw [hrows, List.tail_cons] at hread
    simp only [hrows, List.head?_cons, List.tail_cons, hread, Option.bind_eq_bind, Option.bind_some]

/-! ## The answer of a saved cascade -/

section Answer

variable {nodeId name : String} {ports : List Nat} {x : PortClaim}

/-- The claims of a hop's row are its own credential's. -/
theorem mem_claims_row (hr : (storedHops mode hops creds)[k]? = some r) :
    x ∈ claimsOf ports name r.linkConfig ↔ ∃ i cred, credIdx mode hops.length k = some i
      ∧ creds[i]? = some cred ∧ cred.port ∈ ports ∧ x.port = cred.port ∧ x.name = name
      ∧ x.transport ∈ LINK_CELL_TRANSPORTS cred.protocol := by
  obtain ⟨h, -, rfl⟩ := getElem?_storedHops.mp hr
  cases hidx : credIdx mode hops.length k with
  | none => simp [claimsOf]
  | some i =>
    cases hcred : creds[i]? with
    | none => simp [claimsOf, hcred]
    | some cred =>
      simp only [Option.bind_some, hcred, Option.map_some, mem_claimsOf]
      constructor
      · intro hclaim
        exact ⟨i, cred, rfl, hcred, hclaim⟩
      · rintro ⟨i', cred', hi, hcred', hclaim⟩
        obtain rfl := Option.some.inj hi
        obtain rfl := Option.some.inj (hcred.symm.trans hcred')
        exact hclaim

/-- **Both pairings are made**: the answer names the credential of the hop before and the hop's
own, in either mode. -/
theorem mem_hopClaims : x ∈ hopClaims nodeId ports name (storedHops mode hops creds)
    ↔ ∃ k h i cred, hops[k + 1]? = some h ∧ h.nodeId = nodeId
      ∧ (credIdx mode hops.length k = some i ∨ credIdx mode hops.length (k + 1) = some i)
      ∧ creds[i]? = some cred ∧ cred.port ∈ ports ∧ x.port = cred.port ∧ x.name = name
      ∧ x.transport ∈ LINK_CELL_TRANSPORTS cred.protocol := by
  have hrow : ∀ (k : Nat) (h : CascadeHopInput), hops[k]? = some h →
      ∃ r, (storedHops mode hops creds)[k]? = some r ∧ r.nodeId = h.nodeId := by
    intro k h hh
    exact ⟨_, getElem?_storedHops.mpr ⟨h, hh, rfl⟩, rfl⟩
  simp only [hopClaims, List.mem_append, List.mem_flatMap, Prod.exists, mem_zip_tail]
  constructor
  · rintro (⟨a, b, ⟨k, ha, hb⟩, hx⟩ | ⟨r, hr, hx⟩)
    · split at hx
      · rename_i hnode
        obtain ⟨i, cred, hidx, hclaim⟩ := (mem_claims_row ha).mp hx
        obtain ⟨h, hh, rfl⟩ := getElem?_storedHops.mp hb
        exact ⟨k, h, i, cred, hh, hnode, .inl hidx, hclaim⟩
      · cases hx
    · split at hx
      · rename_i hnode
        obtain ⟨k, hk⟩ := List.mem_iff_getElem?.mp hr
        rw [List.getElem?_tail] at hk
        obtain ⟨i, cred, hidx, hclaim⟩ := (mem_claims_row hk).mp hx
        obtain ⟨h, hh, rfl⟩ := getElem?_storedHops.mp hk
        exact ⟨k, h, i, cred, hh, hnode, .inr hidx, hclaim⟩
      · cases hx
  · rintro ⟨k, h, i, cred, hh, hnode, hidx, hclaim⟩
    obtain ⟨b, hb, hbnode⟩ := hrow (k + 1) h hh
    rcases hidx with hidx | hidx
    · obtain ⟨hlt, -⟩ := List.getElem?_eq_some_iff.mp hh
      obtain ⟨a, ha, -⟩ := hrow k hops[k] (List.getElem?_eq_getElem (by omega))
      refine .inl ⟨a, b, ⟨k, ha, hb⟩, ?_⟩
      rw [if_pos (hbnode.trans hnode)]
      exact (mem_claims_row ha).mpr ⟨i, cred, hidx, hclaim⟩
    · refine .inr ⟨b, ?_, ?_⟩
      · apply List.mem_of_getElem? (i := k)
        rw [List.getElem?_tail, hb]
      · rw [if_pos (hbnode.trans hnode)]
        exact (mem_claims_row hb).mpr ⟨i, cred, hidx, hclaim⟩

/-- Nothing of a cascade is passed over: a claimed port is asked for and reaches the node. -/
theorem mem_legacyHopLinkPorts (hp : Placed hops creds) :
    x ∈ legacyHopLinkPorts nodeId ports [⟨name, storedHops mode hops creds⟩]
      ↔ x ∈ hopClaims nodeId ports name (storedHops mode hops creds) := by
  unfold legacyHopLinkPorts
  split
  · simp only [List.mem_flatMap, List.mem_filter, List.mem_singleton]
    constructor
    · rintro ⟨c, ⟨rfl, -⟩, hx⟩
      rwa [sortHops_storedHops hp] at hx
    · intro hx
      refine ⟨_, ⟨rfl, ?_⟩, by rwa [sortHops_storedHops hp]⟩
      obtain ⟨k, h, i, cred, hh, hnode, -⟩ := mem_hopClaims.mp hx
      rw [List.any_eq_true]
      exact ⟨_, List.mem_of_getElem? (getElem?_storedHops.mpr ⟨h, hh, rfl⟩), decide_eq_true hnode⟩
  · rename_i hnone
    refine iff_of_false (by simp) ?_
    intro hx
    obtain ⟨k, h, i, cred, -, -, -, hcred, hasked, -⟩ := mem_hopClaims.mp hx
    apply hnone
    rw [List.any_eq_true]
    refine ⟨cred.port, hasked, ?_⟩
    rw [hp.ports i cred hcred, decide_eq_true_eq]
    exact Nat.le_add_right _ _

/-- The answer is what the node listens on of the asked ports. -/
def ClaimsListened (answer : List PortClaim) (configs : List HopConfig) (nodeId : String)
    (ports : List Nat) : Prop :=
  ∀ (port : Nat) (transport : Transport),
    (∃ x ∈ answer, x.port = port ∧ x.transport = transport)
      ↔ port ∈ ports ∧ Listens configs nodeId port transport

/-- The asked ports leave out the one a transit dials, and in a balancer the one of the exit before. -/
def AsksItsOwn (mode : CascadeMode) (hops : List CascadeHopInput) (nodeId : String)
    (ports : List Nat) : Prop :=
  ∀ (k : Nat) (h : CascadeHopInput), hops[k]? = some h → h.nodeId = nodeId →
    match mode with
    | .chain => 1 ≤ k → k + 1 < hops.length → LINK_PORT_BASE + k ∉ ports
    | .balancer => 2 ≤ k → LINK_PORT_BASE + (k - 2) ∉ ports

/-- The link the hop at place `k + 1` is named on beside its own. -/
def Stray (mode : CascadeMode) (n k i : Nat) : Prop :=
  match mode with
  | .chain => k + 2 < n ∧ i = k + 1
  | .balancer => 1 ≤ k ∧ i = k - 1

theorem credIdx_iff (hk : k + 1 < n) :
    (credIdx mode n k = some i ∨ credIdx mode n (k + 1) = some i) ↔ i = k ∨ Stray mode n k i := by
  cases mode with
  | chain =>
    have hown : credIdx .chain n k = some k := if_pos (by omega)
    have hnext : credIdx .chain n (k + 1) = some i ↔ k + 2 < n ∧ i = k + 1 := by
      show (if k + 1 < n - 1 then some (k + 1) else none) = some i ↔ _
      rw [Option.ite_none_right_eq_some, Option.some.injEq]
      omega
    rw [hown, Option.some.injEq, hnext, eq_comm (a := k)]
    rfl
  | balancer =>
    have hown : credIdx .balancer n (k + 1) = some k := by
      show (if 1 ≤ k + 1 then some (k + 1 - 1) else none) = some k
      rw [if_pos (Nat.le_add_left 1 k), Nat.add_sub_cancel]
    have hbefore : credIdx .balancer n k = some i ↔ 1 ≤ k ∧ i = k - 1 := by
      show (if 1 ≤ k then some (k - 1) else none) = some i ↔ _
      rw [Option.ite_none_right_eq_some, Option.some.injEq]
      omega
    rw [hown, Option.some.injEq, hbefore, eq_comm (a := k), or_comm]
    rfl

theorem stray_lt (hk : k + 1 < n) (h : Stray mode n k i) : i + 1 < n ∧ i ≠ k := by
  cases mode with
  | chain =>
    obtain ⟨hlt, rfl⟩ := h
    omega
  | balancer =>
    obtain ⟨hpos, rfl⟩ := h
    omega

theorem asksItsOwn_iff : AsksItsOwn mode hops nodeId ports ↔ ∀ (k : Nat) (h : CascadeHopInput),
    hops[k + 1]? = some h → h.nodeId = nodeId → ∀ i, Stray mode hops.length k i →
      LINK_PORT_BASE + i ∉ ports := by
  constructor
  · intro hown k h hh hnode i hstray
    have := hown (k + 1) h hh hnode
    cases mode with
    | chain =>
      obtain ⟨hlt, rfl⟩ := hstray
      exact this (by omega) (by omega)
    | balancer =>
      obtain ⟨hpos, rfl⟩ := hstray
      exact this (by omega)
  · intro hown k h hh hnode
    cases mode with
    | chain =>
      intro hpos hlt
      obtain ⟨k, rfl⟩ : ∃ j, k = j + 1 := ⟨k - 1, by omega⟩
      exact hown k h hh hnode (k + 1) ⟨by omega, rfl⟩
    | balancer =>
      intro hpos
      obtain ⟨k, rfl⟩ : ∃ j, k = j + 1 := ⟨k - 1, by omega⟩
      exact hown k h hh hnode (k - 1) ⟨by omega, rfl⟩

theorem transports_ne_nil (cell : LinkCell) : ∃ t, t ∈ LINK_CELL_TRANSPORTS cell := by
  cases cell <;> exact ⟨_, List.mem_cons_self⟩

/-- The node is named on another hop's link exactly where that link's port is asked for. -/
theorem claimsListened_iff (hp : Placed hops creds) {configs : List HopConfig}
    (hd : DrawnFrom hops creds configs) :
    ClaimsListened (legacyHopLinkPorts nodeId ports [⟨name, storedHops mode hops creds⟩]) configs
      nodeId ports ↔ AsksItsOwn mode hops nodeId ports := by
  rw [asksItsOwn_iff]
  constructor
  · intro hclaims k h hh hnode i hstray hasked
    have hk : k + 1 < hops.length := (List.getElem?_eq_some_iff.mp hh).1
    obtain ⟨hlt, hne⟩ := stray_lt hk hstray
    obtain ⟨cred, hcred⟩ : ∃ cred, creds[i]? = some cred := by
      have := hp.length
      exact ⟨_, List.getElem?_eq_getElem (by omega)⟩
    have hport := hp.ports i cred hcred
    obtain ⟨t, ht⟩ := transports_ne_nil cred.protocol
    have hmem : (⟨LINK_PORT_BASE + i, name, t⟩ : PortClaim)
        ∈ legacyHopLinkPorts nodeId ports [⟨name, storedHops mode hops creds⟩] := by
      rw [mem_legacyHopLinkPorts hp, mem_hopClaims]
      exact ⟨k, h, i, cred, hh, hnode, (credIdx_iff hk).mpr (.inr hstray), hcred, hport ▸ hasked,
        hport.symm, rfl, ht⟩
    obtain ⟨-, hlistens⟩ := (hclaims _ t).mp ⟨_, hmem, rfl, rfl⟩
    obtain ⟨k', h', cred', hh', hnode', hcred', hport', -⟩ := (listens_iff hd).mp hlistens
    -- the node stands at one place, so the port it listens on is its own
    have hsame : k + 1 = k' + 1 := by
      have hmap : ∀ (j : Nat) (e : CascadeHopInput), hops[j]? = some e →
          (hops.map (·.nodeId))[j]? = some e.nodeId := by
        intro j e he
        rw [List.getElem?_map, he, Option.map_some]
      obtain ⟨hj, -⟩ := List.getElem?_eq_some_iff.mp (hmap _ _ hh)
      refine (List.getElem?_inj hj hp.nodes).mp ?_
      rw [hmap _ _ hh, hmap _ _ hh', hnode, hnode']
    have hown : LINK_PORT_BASE + i = LINK_PORT_BASE + k' := hport'.trans (hp.ports k' cred' hcred')
    omega
  · intro hown port transport
    rw [listens_iff hd]
    constructor
    · rintro ⟨x, hx, rfl, rfl⟩
      rw [mem_legacyHopLinkPorts hp, mem_hopClaims] at hx
      obtain ⟨k, h, i, cred, hh, hnode, hidx, hcred, hasked, hport, -, ht⟩ := hx
      have hk : k + 1 < hops.length := (List.getElem?_eq_some_iff.mp hh).1
      rcases (credIdx_iff hk).mp hidx with rfl | hstray
      · exact ⟨hport ▸ hasked, i, h, cred, hh, hnode, hcred, hport, ht⟩
      · rw [hp.ports i cred hcred] at hasked
        exact absurd hasked (hown k h hh hnode i hstray)
    · rintro ⟨hasked, k, h, cred, hh, hnode, hcred, rfl, ht⟩
      have hk : k + 1 < hops.length := (List.getElem?_eq_some_iff.mp hh).1
      refine ⟨⟨cred.port, name, transport⟩, ?_, rfl, rfl⟩
      rw [mem_legacyHopLinkPorts hp, mem_hopClaims]
      exact ⟨k, h, k, cred, hh, hnode, (credIdx_iff hk).mpr (.inl rfl), hcred, hasked, rfl, rfl, ht⟩

end Answer

end Saved

/-- The save of an accepted hop list, in the mode it was accepted for. -/
def saveHops (draw : Nat → CredDraw) (mode : CascadeMode) (hops : List CascadeHopInput) :
    Except String (List CascadeHop) := do
  let cells ← linkProtocols mode hops
  pure (storedHops mode hops (generateLinkCreds draw cells))

/-- **A saved cascade holds on a node the ports the node listens on**, exactly where the ports asked
about leave out the link another hop listens on: the one a transit of a chain dials, and the one of
the exit before in a balancer. -/
theorem legacy_ports_iff {mode : CascadeMode} {sent hops : List CascadeHopInput}
    (h : validateCascadeHops sent mode = .ok hops) (draw : Nat → CredDraw) (name nodeId : String)
    (ports : List Nat) :
    ∃ stored configs, saveHops draw mode hops = .ok stored
      ∧ cascadeConfigs mode stored = some configs
      ∧ (ClaimsListened (legacyHopLinkPorts nodeId ports [⟨name, stored⟩]) configs nodeId ports
        ↔ AsksItsOwn mode hops nodeId ports) := by
  obtain ⟨htwo, -⟩ := validateCascadeHops_placed h
  obtain ⟨cells, hcells, hp⟩ := exists_creds h draw
  obtain ⟨configs, hconfigs, hd⟩ := exists_configs mode hp htwo
  refine ⟨storedHops mode hops (generateLinkCreds draw cells), configs, ?_, hconfigs, ?_⟩
  · rw [saveHops, hcells]
    rfl
  · exact claimsListened_iff hp hd

/-! ## A transit between two links -/

/-- An entry, a transit and an exit. -/
def threeHops : List CascadeHopInput :=
  [{ nodeId := "entry", position := 0, entryProtocol := some "xray", linkProtocol := some "vless" },
   { nodeId := "transit", position := 1, linkProtocol := some "vless" },
   { nodeId := "exit", position := 2 }]

def hopDraw : Nat → CredDraw := (sampleMinting "1").leg

theorem threeHops_accepted : validateCascadeHops threeHops .chain = .ok threeHops := by
  rfl

/-- Asked about the port it listens on, the transit is told so and nothing else. -/
theorem legacy_ports_iff_ownPort : ∃ stored configs,
    saveHops hopDraw .chain threeHops = .ok stored ∧ cascadeConfigs .chain stored = some configs
      ∧ ClaimsListened (legacyHopLinkPorts "transit" [24000] [⟨"c", stored⟩]) configs "transit"
        [24000] := by
  obtain ⟨stored, configs, hstored, hconfigs, hiff⟩ :=
    legacy_ports_iff threeHops_accepted hopDraw "c" "transit" [24000]
  refine ⟨stored, configs, hstored, hconfigs, hiff.mpr ?_⟩
  intro k h hh hnode hpos hlt
  obtain rfl : k = 1 := by
    simp only [threeHops, List.length_cons, List.length_nil] at hlt
    omega
  decide

/-- Asked about the port it dials the exit on, the transit is told the port is taken. -/
theorem dialled_port_claimed : ∃ stored configs,
    saveHops hopDraw .chain threeHops = .ok stored ∧ cascadeConfigs .chain stored = some configs
      ∧ legacyHopLinkPorts "transit" [24001] [⟨"c", stored⟩] = [⟨24001, "c", .tcp⟩]
      ∧ ¬ Listens configs "transit" 24001 .tcp
      ∧ ¬ ClaimsListened (legacyHopLinkPorts "transit" [24001] [⟨"c", stored⟩]) configs "transit"
        [24001] := by
  obtain ⟨cells, hcells, hp⟩ := exists_creds threeHops_accepted hopDraw
  obtain ⟨configs, hconfigs, hd⟩ := exists_configs .chain hp (by decide)
  obtain rfl : [.vless, .vless] = cells := Except.ok.inj hcells
  have hclaimed : legacyHopLinkPorts "transit" [24001] [⟨"c", storedHops .chain threeHops
      (generateLinkCreds hopDraw [.vless, .vless])⟩] = [⟨24001, "c", .tcp⟩] := by rfl
  have hsilent : ¬ Listens configs "transit" 24001 .tcp := by
    rw [listens_iff hd]
    rintro ⟨k, h, cred, hh, hnode, hcred, hport, -⟩
    have hown : 24001 = LINK_PORT_BASE + k := hport.trans (hp.ports k cred hcred)
    obtain rfl : k = 1 := by
      simp only [LINK_PORT_BASE] at hown
      omega
    obtain rfl : { nodeId := "exit", position := 2 } = h := Option.some.inj hh
    exact absurd hnode (by decide)
  refine ⟨storedHops .chain threeHops (generateLinkCreds hopDraw [.vless, .vless]), configs, rfl,
    hconfigs, hclaimed, hsilent, ?_⟩
  rw [hclaimed]
  intro hclaims
  exact hsilent ((hclaims 24001 .tcp).mp ⟨_, List.mem_singleton_self _, rfl, rfl⟩).2

end Iceslab

import Iceslab.Lib.IpText
import Iceslab.Lib.JsUri

/-!
# The routes of a cascade entry

`cascade-entries.ts` and the endpoint of `subscription.formats.ts` as far as the cascade lines read
it.  The route a client picks is written into bytes 7 and 8 of its UUID, where VLESS lets it change
them and the entry reads them as `vlessRoute`.

* `withVlessRouteTag`, `vlessRouteOf_withVlessRouteTag` — what is written is what the entry reads.
* `expandCascadeEntry` — one endpoint per route of an entry, of VLESS only.
* `handedOut` — the same with the route each copy is for.
-/

set_option autoImplicit false

namespace Iceslab.Subscription

inductive ProtocolName
  | hysteria | xray | amneziawg | naive | shadowsocks | mtproto | mieru | tuic | anytls | shadowtls
deriving DecidableEq, Repr

def ProtocolName.text : ProtocolName → String
  | hysteria => "hysteria"
  | xray => "xray"
  | amneziawg => "amneziawg"
  | naive => "naive"
  | shadowsocks => "shadowsocks"
  | mtproto => "mtproto"
  | mieru => "mieru"
  | tuic => "tuic"
  | anytls => "anytls"
  | shadowtls => "shadowtls"

inductive XraySubprotocol
  | vless | trojan | vmess | socks | http
deriving DecidableEq, Repr

def XraySubprotocol.text : XraySubprotocol → String
  | vless => "vless"
  | trojan => "trojan"
  | vmess => "vmess"
  | socks => "socks"
  | http => "http"

inductive XrayNetwork
  | raw | xhttp | ws | grpc | httpupgrade | kcp
deriving DecidableEq, Repr

def XrayNetwork.text : XrayNetwork → String
  | raw => "raw"
  | xhttp => "xhttp"
  | ws => "ws"
  | grpc => "grpc"
  | httpupgrade => "httpupgrade"
  | kcp => "kcp"

/-- A way out a subscriber may pick at a cascade entry. -/
structure Route where
  label : String
  tag : Nat
  cascadeId : Option String
deriving DecidableEq, Repr

/-- `SubscriptionEndpoint`; `rest` is every field that no function of the cascade lines reads. -/
structure Endpoint (α : Type) where
  protocol : ProtocolName
  subprotocol : Option XraySubprotocol
  network : Option XrayNetwork
  nodeName : String
  nodeId : String
  key : Option String
  host : String
  port : Nat
  uuid : String
  uri : String
  hostRemark : Option String
  cascadeExits : Option (List Route)
  routeLabel : Option String
  rest : α
deriving DecidableEq

section Endpoints

variable {α : Type}

def isPlainXray (e : Endpoint α) : Bool :=
  decide (e.protocol = .xray ∧ (e.subprotocol = some .socks ∨ e.subprotocol = some .http))

/-- What the transport is called in a key. -/
def transportText (e : Endpoint α) : String :=
  if e.protocol ≠ .xray then ""
  else if isPlainXray e then (e.subprotocol.map XraySubprotocol.text).getD ""
  else (e.network.map XrayNetwork.text).getD ""

/-- `endpointKey` -/
def endpointKey (e : Endpoint α) : String :=
  match e.key with
  | some key => if key ≠ "" then key else tuple
  | none => tuple
where
  tuple : String := String.intercalate "|"
    [e.nodeId, e.nodeName, e.host, toString e.port, e.protocol.text, transportText e]

end Endpoints

/-! ## The tag in the UUID -/

/-- `n.toString(16).padStart(4, '0')` -/
def hex4 (n : Nat) : String := String.ofList (List.leftpad 4 '0' (Nat.toDigits 16 n))

/-- `withVlessRouteTag` -/
def withVlessRouteTag (uuid : String) (tag : Nat) : String :=
  match JsText.split '-' uuid with
  | [a, b, c, d, e] =>
    if c.length = 4 then String.intercalate "-" [a, b, hex4 (tag % 65536), d, e] else uuid
  | _ => uuid

/-- What an entry reads as `vlessRoute`: bytes 7 and 8, the third group. -/
def vlessRouteOf (uuid : String) : Option Nat :=
  match JsText.split '-' uuid with
  | [_, _, c, _, _] => IpText.hexValue c.toList
  | _ => none

/-- Five groups, the third of two bytes: the UUIDs that carry a tag. -/
def CarriesTag (uuid : String) : Prop :=
  ∃ a b c d e, JsText.split '-' uuid = [a, b, c, d, e] ∧ c.length = 4

theorem hexValue_zeros (k : Nat) (cs : List Char) :
    IpText.hexValue (List.replicate k '0' ++ cs) = IpText.hexValue cs := by
  induction k with
  | zero => rfl
  | succ k ih =>
    rw [List.replicate_succ, List.cons_append, ← ih]
    rfl

theorem hexValue_hex4 (n : Nat) : IpText.hexValue (hex4 n).toList = some n := by
  rw [hex4, String.toList_ofList, List.leftpad, hexValue_zeros, IpText.hexValue_toDigits]

theorem dash_notMem_hex4 (n : Nat) : '-' ∉ (hex4 n).toList := by
  intro h
  rw [hex4, String.toList_ofList, List.leftpad, List.mem_append] at h
  rcases h with h | h
  · exact absurd (List.eq_of_mem_replicate h) (by decide)
  · obtain ⟨d, hd, hdash⟩ := IpText.eq_digitChar_of_mem h
    exact (by decide : ∀ d : Fin 16, '-' ≠ Nat.digitChar d) ⟨d, hd⟩ hdash

/-- **What is written into a UUID is what the entry reads**, of the low sixteen bits. -/
theorem vlessRouteOf_withVlessRouteTag {uuid : String} (h : CarriesTag uuid) (tag : Nat) :
    vlessRouteOf (withVlessRouteTag uuid tag) = some (tag % 65536) := by
  obtain ⟨a, b, c, d, e, hsplit, hlen⟩ := h
  have hwords : ∀ w ∈ [a, b, hex4 (tag % 65536), d, e], '-' ∉ w.toList := by
    intro w hw
    have hold : ∀ w ∈ [a, b, c, d, e], '-' ∉ w.toList := fun w hw =>
      JsText.notMem_of_mem_split (hsplit ▸ hw)
    simp only [List.mem_cons, List.not_mem_nil, or_false] at hw
    rcases hw with rfl | rfl | rfl | rfl | rfl
    · exact hold _ (by simp)
    · exact hold _ (by simp)
    · exact dash_notMem_hex4 _
    · exact hold _ (by simp)
    · exact hold _ (by simp)
  have hjoined := JsText.split_intercalate hwords (List.cons_ne_nil _ _)
  have htagged : withVlessRouteTag uuid tag
      = String.intercalate "-" [a, b, hex4 (tag % 65536), d, e] := by
    unfold withVlessRouteTag
    rw [hsplit]
    exact if_pos hlen
  unfold vlessRouteOf
  rw [htagged]
  rw [show ("-" : String) = String.singleton '-' from rfl, hjoined]
  exact hexValue_hex4 _

/-! ## One endpoint per route -/

section Expand

variable {α : Type}

/-- The endpoints whose UUID can carry a route. -/
def isVless (e : Endpoint α) : Bool :=
  decide (e.protocol = .xray) && !isPlainXray e && decide (e.subprotocol.getD .vless = .vless)

/-- `text.replace(part, other)` of a text: the first occurrence. -/
def replaceFirst (part other : List Char) : List Char → List Char
  | [] => if part = [] then other else []
  | c :: cs =>
    if part.isPrefixOf (c :: cs) then other ++ (c :: cs).drop part.length
    else c :: replaceFirst part other cs

/-- The share link of a route. -/
def routeUri (e : Endpoint α) (uuid label : String) : String :=
  if e.uri = "" then e.uri
  else
    let base := e.uri.toList.takeWhile (· ≠ '#')
    String.ofList (replaceFirst e.uuid.toList uuid.toList base) ++ "#"
      ++ JsUri.encodeURIComponent label

/-- The entry with the route's tag in its UUID, under the route's name. -/
def routeEndpoint (e : Endpoint α) (route : Route) : Endpoint α :=
  let uuid := withVlessRouteTag e.uuid route.tag
  { e with
    uuid := uuid
    nodeName := route.label
    routeLabel := some route.label
    key := some (endpointKey e ++ "|route-" ++ toString route.tag)
    uri := routeUri e uuid route.label
    cascadeExits := none }

/-- `expandCascadeEntry` -/
def expandCascadeEntry (e : Endpoint α) : List (Endpoint α) :=
  if isVless e = false then [e]
  else
    match e.cascadeExits with
    | none => [e]
    | some [] => [e]
    | some routes => routes.map (routeEndpoint e)

/-- `expandCascadeEntry` with the route each copy is for. -/
def handedOut (e : Endpoint α) : List (Option Route × Endpoint α) :=
  if isVless e = false then [(none, e)]
  else
    match e.cascadeExits with
    | none => [(none, e)]
    | some [] => [(none, e)]
    | some routes => routes.map fun route => (some route, routeEndpoint e route)

theorem map_snd_handedOut (e : Endpoint α) : (handedOut e).map Prod.snd = expandCascadeEntry e := by
  unfold handedOut expandCascadeEntry
  split
  · rfl
  · split
    · rfl
    · rfl
    · rw [List.map_map]
      rfl

end Expand

end Iceslab.Subscription

import Iceslab.Lib.Checked
import Iceslab.Lib.JsText
import Iceslab.Lib.Names
import Mathlib.Data.List.TakeWhile
import Mathlib.Tactic.IntervalCases

/-!
# Subnets of an AmneziaWG profile

`amneziawg.subnet.ts`: an IPv4 address as a number and back, and the addresses of a subnet that
peers are given.

* `intToIp_inj` — an address is the text of one number only.
* `parseSubnet_cases` — what a subnet spells.
* `parseSubnet_spec` — where the server, the peers and the broadcast address of a subnet lie.
-/

set_option autoImplicit false

namespace Iceslab

open Checked JsText

structure SubnetRange where
  base : Nat
  pfx : Nat
  serverIp : Nat
  firstUsable : Nat
  lastUsable : Nat
  deriving DecidableEq, Repr

/-- `Number(s)` where it is a number: the schema of a profile lets nothing but digits through. -/
def numberIn (s : String) : Option Nat := if isDigits s then some (numberOf s) else none

def addOctet (ip : String) (n : Nat) (p : String) : Except String Nat :=
  match numberIn p with
  | none => .error ("Invalid octet in " ++ ip)
  | some v => if 255 < v then .error ("Invalid octet in " ++ ip) else .ok (n * 256 + v)

/-- `n >>> 0` changes nothing here: four octets stay below `2 ^ 32`. -/
def ipToInt (ip : String) : Except String Nat :=
  let parts := split '.' ip
  if parts.length ≠ 4 then .error ("Invalid IPv4: " ++ ip)
  else parts.foldlM (addOctet ip) 0

def intToIp (n : Nat) : String :=
  ".".intercalate [toString ((n >>> 24) &&& 255), toString ((n >>> 16) &&& 255),
    toString ((n >>> 8) &&& 255), toString (n &&& 255)]

/-- `0xffffffff << (32 - prefix)` as an unsigned number. -/
def maskOf (pfx : Nat) : Nat := (4294967295 <<< (32 - pfx)) % 4294967296

def parseSubnet (cidr : String) : Except String SubnetRange :=
  match cidr.toList.takeWhile (· ≠ '/'), (cidr.toList.dropWhile (· ≠ '/')).tail? with
  | _, none => .error ("Invalid CIDR: " ++ cidr)
  | [], some _ => .error ("Invalid CIDR: " ++ cidr)
  | c :: ip, some rest =>
    match numberIn (String.ofList rest) with
    | none => .error "Invalid prefix /NaN (must be /8..30)"
    | some pfx =>
      if pfx < 8 ∨ 30 < pfx then
        .error ("Invalid prefix /" ++ toString pfx ++ " (must be /8..30)")
      else do
        let baseRaw ← ipToInt (String.ofList (c :: ip))
        let mask := maskOf pfx
        let base := baseRaw &&& mask
        let broadcast := base ||| (mask ^^^ 4294967295)
        let serverIp := base + 1
        let firstUsable := serverIp + 1
        let lastUsable := broadcast - 1
        if lastUsable < firstUsable then
          .error ("Subnet " ++ cidr ++ " too small to host any peers")
        else .ok { base, pfx, serverIp, firstUsable, lastUsable }

/-- The last address of a subnet. -/
def SubnetRange.broadcast (r : SubnetRange) : Nat := r.base + 2 ^ (32 - r.pfx) - 1

example : parseSubnet "10.99.0.5/29" =
    .ok ⟨174260224, 29, 174260225, 174260226, 174260230⟩ := by decide

/-! ## Addresses -/

theorem octets_eq (n : Nat) : (n >>> 24) &&& 255 = n / 16777216 % 256 ∧
    (n >>> 16) &&& 255 = n / 65536 % 256 ∧ (n >>> 8) &&& 255 = n / 256 % 256 ∧
    n &&& 255 = n % 256 := by
  have h := fun x => Nat.and_two_pow_sub_one_eq_mod x 8
  simp only [Nat.reducePow, Nat.reduceSub] at h
  simp [h, Nat.shiftRight_eq_div_pow]

/-- **An address is the text of one number only.** -/
theorem intToIp_inj {m n : Nat} (hm : m < 4294967296) (hn : n < 4294967296)
    (h : intToIp m = intToIp n) : m = n := by
  unfold intToIp at h
  have hplain : ∀ a b c d : Nat, ∀ s ∈ [toString a, toString b, toString c, toString d],
      '.' ∉ s.toList ∧ s ≠ "" := by
    intro a b c d s hs
    simp only [List.mem_cons, List.not_mem_nil, or_false] at hs
    rcases hs with rfl | rfl | rfl | rfl <;>
      exact ⟨Names.not_mem_num (by decide) _, Names.num_ne_empty _⟩
  have hl := Names.intercalate_inj (c := '.') (hplain _ _ _ _) (hplain _ _ _ _) h
  simp only [List.cons.injEq, and_true] at hl
  obtain ⟨h1, h2, h3, h4⟩ := hl
  have e1 := Names.num_inj h1
  have e2 := Names.num_inj h2
  have e3 := Names.num_inj h3
  have e4 := Names.num_inj h4
  obtain ⟨m1, m2, m3, m4⟩ := octets_eq m
  obtain ⟨n1, n2, n3, n4⟩ := octets_eq n
  omega

theorem addOctet_lt {ip p : String} {n m k : Nat} (h : addOctet ip n p = .ok m) (hn : n < k) :
    m < k * 256 := by
  unfold addOctet at h
  split at h
  · cases h
  · split at h
    · cases h
    · cases h
      omega

theorem ipToInt_lt {ip : String} {n : Nat} (h : ipToInt ip = .ok n) : n < 4294967296 := by
  unfold ipToInt at h
  dsimp only at h
  split at h
  · cases h
  rename_i hlen
  rcases hparts : split '.' ip with _ | ⟨a, _ | ⟨b, _ | ⟨c, _ | ⟨d, _ | ⟨e, l⟩⟩⟩⟩⟩ <;>
    rw [hparts] at hlen h <;> simp at hlen
  simp only [List.foldlM_cons, List.foldlM_nil, bind_eq_ok, pure_eq_ok] at h
  obtain ⟨n1, h1, n2, h2, n3, h3, n4, h4, rfl⟩ := h
  exact addOctet_lt h4 (addOctet_lt h3 (addOctet_lt h2 (addOctet_lt h1 Nat.one_pos)))

/-! ## The range of a subnet -/

theorem and_maskOf {x k : Nat} (hx : x < 2 ^ 32) (hk : k ≤ 32) :
    x &&& (2 ^ 32 - 2 ^ k) = x / 2 ^ k * 2 ^ k := by
  have hpow : 2 ^ 32 - 2 ^ k = (2 ^ (32 - k) - 1) * 2 ^ k := by
    rw [Nat.sub_mul, ← Nat.pow_add, Nat.sub_add_cancel hk, Nat.one_mul]
  rw [hpow]
  refine Nat.eq_of_testBit_eq fun i => ?_
  rw [Nat.testBit_and, Nat.testBit_mul_two_pow, Nat.testBit_mul_two_pow, Nat.testBit_two_pow_sub_one,
    Nat.testBit_div_two_pow]
  by_cases hi : k ≤ i
  · by_cases hlt : i < 32
    · have hlt' : i - k < 32 - k := by omega
      simp [hi, hlt']
    · have hbit : x.testBit i = false :=
        Nat.testBit_lt_two_pow (Nat.lt_of_lt_of_le hx (Nat.pow_le_pow_right (by decide) (by omega)))
      simp [hi, hbit]
  · simp [hi]

theorem maskOf_eq {pfx : Nat} (h : 8 ≤ pfx ∧ pfx ≤ 30) :
    maskOf pfx = 2 ^ 32 - 2 ^ (32 - pfx) ∧ maskOf pfx ^^^ 4294967295 = 2 ^ (32 - pfx) - 1 := by
  obtain ⟨h1, h2⟩ := h
  interval_cases pfx <;> decide

theorem base_or {q k m : Nat} (h : m < 2 ^ k) : q * 2 ^ k ||| m = q * 2 ^ k + m := by
  rw [Nat.mul_comm, Nat.two_pow_add_eq_or_of_lt h]

/-- Where the addresses of a subnet lie. -/
structure SubnetRange.Laid (r : SubnetRange) : Prop where
  server : r.serverIp = r.base + 1
  first : r.firstUsable = r.serverIp + 1
  last : r.lastUsable + 1 = r.broadcast
  some : r.firstUsable ≤ r.lastUsable
  below : r.broadcast < 4294967296

/-- What a subnet spells: the address before its slash, the prefix after it, and the network the
address lies in. -/
structure SubnetRange.Spelled (r : SubnetRange) (cidr addr len : String) (raw : Nat) : Prop where
  text : cidr = addr ++ "/" ++ len
  slash : '/' ∉ addr.toList
  address : ipToInt addr = .ok raw
  digits : isDigits len = true
  pfx : numberOf len = r.pfx
  bounds : 8 ≤ r.pfx ∧ r.pfx ≤ 30
  base : r.base = raw / 2 ^ (32 - r.pfx) * 2 ^ (32 - r.pfx)

theorem two_pow_le_of_bounds {pfx : Nat} (h : 8 ≤ pfx ∧ pfx ≤ 30) : 2 ^ 2 ≤ 2 ^ (32 - pfx) :=
  Nat.pow_le_pow_right (by decide) (by omega)

/-- The network of an address ends below `2 ^ 32`. -/
theorem network_le {raw pfx : Nat} (hraw : raw < 4294967296) (h : 8 ≤ pfx ∧ pfx ≤ 30) :
    raw / 2 ^ (32 - pfx) * 2 ^ (32 - pfx) + 2 ^ (32 - pfx) ≤ 4294967296 := by
  have hq : raw / 2 ^ (32 - pfx) + 1 ≤ 2 ^ pfx := by
    refine Nat.div_lt_of_lt_mul ?_
    rw [← Nat.pow_add, Nat.sub_add_cancel (by omega)]
    exact hraw
  have := Nat.mul_le_mul_right (2 ^ (32 - pfx)) hq
  rw [← Nat.pow_add, Nat.add_sub_cancel' (by omega), Nat.add_mul] at this
  omega

theorem parseSubnet_cases {cidr : String} {r : SubnetRange} (h : parseSubnet cidr = .ok r) :
    (∃ addr len raw, r.Spelled cidr addr len raw) ∧ r.serverIp = r.base + 1 ∧
      r.firstUsable = r.serverIp + 1 ∧ r.lastUsable = r.broadcast - 1 ∧
      r.firstUsable ≤ r.lastUsable := by
  unfold parseSubnet at h
  split at h
  · cases h
  · cases h
  rename_i c ip rest haddr hrest
  have hmem : '/' ∈ cidr.toList := by
    by_contra hnone
    rw [List.dropWhile_eq_nil_iff.mpr fun x hx => by
      simpa using fun hc : x = '/' => hnone (hc ▸ hx)] at hrest
    cases hrest
  obtain ⟨addr, len, hcut, hslash⟩ := List.eq_append_cons_of_mem hmem
  rw [hcut, takeWhile_ne hslash] at haddr
  rw [hcut, dropWhile_ne hslash, List.tail?_cons, Option.some.injEq] at hrest
  split at h
  · cases h
  rename_i pfx hpfx
  unfold numberIn at hpfx
  split at hpfx
  swap
  · cases hpfx
  rename_i hdigits
  cases hpfx
  split at h
  · cases h
  rename_i hbounds
  have hbounds : 8 ≤ numberOf (String.ofList rest) ∧ numberOf (String.ofList rest) ≤ 30 := by
    omega
  obtain ⟨raw, hraw, h⟩ := bind_eq_ok.mp h
  obtain ⟨hmask, hnot⟩ := maskOf_eq hbounds
  have hfour := two_pow_le_of_bounds hbounds
  dsimp only at h
  rw [hnot, hmask, and_maskOf (ipToInt_lt hraw) (by omega), base_or (by omega)] at h
  split at h
  · cases h
  rename_i hsome
  cases h
  refine ⟨⟨String.ofList (c :: ip), String.ofList rest, raw, ?_, ?_, hraw, hdigits, rfl, hbounds,
    rfl⟩, rfl, rfl, ?_, by dsimp only; omega⟩
  · refine String.toList_inj.mp ?_
    simp [hcut, haddr, hrest]
  · rw [String.toList_ofList, ← haddr]
    exact hslash
  · simp only [SubnetRange.broadcast]
    omega

/-- **The peers of a subnet lie strictly between its server and its broadcast address.** -/
theorem parseSubnet_spec {cidr : String} {r : SubnetRange} (h : parseSubnet cidr = .ok r) :
    r.Laid := by
  obtain ⟨⟨_, _, raw, hs⟩, hserver, hfirst, hlast, hsome⟩ := parseSubnet_cases h
  have hle := network_le (ipToInt_lt hs.address) hs.bounds
  have hfour := two_pow_le_of_bounds hs.bounds
  rw [← hs.base] at hle
  simp only [SubnetRange.broadcast] at hlast
  exact ⟨hserver, hfirst, by simp only [SubnetRange.broadcast]; omega, hsome,
    by simp only [SubnetRange.broadcast]; omega⟩

end Iceslab

import Iceslab.Agent.Amneziawg
import Iceslab.PeerSubnet

/-!
# The address an AmneziaWG node gives itself

`parseSubnet` of the panel reserves the first address of a subnet for its server, and
`serverAddressFromSubnet` of the agent reads the same text and adds one to the address it spells.

* `serverAddress_iff` — the two are one address exactly where the subnet is written as a network.
* `serverAddress_ne_peer` — which no peer of the subnet is given.
-/

set_option autoImplicit false

namespace Iceslab

open Checked JsText
open Agent.Amneziawg (parseAddr parseCIDR to4 quadText serverAddressFromSubnet)

/-! ## Dotted quads -/

/-- The number of an address. -/
def quadValue (ip : List UInt8) : Nat := ip.foldl (fun n b => n * 256 + b.toNat) 0

theorem exists_quad {ip : List UInt8} (h : ip.length = 4) : ∃ a b c d, ip = [a, b, c, d] := by
  match ip, h with
  | [a, b, c, d], _ => exact ⟨a, b, c, d, rfl⟩

section Quad

variable (a b c d : UInt8)

theorem quadValue_eq : quadValue [a, b, c, d] =
    ((a.toNat * 256 + b.toNat) * 256 + c.toNat) * 256 + d.toNat := by
  simp [quadValue]

theorem quadValue_lt : quadValue [a, b, c, d] < 4294967296 := by
  have := a.toNat_lt
  have := b.toNat_lt
  have := c.toNat_lt
  have := d.toNat_lt
  rw [quadValue_eq]
  omega

theorem intToIp_quadValue : intToIp (quadValue [a, b, c, d]) = quadText [a, b, c, d] := by
  have ha := a.toNat_lt
  have hb := b.toNat_lt
  have hc := c.toNat_lt
  have hd := d.toNat_lt
  obtain ⟨h1, h2, h3, h4⟩ := octets_eq (quadValue [a, b, c, d])
  unfold intToIp quadText
  rw [h1, h2, h3, h4, quadValue_eq]
  have e1 : (((a.toNat * 256 + b.toNat) * 256 + c.toNat) * 256 + d.toNat) / 16777216 % 256 =
      a.toNat := by omega
  have e2 : (((a.toNat * 256 + b.toNat) * 256 + c.toNat) * 256 + d.toNat) / 65536 % 256 =
      b.toNat := by omega
  have e3 : (((a.toNat * 256 + b.toNat) * 256 + c.toNat) * 256 + d.toNat) / 256 % 256 =
      c.toNat := by omega
  have e4 : (((a.toNat * 256 + b.toNat) * 256 + c.toNat) * 256 + d.toNat) % 256 = d.toNat := by
    omega
  rw [e1, e2, e3, e4]
  rfl

end Quad

/-- Every number of 32 bits is that of an address. -/
theorem exists_quadValue {n : Nat} (h : n < 4294967296) :
    ∃ a b c d : UInt8, n = quadValue [a, b, c, d] := by
  refine ⟨UInt8.ofNat (n / 16777216), UInt8.ofNat (n / 65536 % 256), UInt8.ofNat (n / 256 % 256),
    UInt8.ofNat (n % 256), ?_⟩
  have hsize : UInt8.size = 256 := rfl
  rw [quadValue_eq, UInt8.toNat_ofNat_of_lt' (by omega), UInt8.toNat_ofNat_of_lt' (by omega),
    UInt8.toNat_ofNat_of_lt' (by omega), UInt8.toNat_ofNat_of_lt' (by omega)]
  omega

theorem toList_quadText (ip : List UInt8) :
    (quadText ip).toList = IpText.joined '.' (ip.map fun b => Nat.toDigits 10 b.toNat) := by
  unfold quadText IpText.joined
  rw [String.toList_intercalate, List.map_map]
  congr 1
  refine List.map_congr_left fun b _ => ?_
  simp

theorem isDigits_num (n : Nat) : isDigits (toString n) = true := by
  unfold isDigits
  simp only [Nat.toString_eq_ofList_toDigits, String.toList_ofList, Bool.and_eq_true,
    decide_eq_true_eq, List.all_eq_true]
  refine ⟨?_, fun c hc => Nat.isDigit_of_mem_toDigits (by decide) (by decide) hc⟩
  rw [← Nat.toString_eq_ofList_toDigits]
  exact Names.num_ne_empty n

theorem numberOf_num (n : Nat) : numberOf (toString n) = n := by
  rw [numberOf, Nat.toString_eq_ofList_toDigits, String.toList_ofList]
  exact Nat.ofDigitChars_ten_toDigits

theorem addOctet_num {ip : String} {n m : Nat} (h : m < 256) :
    addOctet ip n (toString m) = .ok (n * 256 + m) := by
  unfold addOctet numberIn
  rw [if_pos (isDigits_num m), numberOf_num]
  exact if_neg (by omega)

/-- The panel reads an address written out. -/
theorem ipToInt_quadText (a b c d : UInt8) :
    ipToInt (quadText [a, b, c, d]) = .ok (quadValue [a, b, c, d]) := by
  have hsplit : split '.' (quadText [a, b, c, d]) =
      [toString a.toNat, toString b.toNat, toString c.toNat, toString d.toNat] := by
    refine split_intercalate (c := '.') (fun w hw => ?_) (by simp)
    obtain ⟨b, -, rfl⟩ := List.mem_map.mp hw
    exact Names.not_mem_num (by decide) _
  unfold ipToInt
  dsimp only
  rw [hsplit, if_neg (by simp), quadValue_eq]
  simp only [List.foldlM_cons, List.foldlM_nil, addOctet_num a.toNat_lt, addOctet_num b.toNat_lt,
    addOctet_num c.toNat_lt, addOctet_num d.toNat_lt, bind_eq_ok, pure_eq_ok]
  exact ⟨_, rfl, _, rfl, _, rfl, _, rfl, by omega⟩

theorem parseAddr_eq_readQuad {cs : List Char} (h : ':' ∉ cs) :
    parseAddr cs = IpText.readQuad cs := by
  have hdouble : splitDouble cs = none := by
    have := IpText.splitDouble_append h []
    rwa [List.append_nil] at this
  have hv6 : IpText.readV6 cs = none := by
    unfold IpText.readV6 IpText.readGroups
    rw [hdouble]
    dsimp only
    split
    · rfl
    · rw [List.splitOn_eq_singleton h, List.mapM_cons]
      cases hg : IpText.readGroup cs with
      | none => rfl
      | some bytes =>
        unfold IpText.readGroup at hg
        split at hg
        · obtain ⟨v, -, rfl⟩ := Option.map_eq_some_iff.mp hg
          rfl
        · cases hg
  have hlast : splitLast ':' (String.ofList cs) = none := by
    unfold splitLast
    simp [h]
  unfold parseAddr IpText.readAddress
  rw [hv6, hlast]
  simp

/-! ## The server's address -/

/-- A subnet is the address of its network, without a leading zero. -/
def WrittenAsNetwork (subnet : String) : Prop :=
  ∃ n len, n < 4294967296 ∧ 2 ^ (32 - numberOf len) ∣ n ∧ subnet = intToIp n ++ "/" ++ len

section Server

variable {subnet addr len : String} {r : SubnetRange} {raw : Nat}

/-- What the two read off a subnet cut at its slash. -/
theorem cut_slash (h : '/' ∉ addr.toList) : GoText.cut (addr ++ "/" ++ len) '/' = some (addr, len) := by
  have hcut : (addr ++ "/" ++ len).toList = addr.toList ++ '/' :: len.toList := by simp
  unfold GoText.cut
  rw [hcut, takeWhile_ne h, dropWhile_ne h, if_pos (by simp)]
  simp

theorem append_slash_inj {addr' len' : String} (h : '/' ∉ addr.toList) (h' : '/' ∉ addr'.toList)
    (heq : addr ++ "/" ++ len = addr' ++ "/" ++ len') : addr = addr' ∧ len = len' := by
  have := congrArg (GoText.cut · '/') heq
  rw [cut_slash h, cut_slash h'] at this
  simpa using this

theorem slash_not_mem_quadText (ip : List UInt8) : '/' ∉ (quadText ip).toList := by
  rw [toList_quadText]
  refine IpText.not_mem_joined (by decide) fun w hw hmem => ?_
  obtain ⟨b, -, rfl⟩ := List.mem_map.mp hw
  exact absurd (Nat.isDigit_of_mem_toDigits (by decide) (by decide) hmem) (by decide)

/-- An address the panel reads has no colon. -/
theorem colon_not_mem_of_ipToInt (h : ipToInt addr = .ok raw) : ':' ∉ addr.toList := by
  unfold ipToInt at h
  dsimp only at h
  split at h
  · cases h
  rename_i hlen
  have hwords : ∀ (words : List String) (n m : Nat), words.foldlM (addOctet addr) n = .ok m →
      ∀ w ∈ words, ':' ∉ w.toList := by
    intro words
    induction words with
    | nil => exact fun _ _ _ w hw => absurd hw List.not_mem_nil
    | cons w words ih =>
      intro n m hfold
      rw [List.foldlM_cons] at hfold
      obtain ⟨k, hk, hfold⟩ := bind_eq_ok.mp hfold
      refine List.forall_mem_cons.mpr ⟨?_, ih k m hfold⟩
      unfold addOctet numberIn at hk
      by_cases hd : isDigits w = true
      · unfold isDigits at hd
        simp only [Bool.and_eq_true, List.all_eq_true] at hd
        exact fun hc => absurd (hd.2 _ hc) (by decide)
      · rw [if_neg hd] at hk
        cases hk
  have hall := hwords _ _ _ h
  have hjoin : ['.'].intercalate (addr.toList.splitOn '.') = addr.toList :=
    List.intercalate_splitOn '.'
  rw [← hjoin]
  refine IpText.not_mem_joined (by decide) fun w hw => ?_
  simpa using hall (String.ofList w) (List.mem_map_of_mem hw)

/-- The agent's address of a subnet whose address is written out. -/
theorem serverAddress_quad {a b c d : UInt8} (hlen : isDigits len = true)
    (hle : numberOf len ≤ 32) :
    serverAddressFromSubnet (quadText [a, b, c, d] ++ "/" ++ len) =
      .ok (quadText [a, b, c, d + 1] ++ "/" ++ toString (numberOf len)) := by
  have hcolon : ':' ∉ (quadText [a, b, c, d]).toList :=
    colon_not_mem_of_ipToInt (ipToInt_quadText a b c d)
  have hquad : IpText.readQuad (quadText [a, b, c, d]).toList = some [a, b, c, d] := by
    rw [toList_quadText]
    exact IpText.readQuad_decimals rfl
  unfold isDigits at hlen
  simp only [Bool.and_eq_true, decide_eq_true_eq] at hlen
  have hparse : parseCIDR (quadText [a, b, c, d] ++ "/" ++ len) =
      some ([a, b, c, d], numberOf len) := by
    unfold parseCIDR
    rw [cut_slash (slash_not_mem_quadText _), Option.bind_some, parseAddr_eq_readQuad hcolon, hquad,
      Option.bind_some]
    exact if_pos ⟨hlen.1, hlen.2, hle⟩
  unfold serverAddressFromSubnet
  rw [hparse]
  rfl

/-- The agent's address is the first of the network only where the address spelled is the network's
own: the agent adds one to it, and the panel to the network. -/
theorem next_eq_first_iff (a b c d : UInt8) {k : Nat} (hk : 2 ≤ k) :
    quadValue [a, b, c, d + 1] = quadValue [a, b, c, d] / 2 ^ k * 2 ^ k + 1 ↔
      2 ^ k ∣ quadValue [a, b, c, d] := by
  have hfour : 4 ∣ 2 ^ k := Nat.pow_dvd_pow 2 hk
  have hbase : 4 ∣ quadValue [a, b, c, d] / 2 ^ k * 2 ^ k := Dvd.dvd.mul_left hfour _
  have hd : (d + 1).toNat = (d.toNat + 1) % 256 := UInt8.toNat_add d 1
  have hlt := d.toNat_lt
  constructor
  · intro h
    have heq : quadValue [a, b, c, d] / 2 ^ k * 2 ^ k = quadValue [a, b, c, d] := by
      simp only [quadValue_eq] at h hbase ⊢
      omega
    exact ⟨_, (Nat.mul_comm _ _ ▸ heq).symm⟩
  · intro h
    have hn : 4 ∣ quadValue [a, b, c, d] := hfour.trans h
    rw [Nat.div_mul_cancel h]
    simp only [quadValue_eq] at hn ⊢
    omega

/-- **The agent's address is the one the panel reserves exactly where the subnet is written as a
network.** -/
theorem serverAddress_iff (h : parseSubnet subnet = .ok r) :
    serverAddressFromSubnet subnet = .ok (intToIp r.serverIp ++ "/" ++ toString r.pfx) ↔
      WrittenAsNetwork subnet := by
  obtain ⟨⟨addr, len, raw, hs⟩, hserver, -⟩ := parseSubnet_cases h
  have hbounds := hs.bounds
  have hquad : ∀ a b c d : UInt8, addr = quadText [a, b, c, d] →
      (serverAddressFromSubnet subnet = .ok (intToIp r.serverIp ++ "/" ++ toString r.pfx) ↔
        2 ^ (32 - r.pfx) ∣ quadValue [a, b, c, d]) := by
    intro a b c d haddr
    have hraw : raw = quadValue [a, b, c, d] := by
      have := hs.address
      rw [haddr, ipToInt_quadText] at this
      exact (Except.ok.inj this).symm
    have hle := network_le (quadValue_lt a b c d) hbounds
    have hfour := two_pow_le_of_bounds hbounds
    rw [hs.text, haddr, serverAddress_quad hs.digits (by rw [hs.pfx]; omega), hs.pfx,
      ← next_eq_first_iff a b c d (by omega), ← hraw, ← hs.base, ← hserver, Except.ok.injEq]
    rw [← hraw, ← hs.base] at hle
    constructor
    · intro heq
      rw [String.append_left_inj, String.append_left_inj, ← intToIp_quadValue] at heq
      exact intToIp_inj (quadValue_lt _ _ _ _) (by omega) heq
    · intro heq
      rw [← intToIp_quadValue, heq]
  constructor
  · intro haddress
    have hread : ∃ ip, IpText.readQuad addr.toList = some ip := by
      unfold serverAddressFromSubnet parseCIDR at haddress
      rw [hs.text, cut_slash hs.slash, Option.bind_some,
        parseAddr_eq_readQuad (colon_not_mem_of_ipToInt hs.address)] at haddress
      cases hq : IpText.readQuad addr.toList with
      | none =>
        rw [hq] at haddress
        cases haddress
      | some ip => exact ⟨ip, rfl⟩
    obtain ⟨ip, hip⟩ := hread
    obtain ⟨hfour, htext⟩ := IpText.readQuad_eq_some.mp hip
    obtain ⟨a, b, c, d, rfl⟩ := exists_quad hfour
    rw [← toList_quadText, String.toList_inj] at htext
    refine ⟨quadValue [a, b, c, d], len, quadValue_lt a b c d, ?_, ?_⟩
    · rw [hs.pfx]
      exact (hquad a b c d htext).mp haddress
    · rw [intToIp_quadValue, ← htext]
      exact hs.text
  · rintro ⟨n, len', hn, hdvd, htext⟩
    obtain ⟨a, b, c, d, rfl⟩ := exists_quadValue hn
    rw [intToIp_quadValue] at htext
    obtain ⟨haddr, rfl⟩ := append_slash_inj hs.slash (slash_not_mem_quadText _)
      (hs.text.symm.trans htext)
    rw [hs.pfx] at hdvd
    exact (hquad a b c d haddr).mpr hdvd

/-- The server is no peer. -/
theorem serverAddress_ne_peer (h : parseSubnet subnet = .ok r) {n : Nat} (hfirst : r.firstUsable ≤ n)
    (hlast : n ≤ r.lastUsable) : intToIp r.serverIp ≠ intToIp n := by
  have hr := parseSubnet_spec h
  have := hr.first
  have := hr.last
  have := hr.below
  intro heq
  have := intToIp_inj (by omega) (by omega) heq
  omega

end Server

end Iceslab

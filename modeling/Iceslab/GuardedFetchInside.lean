import Iceslab.GuardedFetch
import Mathlib.Tactic.IntervalCases

/-!
# What a fetch leaves for

The check is made on the text of the host: the root dot, and an address written after six zero
pieces, are two spellings it does not know.

* `Inside` — the hosts that mean this machine or its network.
* `isBlockedHost_domain`, `isBlockedHost_v4`, `isBlockedHost_v6` — which of them are refused.
* `requests_guarded` — every request of a fetch is to an address that passed, four at most.
* `guarded_iff` — nothing inside is fetched, and no public name refused, but for those spellings.
-/

set_option autoImplicit false

namespace Iceslab.GuardedFetch

open UrlHost IpText

/-! ## Inside -/

/-- A name under the zone, with the root dot or without. -/
def Under (zone name : String) : Prop :=
  ∃ sub, name = sub ++ "." ++ zone ∨ name = sub ++ "." ++ zone ++ "."

def InsideName (name : String) : Prop :=
  name = "localhost" ∨ name = "localhost." ∨
    ∃ zone ∈ ["localhost", "internal", "local"], Under zone name

/-- Unspecified, loopback, private or link-local. -/
def InsideV4 (ip : V4) : Prop :=
  (∀ i, ip.bytes i = 0) ∨ ip.bytes 0 = 127 ∨ ip.bytes 0 = 10 ∨
    (ip.bytes 0 = 172 ∧ 16 ≤ ip.bytes 1 ∧ ip.bytes 1 ≤ 31) ∨
    (ip.bytes 0 = 192 ∧ ip.bytes 1 = 168) ∨ (ip.bytes 0 = 169 ∧ ip.bytes 1 = 254)

/-- Unspecified and loopback are among those of six zero pieces. -/
inductive InsideV6 (pieces : List Nat) : Prop where
  | uniqueLocal (p : Nat) (rest : List Nat) : pieces = p :: rest → 0xfc00 ≤ p → p ≤ 0xfdff →
      InsideV6 pieces
  | linkLocal (p : Nat) (rest : List Nat) : pieces = p :: rest → 0xfe80 ≤ p → p ≤ 0xfebf →
      InsideV6 pieces
  | mapped (x y : Nat) : pieces = [0, 0, 0, 0, 0, 0xffff, x, y] → InsideV6 pieces
  | compatible (x y : Nat) : pieces = [0, 0, 0, 0, 0, 0, x, y] → InsideV6 pieces
  | nat64 (x y : Nat) : pieces = [0x64, 0xff9b, 0, 0, 0, 0, x, y] → InsideV6 pieces

def Inside : Host → Prop
  | .domain name => InsideName name.text
  | .v4 ip => InsideV4 ip
  | .v6 ip => InsideV6 ip.pieces
  | .opaqueHost text => InsideName text

/-! ## Texts -/

section Texts

variable {h : List Char}

theorem stripBrackets_of_notMem (h1 : '[' ∉ h) (h2 : ']' ∉ h) : stripBrackets h = h := by
  have hhead : h.head? ≠ some '[' := fun hh => h1 (List.mem_of_head? hh)
  have hlast : h.getLast? ≠ some ']' := fun hh => h2 (List.mem_of_getLast? hh)
  simp only [stripBrackets, if_neg hhead, if_neg hlast]

theorem stripBrackets_brackets : stripBrackets ('[' :: h ++ [']']) = h := by
  simp [stripBrackets]

end Texts

/-! ## Names -/

variable {text : String}

section Names

/-- Written like the first bytes of a private address. -/
def LooksPrivate (text : String) : Prop :=
  (BLOCKED_HOST_PATTERNS.any fun re => re text.toList) = true

variable {name : Domain} {c : Char}

theorem toLower_of_isDomainChar (h : isDomainChar c = true) : c.toLower = c := by
  have hupper : c.isUpper = false := by
    simp only [isDomainChar, Bool.and_eq_true, Bool.not_eq_true'] at h
    exact h.1.2
  exact dif_neg (of_decide_eq_false hupper)

theorem domainChar_of_mem (h : c ∈ name.text.toList) : isDomainChar c = true :=
  List.all_eq_true.mp name.chars c h

theorem notMem_of_not_isDomainChar (h : isDomainChar c = false) : c ∉ name.text.toList :=
  fun hc => by
    rw [domainChar_of_mem hc] at h
    cases h

theorem host_of_domain (name : Domain) :
    stripBrackets (name.text.toList.map Char.toLower) = name.text.toList := by
  have hlower : name.text.toList.map Char.toLower = name.text.toList := by
    conv_rhs => rw [← List.map_id name.text.toList]
    exact List.map_congr_left fun c hc => toLower_of_isDomainChar (domainChar_of_mem hc)
  rw [hlower]
  exact stripBrackets_of_notMem (notMem_of_not_isDomainChar (by decide))
    (notMem_of_not_isDomainChar (by decide))

theorem isSuffixOf_iff (zone : String) :
    ("." ++ zone).toList.isSuffixOf text.toList = true ↔ ∃ sub, text = sub ++ "." ++ zone := by
  rw [List.isSuffixOf_iff_suffix]
  constructor
  · rintro ⟨sub, hsub⟩
    refine ⟨String.ofList sub, String.toList_inj.mp ?_⟩
    rw [← hsub]
    simp [String.toList_append]
  · rintro ⟨sub, rfl⟩
    rw [String.append_assoc, String.toList_append (s := sub)]
    exact List.suffix_append _ _

/-- **A name is refused by its zone, without the root dot, or by how it begins.** -/
theorem isBlockedHost_domain (name : Domain) : isBlockedHost name.text = true ↔
    (name.text = "localhost" ∨ ∃ zone ∈ ["localhost", "internal", "local"],
      ∃ sub, name.text = sub ++ "." ++ zone) ∨ LooksPrivate name.text := by
  have hcolon : ':' ∉ name.text.toList := notMem_of_not_isDomainChar (by decide)
  have hzero : name.text.toList ≠ "0.0.0.0".toList := fun heq => by
    have := name.notNumber
    rw [String.toList_inj.mp heq] at this
    exact absurd this (by decide)
  have hnames : name.text.toList = "localhost".toList ↔ name.text = "localhost" :=
    String.toList_inj
  have hzones : (".localhost".toList.isSuffixOf name.text.toList = true ∨
      ".internal".toList.isSuffixOf name.text.toList = true ∨
      ".local".toList.isSuffixOf name.text.toList = true) ↔
      ∃ zone ∈ ["localhost", "internal", "local"], ∃ sub, name.text = sub ++ "." ++ zone := by
    simp only [List.mem_cons, List.not_mem_nil, or_false, exists_eq_or_imp, exists_eq_left]
    exact or_congr (isSuffixOf_iff "localhost")
      (or_congr (isSuffixOf_iff "internal") (isSuffixOf_iff "local"))
  unfold isBlockedHost
  dsimp only
  simp only [host_of_domain name, hcolon, false_and, if_false]
  rw [← hzones, ← hnames, LooksPrivate]
  simp only [hzero, or_false]
  split
  · rename_i hname
    exact ⟨fun _ => .inl hname, fun _ => rfl⟩
  · rename_i hname
    exact ⟨.inr, fun h => h.resolve_left hname⟩

end Names

/-! ## Addresses -/

section Addresses

variable {host : String} {h : List Char} {c : Char}

theorem isBlockedHost_of_pattern (hh : stripBrackets (host.toList.map Char.toLower) = h)
    (hpattern : h = "0.0.0.0".toList ∨ (BLOCKED_HOST_PATTERNS.any fun re => re h) = true) :
    isBlockedHost host = true := by
  unfold isBlockedHost
  dsimp only
  rw [hh]
  split
  · rfl
  · rename_i hname
    have hany := hpattern.resolve_left fun hzero => hname (.inr (.inr (.inr (.inr hzero))))
    split
    · rfl
    · split
      · rfl
      · exact hany

theorem toDigits_chars {n : Nat} (hc : c ∈ Nat.toDigits 10 n) :
    c.toLower = c ∧ c ≠ '[' ∧ c ≠ ']' := by
  have hdigit : c.isDigit = true := Nat.isDigit_of_mem_toDigits (by decide) (by decide) hc
  have hnum := Char.isDigit_iff_toNat.mp hdigit
  refine ⟨dif_neg fun hupper => ?_, ?_, ?_⟩
  · have : 'A'.val.toNat ≤ c.val.toNat := UInt32.le_iff_toNat_le.mp hupper.1
    exact absurd (this.trans hnum.2) (by decide)
  · rintro rfl
    exact absurd hdigit (by decide)
  · rintro rfl
    exact absurd hdigit (by decide)

theorem v4Text_eq (ip : V4) : v4Text ip =
    Nat.toDigits 10 (ip.bytes 0).toNat ++ '.' :: (Nat.toDigits 10 (ip.bytes 1).toNat ++ '.' ::
      (Nat.toDigits 10 (ip.bytes 2).toNat ++ '.' :: Nat.toDigits 10 (ip.bytes 3).toNat)) := by
  simp only [v4Text, List.ofFn_succ, List.ofFn_zero, List.map_cons, List.map_nil, joined_cons_cons]
  simp [joined]

theorem host_of_v4 (ip : V4) :
    stripBrackets ((String.ofList (v4Text ip)).toList.map Char.toLower) = v4Text ip := by
  have hchars : ∀ c ∈ v4Text ip, c.toLower = c ∧ c ≠ '[' ∧ c ≠ ']' := by
    rw [v4Text_eq]
    intro c hc
    simp only [List.mem_append, List.mem_cons] at hc
    rcases hc with hc | rfl | hc | rfl | hc | rfl | hc
    · exact toDigits_chars hc
    · decide
    · exact toDigits_chars hc
    · decide
    · exact toDigits_chars hc
    · decide
    · exact toDigits_chars hc
  rw [String.toList_ofList, List.map_congr_left fun c hc => (hchars c hc).1, List.map_id']
  exact stripBrackets_of_notMem (fun hc => (hchars _ hc).2.1 rfl) fun hc => (hchars _ hc).2.2 rfl

theorem isPrivate172_digits {b : Nat} (hlo : 16 ≤ b) (hhi : b ≤ 31) (rest : List Char) :
    isPrivate172 (Nat.toDigits 10 172 ++ '.' :: (Nat.toDigits 10 b ++ '.' :: rest)) = true := by
  interval_cases b <;> rfl

/-- **An address of the inside is refused.** -/
theorem isBlockedHost_v4 {ip : V4} (hinside : InsideV4 ip) :
    isBlockedHost (Host.v4 ip).hostname = true := by
  refine isBlockedHost_of_pattern (host_of_v4 ip) ?_
  rw [v4Text_eq]
  rcases hinside with hzero | h0 | h0 | ⟨h0, hlo, hhi⟩ | ⟨h0, h1⟩ | ⟨h0, h1⟩
  · left
    rw [hzero, hzero, hzero, hzero]
    rfl
  · right
    rw [h0]
    rfl
  · right
    rw [h0]
    rfl
  · right
    rw [h0]
    have := isPrivate172_digits (UInt8.le_iff_toNat_le.mp hlo) (UInt8.le_iff_toNat_le.mp hhi)
      (Nat.toDigits 10 (ip.bytes 2).toNat ++ '.' :: Nat.toDigits 10 (ip.bytes 3).toNat)
    exact List.any_eq_true.mpr ⟨isPrivate172, by simp [BLOCKED_HOST_PATTERNS], this⟩
  · right
    rw [h0, h1]
    rfl
  · right
    rw [h0, h1]
    rfl

theorem toLower_of_mem_groupsText {gs : List Nat} (hc : c ∈ groupsText gs) : c.toLower = c := by
  have hdigit : ∀ d : Fin 16, (Nat.digitChar d).toLower = Nat.digitChar d := by decide
  rcases List.mem_intercalate hc with hc | ⟨w, hw, hc⟩
  · rw [List.mem_singleton.mp hc]
    decide
  · obtain ⟨g, -, rfl⟩ := List.mem_map.mp hw
    obtain ⟨d, hd, rfl⟩ := eq_digitChar_of_mem hc
    exact hdigit ⟨d, hd⟩

theorem toLower_of_mem_v6Text {pieces : List Nat} (hc : c ∈ v6Text pieces) : c.toLower = c := by
  unfold v6Text at hc
  split at hc
  · exact toLower_of_mem_groupsText hc
  · simp only [List.mem_append, List.mem_cons] at hc
    rcases hc with hc | rfl | rfl | hc
    · exact toLower_of_mem_groupsText hc
    · decide
    · decide
    · exact toLower_of_mem_groupsText hc

theorem host_of_v6 (ip : V6) :
    stripBrackets ((Host.v6 ip).hostname.toList.map Char.toLower) = v6Text ip.pieces := by
  have hlower : (v6Text ip.pieces).map Char.toLower = v6Text ip.pieces := by
    conv_rhs => rw [← List.map_id (v6Text ip.pieces)]
    exact List.map_congr_left fun c hc => toLower_of_mem_v6Text hc
  rw [Host.hostname, String.toList_ofList, List.map_append, List.map_cons, hlower]
  exact stripBrackets_brackets

theorem isBlockedHost_of_v6 (hh : stripBrackets (host.toList.map Char.toLower) = h)
    (hcolon : ':' ∈ h)
    (hrange : (h = "::1".toList ∨ "fc".toList.isPrefixOf h ∨ "fd".toList.isPrefixOf h
      ∨ ∃ c ∈ ['8', '9', 'a', 'b'], ['f', 'e', c].isPrefixOf h) ∨
      (isMapped 5 h ∨ "::ffff:".toList.isPrefixOf h ∨ "64:ff9b:".toList.isPrefixOf h)) :
    isBlockedHost host = true := by
  unfold isBlockedHost
  dsimp only
  rw [hh]
  split
  · rfl
  · rcases hrange with hrange | hrange
    · rw [if_pos ⟨hcolon, hrange⟩]
    · split
      · rfl
      · rw [if_pos ⟨hcolon, hrange⟩]

theorem toDigits_sixteen {n : Nat} (hn : 16 ≤ n) :
    Nat.toDigits 16 n = Nat.toDigits 16 (n / 16) ++ [Nat.digitChar (n % 16)] := by
  rw [Nat.toDigits_eq_if (by decide), if_neg (by omega)]

/-- The ranges of a first piece, by its first digits. -/
theorem isPrefixOf_digits {pre : List Char} {n : Nat} {rest : List Char}
    (h : pre <+: Nat.toDigits 16 n) : pre.isPrefixOf (Nat.toDigits 16 n ++ rest) = true :=
  List.isPrefixOf_iff_prefix.mpr (h.trans (List.prefix_append _ _))

/-- **An address of the inside is refused**, but for one after six zero pieces. -/
theorem isBlockedHost_v6 {ip : V6} (hinside : InsideV6 ip.pieces)
    (hzeros : ∀ x y, ip.pieces ≠ [0, 0, 0, 0, 0, 0, x, y]) :
    isBlockedHost (Host.v6 ip).hostname = true := by
  have hfirst {p : Nat} {rest : List Nat} (hp : ip.pieces = p :: rest) (hne : p ≠ 0) :
      ∃ rest, v6Text ip.pieces = Nat.toDigits 16 p ++ ':' :: rest := by
    rw [hp]
    refine v6Text_of_ne_zero hne fun hnil => ?_
    have := ip.length_eq
    rw [hp, hnil] at this
    cases this
  cases hinside with
  | uniqueLocal p rest hp hlo hhi =>
    obtain ⟨tail, htext⟩ := hfirst hp (by omega)
    refine isBlockedHost_of_v6 (host_of_v6 ip) (by simp [htext]) (.inl (.inr ?_))
    have hdigits : Nat.toDigits 16 p = Nat.toDigits 16 (p / 16 / 16) ++
        [Nat.digitChar (p / 16 % 16), Nat.digitChar (p % 16)] := by
      rw [toDigits_sixteen (by omega), toDigits_sixteen (n := p / 16) (by omega), List.append_assoc]
      rfl
    have hcases : p / 16 / 16 = 0xfc ∨ p / 16 / 16 = 0xfd := by omega
    rw [htext]
    rcases hcases with hq | hq
    · exact .inl (isPrefixOf_digits (by rw [hdigits, hq]; exact List.prefix_append _ _))
    · exact .inr (.inl (isPrefixOf_digits (by rw [hdigits, hq]; exact List.prefix_append _ _)))
  | linkLocal p rest hp hlo hhi =>
    obtain ⟨tail, htext⟩ := hfirst hp (by omega)
    refine isBlockedHost_of_v6 (host_of_v6 ip) (by simp [htext]) (.inl (.inr (.inr (.inr ?_))))
    have hcases : p / 16 = 0xfe8 ∨ p / 16 = 0xfe9 ∨ p / 16 = 0xfea ∨ p / 16 = 0xfeb := by omega
    rw [htext]
    have hpre {c : Char} (hq : Nat.toDigits 16 (p / 16) = ['f', 'e', c]) :
        ['f', 'e', c].isPrefixOf (Nat.toDigits 16 p ++ ':' :: tail) = true :=
      isPrefixOf_digits (by rw [toDigits_sixteen (by omega), hq]; exact List.prefix_append _ _)
    rcases hcases with hq | hq | hq | hq
    · exact ⟨'8', by decide, hpre (by rw [hq]; rfl)⟩
    · exact ⟨'9', by decide, hpre (by rw [hq]; rfl)⟩
    · exact ⟨'a', by decide, hpre (by rw [hq]; rfl)⟩
    · exact ⟨'b', by decide, hpre (by rw [hq]; rfl)⟩
  | mapped x y hp =>
    have htext := v6Text_mapped x y
    rw [← hp] at htext
    refine isBlockedHost_of_v6 (host_of_v6 ip) (by simp [htext]) (.inr (.inr (.inl ?_)))
    rw [htext]
    exact List.isPrefixOf_iff_prefix.mpr (List.prefix_append _ _)
  | compatible x y hp => exact absurd hp (hzeros x y)
  | nat64 x y hp =>
    obtain ⟨rest, htext⟩ := v6Text_nat64 x y
    rw [← hp] at htext
    refine isBlockedHost_of_v6 (host_of_v6 ip) (by simp [htext]) (.inr (.inr (.inr ?_)))
    rw [htext]
    exact List.isPrefixOf_iff_prefix.mpr (List.prefix_append _ _)

end Addresses

/-! ## After six zero pieces -/

section Compatible

variable {n x y : Nat} {g : List Char}

/-- A number that is not zero does not begin with one. -/
theorem head_toDigits_ne_zero (hn : n ≠ 0) : (Nat.toDigits 16 n).head? ≠ some '0' := by
  induction n using Nat.strongRecOn with
  | ind n ih =>
    rw [Nat.toDigits_eq_if (by decide)]
    split
    · rename_i hlt
      have hdigit : ∀ d : Fin 16, d.val ≠ 0 → Nat.digitChar d ≠ '0' := by decide
      exact fun h => hdigit ⟨n, hlt⟩ hn (Option.some.inj h)
    · rw [List.head?_append_of_ne_nil _ Nat.toDigits_ne_nil]
      exact ih (n / 16) (by omega) (by omega)

theorem toDigits_eq_iff {cs : List Char} {m : Nat} (hm : Nat.toDigits 16 m = cs) :
    Nat.toDigits 16 n = cs ↔ n = m := by
  refine ⟨fun h => ?_, fun h => h ▸ hm⟩
  have := hexValue_toDigits n
  rw [h, ← hm, hexValue_toDigits] at this
  exact (Option.some.inj this).symm

/-- The groups that are written. -/
def written (x y : Nat) : List Nat := if x = 0 then if y = 0 then [] else [y] else [x, y]

theorem head_written : ∀ c ∈ (groupsText (written x y)).head?, c ≠ '0' ∧ c ≠ ':' := by
  have hhead {n : Nat} (rest : List Char) (hn : n ≠ 0) :
      ∀ c ∈ (Nat.toDigits 16 n ++ rest).head?, c ≠ '0' ∧ c ≠ ':' := fun c hc => by
    rw [List.head?_append_of_ne_nil _ Nat.toDigits_ne_nil] at hc
    exact ⟨fun h => head_toDigits_ne_zero hn (h ▸ hc),
      fun h => colon_not_mem n (h ▸ List.mem_of_head? hc)⟩
  unfold written
  split
  · split
    · intro c hc
      cases hc
    · rename_i hy
      have := hhead [] hy
      rwa [List.append_nil, ← groupsText_singleton] at this
  · rename_i hx
    rw [groupsText_cons_cons]
    exact hhead _ hx

theorem written_eq_one : groupsText (written x y) = ['1'] ↔ x = 0 ∧ y = 1 := by
  unfold written
  split
  · rename_i hx
    split
    · rename_i hy
      simp [groupsText, joined, hx, hy]
    · rw [groupsText_singleton, toDigits_eq_iff (show Nat.toDigits 16 1 = ['1'] from rfl)]
      simp [hx]
  · rename_i hx
    rw [groupsText_cons_cons]
    refine ⟨fun h => ?_, fun h => absurd h.1 hx⟩
    have : ':' ∈ ['1'] := h ▸ List.mem_append_right _ List.mem_cons_self
    exact absurd this (by decide)

theorem written_ffff :
    "ffff:".toList.isPrefixOf (groupsText (written x y)) = true ↔ x = 0xffff := by
  rw [List.isPrefixOf_iff_prefix]
  constructor
  · intro h
    have hcolon : ':' ∈ groupsText (written x y) := h.subset (by decide)
    have hx : x ≠ 0 := by
      rintro rfl
      by_cases hy : y = 0
      · rw [written, if_pos rfl, if_pos hy] at hcolon
        cases hcolon
      · rw [written, if_pos rfl, if_neg hy, groupsText_singleton] at hcolon
        exact colon_not_mem y hcolon
    rw [written, if_neg hx, groupsText_cons_cons] at h
    obtain ⟨rest, hrest⟩ := h
    have htake := congrArg (List.takeWhile (· ≠ ':')) hrest
    rw [JsText.takeWhile_ne (colon_not_mem x)] at htake
    exact (toDigits_eq_iff (show Nat.toDigits 16 0xffff = _ from rfl)).mp htake.symm
  · rintro rfl
    rw [written, if_neg (by decide), groupsText_cons_cons]
    exact List.prefix_append _ _

theorem zeroGroup_written : zeroGroup (groupsText (written x y)) = none := by
  have hhead := head_written (x := x) (y := y)
  generalize groupsText (written x y) = g at hhead ⊢
  unfold zeroGroup
  cases g with
  | nil => rfl
  | cons c g =>
    obtain ⟨hzero, hcolon⟩ := hhead c rfl
    rw [List.dropWhile_cons_of_neg (by simpa using hzero)]
    split
    · rename_i heq
      exact absurd (List.cons.inj heq).1 hcolon
    · rfl

/-- The pattern of a mapped address reads two empty groups and stops at the digits. -/
theorem isMapped_written : isMapped 5 (':' :: ':' :: groupsText (written x y)) = true ↔
    "ffff:".toList.isPrefixOf (groupsText (written x y)) = true := by
  have hhead := head_written (x := x) (y := y)
  have hzero := zeroGroup_written (x := x) (y := y)
  generalize groupsText (written x y) = g at hhead hzero ⊢
  have hcolon : ":ffff:".toList.isPrefixOf g = false := by
    cases g with
    | nil => rfl
    | cons c g =>
      have hc := (hhead c rfl).2
      rw [Bool.eq_false_iff, ne_eq, List.isPrefixOf_iff_prefix]
      exact fun h => hc (List.cons_prefix_cons.mp h).1.symm
  have hlast : isMapped 3 g = "ffff:".toList.isPrefixOf g := by
    rw [isMapped, hzero, hcolon]
    simp
  have hone : zeroGroup (':' :: g) = some g := rfl
  have htwo : zeroGroup (':' :: ':' :: g) = some (':' :: g) := rfl
  rw [isMapped, htwo, Option.any_some, isMapped, hone, Option.any_some, hlast]
  simp

/-- **After six zero pieces only `::1`, and what begins with `ffff`, is refused.** -/
theorem isBlockedHost_compatible {ip : V6} (hp : ip.pieces = [0, 0, 0, 0, 0, 0, x, y]) :
    isBlockedHost (Host.v6 ip).hostname = true ↔ x = 0xffff ∨ (x = 0 ∧ y = 1) := by
  have htext : v6Text ip.pieces = ':' :: ':' :: groupsText (written x y) := by
    rw [hp, v6Text_compatible]
    rfl
  have hnodot : '.' ∉ v6Text ip.pieces := by
    rw [htext, List.mem_cons, List.mem_cons]
    rintro (h | h | h)
    · exact absurd h (by decide)
    · exact absurd h (by decide)
    · exact not_mem_groupsText (by decide) (by decide) _ h
  have hsuffix {zone : List Char} (hdot : '.' ∈ zone) :
      zone.isSuffixOf (v6Text ip.pieces) = false := by
    rw [Bool.eq_false_iff, ne_eq, List.isSuffixOf_iff_suffix]
    exact fun h => hnodot (h.subset hdot)
  have hnames : ¬(v6Text ip.pieces = "localhost".toList ∨
      ".localhost".toList.isSuffixOf (v6Text ip.pieces) ∨
      ".internal".toList.isSuffixOf (v6Text ip.pieces) ∨
      ".local".toList.isSuffixOf (v6Text ip.pieces) ∨ v6Text ip.pieces = "0.0.0.0".toList) := by
    rw [hsuffix (by decide), hsuffix (by decide), hsuffix (by decide), htext]
    rintro (h | h | h | h | h) <;> cases h
  have hone : v6Text ip.pieces = "::1".toList ↔ x = 0 ∧ y = 1 := by
    rw [htext, ← written_eq_one]
    exact ⟨fun h => (List.cons.inj (List.cons.inj h).2).2, fun h => by rw [h]; rfl⟩
  have hffff : "::ffff:".toList.isPrefixOf (v6Text ip.pieces) =
      "ffff:".toList.isPrefixOf (groupsText (written x y)) := by
    rw [htext]
    rfl
  unfold isBlockedHost
  dsimp only
  rw [host_of_v6, if_neg hnames]
  have hcolon : ':' ∈ v6Text ip.pieces := htext ▸ List.mem_cons_self
  have hrange : (v6Text ip.pieces = "::1".toList ∨ "fc".toList.isPrefixOf (v6Text ip.pieces) ∨
      "fd".toList.isPrefixOf (v6Text ip.pieces) ∨
      ∃ c ∈ ['8', '9', 'a', 'b'], ['f', 'e', c].isPrefixOf (v6Text ip.pieces)) ↔ x = 0 ∧ y = 1 := by
    rw [hone, htext]
    refine ⟨fun h => ?_, .inl⟩
    rcases h with h | h | h | ⟨c, -, h⟩
    · exact h
    · cases h
    · cases h
    · cases h
  have hmapped : (isMapped 5 (v6Text ip.pieces) ∨
      "::ffff:".toList.isPrefixOf (v6Text ip.pieces) ∨
      "64:ff9b:".toList.isPrefixOf (v6Text ip.pieces)) ↔ x = 0xffff := by
    rw [hffff, htext, isMapped_written, written_ffff]
    refine ⟨fun h => ?_, .inl⟩
    rcases h with h | h | h
    · exact h
    · exact h
    · cases h
  have hpatterns : (BLOCKED_HOST_PATTERNS.any fun re => re (v6Text ip.pieces)) = false := by
    rw [htext]
    rfl
  simp only [hrange, hmapped, hcolon, true_and, hpatterns]
  split
  · rename_i h
    exact ⟨fun _ => .inr h, fun _ => rfl⟩
  · rename_i h
    split
    · rename_i h'
      exact ⟨fun _ => .inl h', fun _ => rfl⟩
    · rename_i h'
      refine ⟨fun hf => absurd hf (by decide), fun hor => ?_⟩
      rcases hor with hx | hone
      · exact absurd hx h'
      · exact absurd hone h

end Compatible

/-! ## The address and the requests -/

section Requests

variable {P : Parser} {raw : String} {u : Url}

def Url.IsHttp (u : Url) : Prop := u.protocol = "https:" ∨ u.protocol = "http:"

/-- Nothing inside is fetched and no public name refused, on the way of no redirect. -/
structure NeverInside (P : Parser) (raw : String) : Prop where
  refused : ∀ u, P.parse raw = some u → Inside u.host → ∃ e, assertPublicHttpUrl P raw = .error e
  answered : ∀ u, P.parse raw = some u → u.IsHttp → ∀ name, u.host = .domain name →
    ¬ InsideName name.text → assertPublicHttpUrl P raw = .ok u
  requested : ∀ fetchImpl, (fetchGuarded P fetchImpl raw).1.length ≤ MAX_REDIRECTS + 1 ∧
    ∀ address ∈ (fetchGuarded P fetchImpl raw).1, ∃ u, assertPublicHttpUrl P address = .ok u

/-- The spellings the check does not know are not there. -/
structure Spelled (u : Url) : Prop where
  /-- a name of the inside with the root dot begins like a private address -/
  rootDot : ∀ name, u.host = .domain name → InsideName name.text →
    (∃ sub, name.text = sub ++ ".") → LooksPrivate name.text
  /-- a public name does not -/
  publicName : ∀ name, u.host = .domain name → ¬ InsideName name.text → ¬ LooksPrivate name.text
  /-- after six zero pieces stands `::1`, or `ffff` -/
  compatible : ∀ ip x y, u.host = .v6 ip → ip.pieces = [0, 0, 0, 0, 0, 0, x, y] →
    x = 0xffff ∨ (x = 0 ∧ y = 1)

theorem assert_of_http (hu : P.parse raw = some u) (hhttp : u.IsHttp) :
    if isBlockedHost u.host.hostname then ∃ e, assertPublicHttpUrl P raw = .error e
    else assertPublicHttpUrl P raw = .ok u := by
  have hprotocol : ¬(u.protocol ≠ "https:" ∧ u.protocol ≠ "http:") := fun h =>
    hhttp.elim h.1 h.2
  unfold assertPublicHttpUrl
  rw [hu]
  dsimp only
  rw [if_neg hprotocol]
  split
  · exact ⟨_, rfl⟩
  · rfl

theorem blocked_iff_error (hu : P.parse raw = some u) (hhttp : u.IsHttp) :
    (∃ e, assertPublicHttpUrl P raw = .error e) ↔ isBlockedHost u.host.hostname = true := by
  have h := assert_of_http hu hhttp
  split at h
  · rename_i hblocked
    exact ⟨fun _ => hblocked, fun _ => h⟩
  · rename_i hblocked
    refine ⟨fun ⟨e, he⟩ => ?_, fun hb => absurd hb hblocked⟩
    rw [h] at he
    cases he

/-- Every request is to an address that passed the check, one for each hop at most. -/
theorem requests_guarded (fetchImpl : Nat → String → Option Answer) (url : String) (hops : Nat)
    (address : String) : (fetchFrom P fetchImpl url hops address).1.length ≤ hops ∧
      ∀ r ∈ (fetchFrom P fetchImpl url hops address).1, ∃ u, assertPublicHttpUrl P r = .ok u := by
  induction hops generalizing address with
  | zero => exact ⟨Nat.le_refl _, fun r hr => by cases hr⟩
  | succ hops ih =>
    unfold fetchFrom
    cases hassert : assertPublicHttpUrl P address with
    | error e => exact ⟨Nat.zero_le _, fun r hr => by cases hr⟩
    | ok u =>
      have hone : ([address] : List String).length ≤ hops + 1 ∧
          ∀ r ∈ [address], ∃ u, assertPublicHttpUrl P r = .ok u :=
        ⟨by simp, fun r hr => ⟨u, List.mem_singleton.mp hr ▸ hassert⟩⟩
      dsimp only
      split
      · exact hone
      · split
        · split
          · exact hone
          · split
            · exact hone
            · rename_i next _
              obtain ⟨hlen, hall⟩ := ih next
              refine ⟨Nat.succ_le_succ hlen, fun r hr => ?_⟩
              rcases List.mem_cons.mp hr with rfl | hr
              · exact ⟨u, hassert⟩
              · exact hall r hr
        · exact hone

/-- A name of a zone without the root dot does not end with a dot. -/
theorem not_rootDot {text sub : String} (h : text = "localhost" ∨
    ∃ zone ∈ ["localhost", "internal", "local"], ∃ pre, text = pre ++ "." ++ zone) :
    text ≠ sub ++ "." := by
  intro hdot
  have hlast : text.toList.getLast? = some '.' := by
    rw [hdot, String.toList_append]
    exact List.getLast?_append_cons ..
  rcases h with rfl | ⟨zone, hzone, pre, rfl⟩
  · exact absurd hlast (by decide)
  · simp only [List.mem_cons, List.not_mem_nil, or_false] at hzone
    rw [String.toList_append, List.getLast?_append] at hlast
    rcases hzone with rfl | rfl | rfl
    · exact absurd (show some 't' = some '.' from hlast) (by decide)
    · exact absurd (show some 'l' = some '.' from hlast) (by decide)
    · exact absurd (show some 'l' = some '.' from hlast) (by decide)

theorem insideName_cases (h : InsideName text) :
    (text = "localhost" ∨ ∃ zone ∈ ["localhost", "internal", "local"],
      ∃ sub, text = sub ++ "." ++ zone) ∨ ∃ sub, text = sub ++ "." := by
  rcases h with h | h | ⟨zone, hzone, sub, h | h⟩
  · exact .inl (.inl h)
  · exact .inr ⟨"localhost", h⟩
  · exact .inl (.inr ⟨zone, hzone, sub, h⟩)
  · exact .inr ⟨_, h⟩

theorem insideName_of_zone (h : text = "localhost" ∨
    ∃ zone ∈ ["localhost", "internal", "local"], ∃ sub, text = sub ++ "." ++ zone) :
    InsideName text := by
  rcases h with h | ⟨zone, hzone, sub, h⟩
  · exact .inl h
  · exact .inr (.inr ⟨zone, hzone, sub, .inl h⟩)

/-- What is inside is refused where it is spelled out. -/
theorem blocked_of_inside (hhttp : u.IsHttp) (hspelled : Spelled u) (hinside : Inside u.host) :
    isBlockedHost u.host.hostname = true := by
  cases hhost : u.host with
  | domain name =>
    rw [hhost] at hinside
    refine (isBlockedHost_domain name).mpr ?_
    rcases insideName_cases hinside with hzone | hdot
    · exact .inl hzone
    · exact .inr (hspelled.rootDot name hhost hinside hdot)
  | v4 ip =>
    rw [hhost] at hinside
    exact isBlockedHost_v4 hinside
  | v6 ip =>
    rw [hhost] at hinside
    by_cases hzeros : ∃ x y, ip.pieces = [0, 0, 0, 0, 0, 0, x, y]
    · obtain ⟨x, y, hp⟩ := hzeros
      exact (isBlockedHost_compatible hp).mpr (hspelled.compatible ip x y hhost hp)
    · exact isBlockedHost_v6 hinside fun x y hp => hzeros ⟨x, y, hp⟩
  | opaqueHost text => exact absurd hhost (u.special hhttp text)

/-- **A fetch never leaves for the inside, and refuses no public name, exactly where the host is
spelled out.** -/
theorem guarded_iff : NeverInside P raw ↔ ∀ u, P.parse raw = some u → u.IsHttp → Spelled u := by
  constructor
  · intro h u hu hhttp
    refine ⟨fun name hname hinside hdot => ?_, fun name hname hpublic hlooks => ?_,
      fun ip x y hip hp => ?_⟩
    · have hu_inside := h.refused u hu (by rw [hname]; exact hinside)
      have hblocked := (blocked_iff_error hu hhttp).mp hu_inside
      rw [hname] at hblocked
      obtain ⟨sub, hsub⟩ := hdot
      exact ((isBlockedHost_domain name).mp hblocked).resolve_left fun hzone =>
        not_rootDot hzone hsub
    · have hok := h.answered u hu hhttp name hname hpublic
      have hblocked : isBlockedHost u.host.hostname = true := by
        rw [hname]
        exact (isBlockedHost_domain name).mpr (.inr hlooks)
      obtain ⟨e, he⟩ := (blocked_iff_error hu hhttp).mpr hblocked
      rw [hok] at he
      cases he
    · have hblocked := (blocked_iff_error hu hhttp).mp
        (h.refused u hu (by rw [hip]; exact .compatible x y hp))
      rw [hip] at hblocked
      exact (isBlockedHost_compatible hp).mp hblocked
  · intro h
    refine ⟨fun u hu hinside => ?_, fun u hu hhttp name hname hpublic => ?_,
      fun fetchImpl => requests_guarded fetchImpl raw (MAX_REDIRECTS + 1) raw⟩
    · by_cases hhttp : u.IsHttp
      · exact (blocked_iff_error hu hhttp).mpr (blocked_of_inside hhttp (h u hu hhttp) hinside)
      · have hprotocol : u.protocol ≠ "https:" ∧ u.protocol ≠ "http:" := not_or.mp hhttp
        unfold assertPublicHttpUrl
        rw [hu]
        dsimp only
        rw [if_pos hprotocol]
        exact ⟨_, rfl⟩
    · have hopen : ¬ isBlockedHost u.host.hostname = true := by
        rw [hname]
        intro hblocked
        rcases (isBlockedHost_domain name).mp hblocked with hzone | hlooks
        · exact hpublic (insideName_of_zone hzone)
        · exact (h u hu hhttp).publicName name hname hpublic hlooks
      have hanswer := assert_of_http hu hhttp
      rwa [if_neg hopen] at hanswer

/-- `http://[::]/`: the unspecified address, which connects to the machine itself. -/
def unspecified : Url where
  protocol := "http:"
  host := .v6 ⟨[0, 0, 0, 0, 0, 0, 0, 0], rfl, by decide⟩
  special _ := nofun

/-- A parser that knows this one address. -/
def oneUrl : Parser where
  parse raw := if raw = "http://[::]/" then some unspecified else none
  resolve _ _ := none

theorem unspecified_fetched : ¬ NeverInside oneUrl "http://[::]/" := by
  intro h
  have hrefused := h.refused unspecified rfl (.compatible 0 0 rfl)
  have hblocked := (@blocked_iff_error oneUrl "http://[::]/" unspecified rfl (.inr rfl)).mp hrefused
  exact absurd hblocked (by decide)

end Requests

end Iceslab.GuardedFetch

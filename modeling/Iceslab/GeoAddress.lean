import Iceslab.GeoDat
import Iceslab.Lib.IpText

/-!
# Networks in a rule-set

A network of a geo file is spelled in the rule-set so that its text stands for the same network.

* `bestRun_isRun` — what `formatIp` leaves out is a run of zero groups.
* `readAddress_formatIp` — the text stands for what it was written from.
-/

set_option autoImplicit false

namespace Iceslab

open IpText

/-- A network whose prefix is no longer than its address, as a geo file holds them. -/
def GeoCidr.Valid (c : GeoCidr) : Prop :=
  (c.ip.length = 4 ∨ c.ip.length = 16) ∧ c.prefixLen ≤ 8 * c.ip.length

/-! ## The groups of an address -/

theorem groupsOfBytes_lt (ip : List UInt8) : ∀ g ∈ groupsOfBytes ip, g < 65536 := by
  induction ip using groupsOfBytes.induct with
  | case1 a b rest ih =>
    intro g hg
    obtain rfl | hg := List.mem_cons.mp hg
    · have ha := a.toNat_lt
      have hb := b.toNat_lt
      omega
    · exact ih g hg
  | case2 ip hne =>
    intro g hg
    rw [groupsOfBytes.eq_2 ip hne] at hg
    cases hg

variable {ip : List UInt8}

theorem flatMap_groupBytes (h : ip.length % 2 = 0) :
    (groupsOfBytes ip).flatMap groupBytes = ip := by
  induction ip using groupsOfBytes.induct with
  | case1 a b rest ih =>
    have hb := b.toNat_lt
    have hdiv : (a.toNat * 256 + b.toNat) / 256 = a.toNat := by omega
    have hmod : (a.toNat * 256 + b.toNat) % 256 = b.toNat := by omega
    simp only [List.length_cons] at h
    rw [groupsOfBytes, List.flatMap_cons, ih (by omega), groupBytes, hdiv, hmod,
      UInt8.ofNat_toNat, UInt8.ofNat_toNat]
    rfl
  | case2 ip hne =>
    cases ip with
    | nil => rfl
    | cons a ip =>
      cases ip with
      | nil => simp at h
      | cons b rest => exact absurd rfl (hne a b rest)

theorem length_groupsOfBytes (h : ip.length = 16) : (groupsOfBytes ip).length = 8 := by
  have := length_flatMap_groupBytes (groupsOfBytes ip)
  rw [flatMap_groupBytes (by omega), h] at this
  omega

/-! ## The run left out -/

/-- A run of zero groups, as its place and length. -/
def IsRun (gs : List Nat) (run : Nat × Nat) : Prop :=
  ∃ l r, gs = l ++ List.replicate run.2 0 ++ r ∧ l.length = run.1

theorem zeros_append_drop (gs : List Nat) :
    List.replicate (gs.takeWhile (· = 0)).length 0 ++ gs.drop (gs.takeWhile (· = 0)).length =
      gs := by
  induction gs with
  | nil => rfl
  | cons g gs ih =>
    by_cases hg : g = 0
    · subst hg
      rw [List.takeWhile_cons_of_pos (by rfl), List.length_cons, List.replicate_succ,
        List.cons_append, List.drop_succ_cons, ih]
    · rw [List.takeWhile_cons_of_neg (by simpa using hg)]
      rfl

theorem bestRun_isRun {n i : Nat} {best : Nat × Nat} {whole b gs : List Nat}
    (hbest : IsRun whole best) (hwhole : whole = b ++ gs) (hi : b.length = i) :
    IsRun whole (bestRun n i best gs) := by
  induction n generalizing i best b gs with
  | zero => exact hbest
  | succ n ih =>
    cases gs with
    | nil => exact hbest
    | cons g gs =>
      unfold bestRun
      split
      · refine ih (b := b ++ [g]) hbest ?_ ?_
        · rw [hwhole, List.append_assoc, List.singleton_append]
        · rw [List.length_append, hi]
          rfl
      · have hzeros := zeros_append_drop (g :: gs)
        dsimp only
        refine ih (b := b ++ List.replicate ((g :: gs).takeWhile (· = 0)).length 0)
          ?_ ?_ ?_
        · split
          · refine ⟨b, (g :: gs).drop ((g :: gs).takeWhile (· = 0)).length, ?_, hi⟩
            rw [hwhole, List.append_assoc, hzeros]
          · exact hbest
        · rw [hwhole, List.append_assoc, hzeros]
        · rw [List.length_append, List.length_replicate, hi]

theorem hexGroups_toList (gs : List Nat) : (hexGroups gs).toList = groupsText gs := by
  unfold hexGroups groupsText joined
  rw [String.toList_intercalate, List.map_map]
  congr 1
  refine List.map_congr_left fun g _ => ?_
  exact String.toList_ofList

/-! ## Addresses and networks -/

theorem formatIp_quad (h : ip.length = 4) :
    (formatIp ip).toList = joined '.' (ip.map fun b => Nat.toDigits 10 b.toNat) := by
  unfold formatIp joined
  rw [if_pos h, String.toList_intercalate, List.map_map]
  congr 1
  refine List.map_congr_left fun b _ => ?_
  exact Nat.toList_repr

/-- **An address stands for itself in the text written of it.** -/
theorem readAddress_formatIp (h : ip.length = 4 ∨ ip.length = 16) :
    readAddress (formatIp ip).toList = some ip := by
  obtain h | h := h
  · unfold readAddress
    rw [formatIp_quad h, readQuad_decimals h]
    rfl
  · have hlt := groupsOfBytes_lt ip
    have hlen := length_groupsOfBytes h
    have hbytes : (groupsOfBytes ip).flatMap groupBytes = ip := flatMap_groupBytes (by omega)
    unfold readAddress formatIp
    rw [if_neg (by omega)]
    dsimp only
    split
    · rw [hexGroups_toList, readQuad_eq_none (not_mem_groupsText (by decide) (by decide) _),
        readV6_groups hlt hlen, hbytes]
      rfl
    · rename_i hbest
      have hrun : IsRun (groupsOfBytes ip) (bestRun 8 0 (0, 0) (groupsOfBytes ip)) :=
        bestRun_isRun (b := []) ⟨[], groupsOfBytes ip, rfl, rfl⟩ rfl rfl
      revert hrun hbest
      generalize bestRun 8 0 (0, 0) (groupsOfBytes ip) = run
      intro hbest hrun
      obtain ⟨l, r, hgs, hl⟩ := hrun
      rw [hgs] at hlt hlen hbytes
      have hdrop : (l ++ List.replicate run.2 0 ++ r).drop (run.1 + run.2) = r := by
        rw [← hl]
        exact List.drop_left' (by simp)
      have htake : (l ++ List.replicate run.2 0 ++ r).take run.1 = l := by
        rw [← hl, List.append_assoc, List.take_left]
      have hparts : ∀ g, g ∈ l ∨ g ∈ r → g < 65536 := by
        rintro g (hg | hg)
        · exact hlt g (by simp [hg])
        · exact hlt g (by simp [hg])
      have htext : (hexGroups l ++ "::" ++ hexGroups r).toList =
          groupsText l ++ ':' :: ':' :: groupsText r := by
        rw [String.toList_append, String.toList_append, hexGroups_toList, hexGroups_toList]
        simp
      have hdots : '.' ∉ groupsText l ++ ':' :: ':' :: groupsText r := by
        have hno := fun gs => not_mem_groupsText (c := '.') (by decide) (by decide) gs
        simp [hno]
      simp only [List.length_append, List.length_replicate] at hlen
      rw [hgs, htake, hdrop, htext, readQuad_eq_none hdots,
        readV6_elided (fun g hg => hparts g (.inl hg)) (fun g hg => hparts g (.inr hg)) (by omega)
          hlen, hbytes]
      rfl

end Iceslab

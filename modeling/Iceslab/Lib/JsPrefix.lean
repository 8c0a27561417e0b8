import Iceslab.Lib.JsText

/-!
# Texts that start with a tag

What `startsWith` and `slice` make of a text put together from a tag and the rest, and the
characters of a literal address: none of the usual tags starts one.

* `afterPrefix_append`, `afterPrefix_other` — a tag is taken off, another one is not found.
* `isIP_chars` — before its zone an address has only hexadecimal digits, dots and colons.
-/

set_option autoImplicit false

namespace JsText

variable {c : Char}

section Prefix

variable {pre q s t : String}

theorem afterPrefix_eq_some : afterPrefix pre s = some t ↔ s = pre ++ t := by
  unfold afterPrefix
  split
  · rename_i h
    obtain ⟨rest, hrest⟩ := List.isPrefixOf_iff_prefix.mp h
    rw [← hrest, Option.some.injEq, ← String.length_toList, List.drop_left]
    constructor
    · rintro rfl
      exact String.toList_inj.mp (by simpa using hrest.symm)
    · rintro rfl
      have : pre.toList ++ rest = pre.toList ++ t.toList := by simpa using hrest
      rw [List.append_cancel_left this, String.ofList_toList]
  · rename_i h
    refine ⟨nofun, fun hs => absurd ?_ h⟩
    rw [List.isPrefixOf_iff_prefix, hs, String.toList_append]
    exact List.prefix_append _ _

@[simp] theorem afterPrefix_append : afterPrefix pre (pre ++ t) = some t :=
  afterPrefix_eq_some.mpr rfl

theorem afterPrefix_eq_none : afterPrefix pre s = none ↔ ∀ t, s ≠ pre ++ t := by
  rw [Option.eq_none_iff_forall_ne_some]
  exact forall_congr' fun t => not_congr afterPrefix_eq_some

/-- Of two tags neither of which starts the other, a text has one at most. -/
theorem afterPrefix_other (h : ¬ pre.toList <+: q.toList) (h' : ¬ q.toList <+: pre.toList) :
    afterPrefix pre (q ++ t) = none := by
  refine afterPrefix_eq_none.mpr fun t' ht => ?_
  have hpre : pre.toList <+: (q ++ t).toList := by
    rw [ht, String.toList_append]
    exact List.prefix_append _ _
  have hq : q.toList <+: (q ++ t).toList := by
    rw [String.toList_append]
    exact List.prefix_append _ _
  rcases Nat.le_total pre.toList.length q.toList.length with hle | hle
  · exact h (List.prefix_of_prefix_length_le hpre hq hle)
  · exact h' (List.prefix_of_prefix_length_le hq hpre hle)

theorem afterPrefix_of_notMem (hc : c ∈ pre.toList) (h : c ∉ s.toList) :
    afterPrefix pre s = none := by
  refine afterPrefix_eq_none.mpr fun t ht => h ?_
  rw [ht, String.toList_append]
  exact List.mem_append_left _ hc

end Prefix

/-! ## The characters of an address -/

theorem mem_splitOn_of_mem {c x : Char} {cs : List Char} (hx : x ∈ cs) :
    x = c ∨ ∃ w ∈ cs.splitOn c, x ∈ w := by
  have hjoin : [c].intercalate (cs.splitOn c) = cs := List.intercalate_splitOn c
  generalize cs.splitOn c = words at hjoin
  subst hjoin
  induction words with
  | nil => simp at hx
  | cons w words ih =>
    cases words with
    | nil => exact .inr ⟨w, List.mem_cons_self, by simpa using hx⟩
    | cons w' words =>
      rw [List.intercalate_cons_cons, List.mem_append, List.mem_append] at hx
      rcases hx with (hx | hx) | hx
      · exact .inr ⟨w, List.mem_cons_self, hx⟩
      · exact .inl (List.mem_singleton.mp hx)
      · rcases ih hx with h | ⟨v, hv, hxv⟩
        · exact .inl h
        · exact .inr ⟨v, List.mem_cons_of_mem w hv, hxv⟩

/-- What may stand in an address before its zone. -/
def isAddressChar (c : Char) : Bool := isHex c || c = '.' || c = ':'

theorem isIPv4_chars {s : String} (h : isIPv4 s = true) :
    ∀ c ∈ s.toList, isAddressChar c = true := by
  intro c hc
  unfold isIPv4 at h
  rw [Bool.and_eq_true, List.all_eq_true] at h
  rcases mem_splitOn_of_mem hc (c := '.') with rfl | ⟨w, hw, hcw⟩
  · decide
  · have hoctet := h.2 (String.ofList w) (List.mem_map_of_mem hw)
    simp only [isOctet, isDigits, Bool.and_eq_true, List.all_eq_true, String.toList_ofList]
      at hoctet
    have hdigit := hoctet.1.1.1.2 c hcw
    simp [isAddressChar, isHex, hdigit]

theorem groupCount_chars {v4Tail : Bool} {gs : List String} {n : Nat}
    (h : groupCount v4Tail gs = some n) : ∀ g ∈ gs, ∀ c ∈ g.toList, isAddressChar c = true := by
  have hgroup {g : String} (hg : isGroup g = true) :
      ∀ c ∈ g.toList, isAddressChar c = true := by
    intro c hc
    simp only [isGroup, Bool.and_eq_true, List.all_eq_true] at hg
    simp [isAddressChar, hg.2 c hc]
  induction gs generalizing n with
  | nil => simp
  | cons g gs ih =>
    intro g' hg' c hc
    cases gs with
    | nil =>
      rw [List.mem_singleton.mp hg'] at hc
      rw [groupCount] at h
      split at h
      · rename_i hg
        exact hgroup hg c hc
      · split at h
        · rename_i hv4
          exact isIPv4_chars (Bool.and_eq_true _ _ ▸ hv4).2 c hc
        · cases h
    | cons g₂ gs =>
      rw [groupCount] at h
      · split at h
        · rename_i hg
          rcases List.mem_cons.mp hg' with rfl | hg'
          · exact hgroup hg c hc
          · obtain ⟨k, hk, -⟩ := Option.map_eq_some_iff.mp h
            exact ih hk g' hg' c hc
        · cases h
      · nofun

theorem splitDouble_eq_some {cs l r : List Char} (h : splitDouble cs = some (l, r)) :
    cs = l ++ ':' :: ':' :: r := by
  induction cs using splitDouble.induct generalizing l with
  | case1 rest =>
    rw [splitDouble] at h
    obtain ⟨rfl, rfl⟩ := Prod.mk.inj (Option.some.inj h)
    rfl
  | case2 c rest hne ih =>
    rw [splitDouble] at h
    · obtain ⟨⟨l', r'⟩, hsplit, heq⟩ := Option.map_eq_some_iff.mp h
      obtain ⟨rfl, rfl⟩ := Prod.mk.inj heq
      rw [ih hsplit]
      rfl
    · exact hne
  | case3 => cases h

theorem groupsOf_chars {v4Tail : Bool} {cs : List Char} {n : Nat}
    (h : groupCount v4Tail (groupsOf cs) = some n) : ∀ c ∈ cs, isAddressChar c = true := by
  intro c hc
  have hne : cs ≠ [] := List.ne_nil_of_mem hc
  rw [groupsOf, if_neg hne] at h
  rcases mem_splitOn_of_mem hc (c := ':') with rfl | ⟨w, hw, hcw⟩
  · decide
  · exact groupCount_chars h (String.ofList w) (List.mem_map_of_mem hw) c
      (by rwa [String.toList_ofList])

theorem isIPv6_chars {s : String} (h : isIPv6 s = true) :
    ∀ c ∈ s.toList.takeWhile (· ≠ '%'), isAddressChar c = true := by
  intro c hc
  unfold isIPv6 at h
  simp only [Bool.and_eq_true] at h
  have haddr := h.2
  split at haddr
  · rename_i l r hsplit
    rw [splitDouble_eq_some hsplit] at hc
    split at haddr
    · rename_i a b ha hb
      simp only [List.mem_append, List.mem_cons] at hc
      rcases hc with hc | rfl | rfl | hc
      · exact groupsOf_chars ha c hc
      · decide
      · decide
      · exact groupsOf_chars hb c hc
    · cases haddr
  · exact groupsOf_chars (eq_of_beq haddr) c hc

/-- **Before its zone an address has only hexadecimal digits, dots and colons.** -/
theorem isIP_chars {s : String} (h : isIP s ≠ 0) :
    ∀ c ∈ s.toList.takeWhile (· ≠ '%'), isAddressChar c = true := by
  intro c hc
  unfold isIP at h
  split at h
  · rename_i hv4
    exact isIPv4_chars hv4 c ((List.takeWhile_sublist _).mem hc)
  · split at h
    · rename_i hv6
      exact isIPv6_chars hv6 c hc
    · exact absurd rfl h

theorem isAlphanum_of_isHex (h : isHex c = true) : c.isAlphanum = true := by
  simp only [isHex, Bool.or_eq_true, Bool.and_eq_true, decide_eq_true_eq, Char.isDigit,
    Char.le_def, UInt32.le_iff_toNat_le, ge_iff_le] at h
  unfold Char.isAlphanum Char.isAlpha Char.isUpper Char.isLower Char.isDigit
  simp only [Bool.or_eq_true, Bool.and_eq_true, decide_eq_true_eq, UInt32.le_iff_toNat_le,
    ge_iff_le]
  have ha : 'a'.val.toNat = 97 := rfl
  have hf : 'f'.val.toNat = 102 := rfl
  have hA : 'A'.val.toNat = 65 := rfl
  have hF : 'F'.val.toNat = 70 := rfl
  have hz : 'z'.val.toNat = 122 := rfl
  have hZ : 'Z'.val.toNat = 90 := rfl
  omega

/-- The characters of an address with a zone or without. -/
def isZonedChar (c : Char) : Bool := c.isAlphanum || decide (c ∈ ['.', ':', '-', '%'])

theorem isZonedChar_of_isAddressChar (h : isAddressChar c = true) : isZonedChar c = true := by
  simp only [isAddressChar, Bool.or_eq_true, decide_eq_true_eq] at h
  rcases h with (h | rfl) | rfl
  · simp [isZonedChar, isAlphanum_of_isHex h]
  · decide
  · decide

theorem isIP_chars_all {s : String} (h : isIP s ≠ 0) : ∀ c ∈ s.toList, isZonedChar c = true := by
  intro c hc
  have haddr := isIP_chars h
  rw [← List.takeWhile_append_dropWhile (p := (· ≠ '%')) (l := s.toList)] at hc
  rcases List.mem_append.mp hc with hc | hc
  · exact isZonedChar_of_isAddressChar (haddr c hc)
  · unfold isIP at h
    split at h
    · rename_i hv4
      exact isZonedChar_of_isAddressChar
        (isIPv4_chars hv4 c ((List.dropWhile_sublist _).mem hc))
    · split at h
      · rename_i hv6
        simp only [isIPv6, Bool.and_eq_true, Bool.or_eq_true, decide_eq_true_eq] at hv6
        rcases hv6.1 with hnil | hzone
        · rw [hnil] at hc
          cases hc
        · cases hdrop : s.toList.dropWhile (· ≠ '%') with
          | nil =>
            rw [hdrop] at hc
            cases hc
          | cons d zone =>
            have hd : d = '%' := by
              have := List.head?_dropWhile_not (p := (· ≠ '%')) (l := s.toList)
              rw [hdrop] at this
              simpa using this
            rw [hdrop] at hc
            rw [hdrop, List.tail_cons, isZone, Bool.and_eq_true, List.all_eq_true] at hzone
            rcases List.mem_cons.mp hc with rfl | hc
            · rw [hd]
              decide
            · have := hzone.2 c hc
              simp only [Bool.or_eq_true, decide_eq_true_eq] at this
              rcases this with ((h | rfl) | rfl) | rfl
              · simp [isZonedChar, h]
              · decide
              · decide
              · decide
      · exact absurd rfl h

/-- A text that starts with a tag no address starts with. -/
theorem isIP_append {pre : String} (hc : c ∈ pre.toList)
    (haddr : isAddressChar c = false) (hzone : '%' ∉ pre.toList) (t : String) :
    isIP (pre ++ t) = 0 := by
  by_contra h
  have hmem : c ∈ (pre ++ t).toList.takeWhile (· ≠ '%') := by
    rw [String.toList_append, List.takeWhile_append_of_pos]
    · exact List.mem_append_left _ hc
    · intro d hd
      simpa using fun heq : d = '%' => hzone (heq ▸ hd)
  rw [isIP_chars h c hmem] at haddr
  cases haddr

end JsText

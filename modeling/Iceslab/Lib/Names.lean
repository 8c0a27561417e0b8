import Mathlib.Data.List.Basic

/-!
# Names built from words and numbers

* `intercalate_inj` — joining words by a separator that stands in none of them loses nothing.
* `append_num_inj`, `append_num_dash_inj` — names numbered by one or two decimal numbers are
  different when their numbers are, and `num_ne_num_dash` tells the two kinds apart.
* `append_sep_cases` — how two splits of one text at a separator compare.
-/

set_option autoImplicit false

namespace Names

/-! ## Lists joined by a separator -/

variable {c : Char} {s : String}

theorem splitOn_intercalate {l : List String} (hc : ∀ s ∈ l, c ∉ s.toList) (hl : l ≠ []) :
    ((String.intercalate (String.singleton c) l).toList).splitOn c = l.map String.toList := by
  rw [String.toList_intercalate, String.toList_singleton, List.splitOn_intercalate]
  · simpa using hc
  · simpa using hl

theorem intercalate_inj {l l' : List String} (hl : ∀ s ∈ l, c ∉ s.toList ∧ s ≠ "")
    (hl' : ∀ s ∈ l', c ∉ s.toList ∧ s ≠ "")
    (h : String.intercalate (String.singleton c) l = String.intercalate (String.singleton c) l') :
    l = l' := by
  have hsplit := congrArg (fun s => s.toList.splitOn c) h
  by_cases hn : l = []
  · by_cases hn' : l' = []
    · rw [hn, hn']
    · -- a non-empty list of non-empty words does not join to the empty word
      simp only [splitOn_intercalate (fun s hs => (hl' s hs).1) hn', hn] at hsplit
      cases l' with
      | nil => exact absurd rfl hn'
      | cons w ws =>
        simp at hsplit
        exact absurd hsplit.1.symm (Ne.symm (hl' w List.mem_cons_self).2)
  · by_cases hn' : l' = []
    · simp only [splitOn_intercalate (fun s hs => (hl s hs).1) hn, hn'] at hsplit
      cases l with
      | nil => exact absurd rfl hn
      | cons w ws =>
        simp at hsplit
        exact absurd hsplit.1 (hl w List.mem_cons_self).2
    · simp only [splitOn_intercalate (fun s hs => (hl s hs).1) hn,
        splitOn_intercalate (fun s hs => (hl' s hs).1) hn'] at hsplit
      exact List.map_injective_iff.mpr (fun a b h => String.toList_inj.mp h) hsplit

/-! ## Numbered names -/

theorem not_mem_num (hc : c.isDigit = false) (n : Nat) : c ∉ (toString n).toList := by
  intro h
  rw [Nat.toString_eq_repr, Nat.toList_repr] at h
  have := Nat.isDigit_of_mem_toDigits (by decide) (by decide) h
  rw [hc] at this
  cases this

theorem num_ne_empty (n : Nat) : toString n ≠ "" := Nat.repr_ne_empty

theorem toList_int (n : Int) : (toString n).toList = Nat.toDigits 10 n.natAbs ∧ 0 ≤ n ∨
    (toString n).toList = '-' :: Nat.toDigits 10 n.natAbs := by
  cases n with
  | ofNat n =>
    refine .inl ⟨?_, Int.natCast_nonneg n⟩
    rw [show toString (Int.ofNat n) = toString n from rfl, Nat.toString_eq_repr, Nat.toList_repr]
    rfl
  | negSucc n =>
    right
    rw [show toString (Int.negSucc n) = "-" ++ toString (n + 1) from rfl, String.toList_append,
      Nat.toString_eq_repr, Nat.toList_repr]
    rfl

theorem int_chars (n : Int) : ∀ c ∈ (toString n).toList, c.isDigit = true ∨ c = '-' := by
  have hdigit : ∀ c ∈ Nat.toDigits 10 n.natAbs, c.isDigit = true := fun c hc =>
    Nat.isDigit_of_mem_toDigits (by decide) (by decide) hc
  intro c hc
  rcases toList_int n with ⟨hn, -⟩ | hn <;> rw [hn] at hc
  · exact .inl (hdigit c hc)
  · rcases List.mem_cons.mp hc with rfl | hc
    · exact .inr rfl
    · exact .inl (hdigit c hc)

theorem int_ne_nil (n : Int) : (toString n).toList ≠ [] := by
  rcases toList_int n with ⟨hn, -⟩ | hn <;> rw [hn]
  · exact Nat.toDigits_ne_nil
  · exact List.cons_ne_nil _ _

theorem num_inj {m n : Nat} (h : toString m = toString n) : m = n := by
  have := congrArg (fun s => Nat.ofDigitChars 10 s.toList 0) h
  simpa using this

theorem append_num_inj {m n : Nat} (h : s ++ toString m = s ++ toString n) : m = n := by
  have := congrArg String.toList h
  simp only [String.toList_append, List.append_cancel_left_eq] at this
  exact num_inj (String.toList_inj.mp this)

/-- Two splits of one list at a separator are the same, or the one with the longer front has the
separator in it. -/
theorem append_sep_cases {l₁ l₂ r₁ r₂ : List Char} (h : l₁ ++ c :: r₁ = l₂ ++ c :: r₂) :
    (l₁ = l₂ ∧ r₁ = r₂) ∨ (∃ m, l₂ = l₁ ++ c :: m ∧ r₁ = m ++ c :: r₂)
      ∨ ∃ m, l₁ = l₂ ++ c :: m ∧ r₂ = m ++ c :: r₁ := by
  rcases List.append_eq_append_iff.mp h with ⟨m, hl, hr⟩ | ⟨m, hl, hr⟩
  · cases m with
    | nil => exact .inl ⟨by rw [hl, List.append_nil], (List.cons.inj hr).2⟩
    | cons x m =>
      obtain ⟨rfl, htail⟩ := List.cons.inj hr
      exact .inr (.inl ⟨m, hl, htail⟩)
  · cases m with
    | nil => exact .inl ⟨by rw [hl, List.append_nil], (List.cons.inj hr).2.symm⟩
    | cons x m =>
      obtain ⟨rfl, htail⟩ := List.cons.inj hr
      exact .inr (.inr ⟨m, hl, htail⟩)

/-- Up to the first separator, and from it on. -/
theorem append_sep_inj {l₁ l₂ r₁ r₂ : List Char} (h₁ : c ∉ l₁) (h₂ : c ∉ l₂)
    (h : l₁ ++ c :: r₁ = l₂ ++ c :: r₂) : l₁ = l₂ ∧ r₁ = r₂ := by
  rcases append_sep_cases h with hsame | ⟨m, rfl, -⟩ | ⟨m, rfl, -⟩
  · exact hsame
  · exact absurd (List.mem_append_right l₁ List.mem_cons_self) h₂
  · exact absurd (List.mem_append_right l₂ List.mem_cons_self) h₁

theorem append_num_dash_inj {m n i j : Nat}
    (h : s ++ toString m ++ "-" ++ toString i = s ++ toString n ++ "-" ++ toString j) :
    m = n ∧ i = j := by
  have := congrArg String.toList h
  simp only [String.toList_append, List.append_assoc, List.append_cancel_left_eq] at this
  obtain ⟨hm, hi⟩ := append_sep_inj (not_mem_num (by decide) m) (not_mem_num (by decide) n) this
  exact ⟨num_inj (String.toList_inj.mp hm), num_inj (String.toList_inj.mp hi)⟩

theorem num_ne_num_dash {m n i : Nat} : s ++ toString m ≠ s ++ toString n ++ "-" ++ toString i := by
  intro h
  have := congrArg String.toList h
  simp only [String.toList_append, List.append_assoc, List.append_cancel_left_eq] at this
  refine not_mem_num (c := '-') (by decide) m ?_
  rw [this]
  simp

end Names

import Iceslab.Lib.JsPrefix

/-!
# Settings in sections

Files of `key = value` lines under `[Section]` headers, as `wg-quick` reads them.  A value is taken as
it is written, so two readers that trim it alike read the same of equal values.

* `sectionLines`, `value` — the lines of a section, and the setting of a key in them.
* `sectionLines_unlines` — what was written as a section is read as one, whatever follows it.
* `value_map`, `value_section` — the settings of lines written from pairs, and of a section of them.
* `Carries`, `param_eq` — lists of settings that leave out what is the default anyway say the same.
-/

set_option autoImplicit false

namespace IniText

/-! ## Reading -/

/-- `key = value` -/
def lineOf (kv : String × String) : String := kv.1 ++ " = " ++ kv.2

/-- The lines from a header to the next. -/
def sectionLines (header text : String) : List String :=
  (((JsText.split '\n' text).dropWhile (· ≠ header)).drop 1).takeWhile fun l =>
    l.toList.head? ≠ some '['

/-- The first line that sets the key. -/
def value (lines : List String) (key : String) : Option String :=
  lines.findSome? (JsText.afterPrefix (key ++ " = "))

/-- Every line with its break. -/
def unlines (lines : List String) : String := String.join (lines.map (· ++ "\n"))

/-! ## Texts -/

variable {kv : String × String}

section Texts

variable {lines rest : List String} {header : String}

def NoBreak (s : String) : Prop := '\n' ∉ s.toList

theorem NoBreak.append {s t : String} (hs : NoBreak s) (ht : NoBreak t) : NoBreak (s ++ t) := by
  intro h
  rw [String.toList_append, List.mem_append] at h
  exact h.elim hs ht

theorem noBreak_lineOf (hk : NoBreak kv.1) (hv : NoBreak kv.2) : NoBreak (lineOf kv) :=
  (hk.append (by unfold NoBreak; decide)).append hv

theorem toList_unlines (lines : List String) :
    (unlines lines).toList = lines.flatMap fun l => l.toList ++ ['\n'] := by
  rw [unlines, String.toList_join, List.flatMap_map]
  congr 1
  funext l
  rw [String.toList_append]
  rfl

theorem unlines_append (lines rest : List String) :
    unlines (lines ++ rest) = unlines lines ++ unlines rest := by
  rw [← String.toList_inj, String.toList_append, toList_unlines, toList_unlines, toList_unlines,
    List.flatMap_append]

theorem split_unlines (h : ∀ l ∈ lines, NoBreak l) (rest : String) :
    JsText.split '\n' (unlines lines ++ rest) = lines ++ JsText.split '\n' rest := by
  induction lines with
  | nil => simp [unlines]
  | cons l lines ih =>
    obtain ⟨hl, hlines⟩ := List.forall_mem_cons.mp h
    have hrest := ih hlines
    unfold JsText.split at hrest ⊢
    rw [String.toList_append, toList_unlines, List.flatMap_cons, ← toList_unlines] at *
    rw [List.append_assoc, List.append_assoc, List.singleton_append,
      List.splitOn_append_cons_self_of_not_mem hl, List.map_cons, String.ofList_toList,
      List.cons_append, ← hrest]

/-- `lines.join('\n') + '\n'` -/
theorem join_unlines (hne : lines ≠ []) : String.intercalate "\n" lines ++ "\n" = unlines lines := by
  induction lines with
  | nil => exact absurd rfl hne
  | cons l lines ih =>
    cases lines with
    | nil => simp [unlines]
    | cons l' lines =>
      have hrest := ih (by simp)
      rw [← String.toList_inj] at hrest ⊢
      rw [String.toList_append, String.toList_intercalate] at hrest ⊢
      rw [toList_unlines, List.flatMap_cons, ← toList_unlines, ← hrest]
      simp [List.intercalate]

/-- A section written is read, up to the header that follows it. -/
theorem sectionLines_unlines (hheader : NoBreak header)
    (hlines : ∀ l ∈ lines, NoBreak l ∧ l.toList.head? ≠ some '[')
    (hrest : rest = [] ∨ ∃ next more, rest = next :: more ∧ NoBreak next ∧
      next.toList.head? = some '[') :
    ∃ blank, sectionLines header (unlines (header :: lines ++ rest)) = lines ++ blank ∧
      ∀ l ∈ blank, l = "" := by
  have hclean : ∀ l ∈ header :: lines, NoBreak l :=
    List.forall_mem_cons.mpr ⟨hheader, fun l hl => (hlines l hl).1⟩
  have htake (more : List String) : (lines ++ more).takeWhile (fun l => l.toList.head? ≠ some '[') =
      lines ++ more.takeWhile fun l => l.toList.head? ≠ some '[' :=
    List.takeWhile_append_of_pos fun l hl => by simpa using (hlines l hl).2
  unfold sectionLines
  rw [unlines_append, split_unlines hclean, List.cons_append, List.dropWhile_cons_of_neg (by simp),
    List.drop_succ_cons, List.drop_zero, htake]
  rcases hrest with rfl | ⟨next, more, rfl, hnext, hhead⟩
  · refine ⟨_, rfl, fun l hl => ?_⟩
    have hmem := List.takeWhile_sublist _ |>.subset hl
    simpa [unlines, JsText.split] using hmem
  · refine ⟨[], ?_, fun _ h => by cases h⟩
    have hsplit : JsText.split '\n' (unlines (next :: more)) =
        next :: JsText.split '\n' (unlines more) := by
      have := split_unlines (by simpa using hnext : ∀ l ∈ [next], NoBreak l) (unlines more)
      rwa [← unlines_append] at this
    rw [hsplit, List.takeWhile_cons_of_neg (by simpa using hhead)]

end Texts

/-! ## Settings -/

section Settings

variable {kvs : List (String × String)} {key : String}

/-- A key of one word is found where it is the key. -/
theorem afterPrefix_lineOf (hkey : ' ' ∉ key.toList) (hk : ' ' ∉ kv.1.toList) :
    JsText.afterPrefix (key ++ " = ") (lineOf kv) = if key = kv.1 then some kv.2 else none := by
  split
  · rename_i h
    rw [lineOf, h]
    exact JsText.afterPrefix_append
  · rename_i h
    rw [JsText.afterPrefix_eq_none]
    intro t ht
    refine h ?_
    have hword {w : String} (hw : ' ' ∉ w.toList) (u : String) :
        (w ++ " = " ++ u).toList.takeWhile (· ≠ ' ') = w.toList := by
      rw [String.toList_append, String.toList_append, List.append_assoc]
      exact JsText.takeWhile_ne hw _
    have heq : (lineOf kv).toList.takeWhile (· ≠ ' ') =
        (key ++ " = " ++ t).toList.takeWhile (· ≠ ' ') := by rw [ht]
    rw [lineOf, hword hk, hword hkey] at heq
    exact (String.toList_inj.mp heq).symm

theorem value_map (hkey : ' ' ∉ key.toList) (hkvs : ∀ kv ∈ kvs, ' ' ∉ kv.1.toList) :
    value (kvs.map lineOf) key = kvs.lookup key := by
  induction kvs with
  | nil => rfl
  | cons kv kvs ih =>
    obtain ⟨hkv, hrest⟩ := List.forall_mem_cons.mp hkvs
    have hline := afterPrefix_lineOf hkey hkv
    unfold value at ih ⊢
    rw [List.map_cons, List.findSome?_cons, hline, List.lookup_cons, ih hrest]
    by_cases h : key = kv.1
    · simp [h]
    · have hne : (key == kv.1) = false := by simpa using h
      simp [h, hne]

theorem value_append_blank {lines blank : List String} (h : ∀ l ∈ blank, l = "") (key : String) :
    value (lines ++ blank) key = value lines key := by
  have hblank : value blank key = none := by
    rw [value, List.findSome?_eq_none_iff]
    intro l hl
    rw [h l hl, JsText.afterPrefix_eq_none]
    intro t ht
    have := congrArg (fun s => s.toList.length) ht
    simp at this
  unfold value at hblank ⊢
  rw [List.findSome?_append, hblank, Option.or_none]

/-- A word that begins no header. -/
def IsWord (k : String) : Prop :=
  k ≠ "" ∧ ' ' ∉ k.toList ∧ NoBreak k ∧ k.toList.head? ≠ some '['

instance (k : String) : Decidable (IsWord k) := by
  unfold IsWord NoBreak
  infer_instance

theorem head?_lineOf (h : IsWord kv.1) : (lineOf kv).toList.head? ≠ some '[' := by
  have hne : kv.1.toList ≠ [] := by simpa using h.1
  rw [lineOf, String.toList_append, String.toList_append, List.append_assoc,
    List.head?_append_of_ne_nil _ hne]
  exact h.2.2.2

/-- **A section written from pairs is read as them**, whether the file ends there or a blank line and
the next header follow. -/
theorem value_section {header : String} {rest : List String} (hheader : NoBreak header)
    (hkey : ' ' ∉ key.toList) (hkvs : ∀ kv ∈ kvs, IsWord kv.1 ∧ NoBreak kv.2)
    (hrest : rest = [] ∨ ∃ next more, rest = "" :: next :: more ∧ NoBreak next ∧
      next.toList.head? = some '[') :
    value (sectionLines header (unlines (header :: kvs.map lineOf ++ rest))) key =
      kvs.lookup key := by
  have hlines : ∀ l ∈ kvs.map lineOf, NoBreak l ∧ l.toList.head? ≠ some '[' := by
    intro l hl
    obtain ⟨kv, hkv, rfl⟩ := List.mem_map.mp hl
    obtain ⟨hword, hvalue⟩ := hkvs kv hkv
    exact ⟨noBreak_lineOf hword.2.2.1 hvalue, head?_lineOf hword⟩
  have hread : value (kvs.map lineOf) key = kvs.lookup key :=
    value_map hkey fun kv hkv => (hkvs kv hkv).1.2.1
  rcases hrest with rfl | ⟨next, more, rfl, hnext, hhead⟩
  · obtain ⟨blank, hsection, hblank⟩ := sectionLines_unlines hheader hlines (.inl rfl)
    rw [hsection, value_append_blank hblank, hread]
  · have hlines' : ∀ l ∈ kvs.map lineOf ++ [""], NoBreak l ∧ l.toList.head? ≠ some '[' := by
      intro l hl
      rcases List.mem_append.mp hl with hl | hl
      · exact hlines l hl
      · rw [List.mem_singleton.mp hl]
        exact ⟨by unfold NoBreak; decide, by decide⟩
    obtain ⟨blank, hsection, hblank⟩ := sectionLines_unlines hheader hlines'
      (.inr ⟨next, more, rfl, hnext, hhead⟩)
    have hassoc : header :: kvs.map lineOf ++ "" :: next :: more =
        header :: (kvs.map lineOf ++ [""]) ++ next :: more := by simp
    rw [hassoc, hsection, value_append_blank hblank,
      value_append_blank (by simp), hread]

end Settings

/-! ## Defaults -/

section Defaults

variable (absent : String → Option String) {kvs full : List (String × String)} {key : String}

/-- The setting of a key, or what its absence means. -/
def param (key : String) (found : Option String) : Option String := found.or (absent key)

variable (keys : List String)

/-- The settings of some keys, but for what its absence says already. -/
structure Carries (kvs full : List (String × String)) : Prop where
  only : ∀ kv ∈ kvs, kv.1 ∈ keys → kv ∈ full
  all : ∀ kv ∈ full, kv ∈ kvs ∨ absent kv.1 = some kv.2

variable {absent keys} {others : List (String × String)}

theorem Carries.cons (h : Carries absent keys kvs full) (hkv : kv.1 ∉ keys) :
    Carries absent keys (kv :: kvs) full :=
  ⟨List.forall_mem_cons.mpr ⟨fun hmem => absurd hmem hkv, h.only⟩,
    fun kv hkv => (h.all kv hkv).imp_left (List.mem_cons_of_mem _)⟩

theorem Carries.append (h : Carries absent keys kvs full)
    (hothers : ∀ kv ∈ others, kv.1 ∉ keys) : Carries absent keys (kvs ++ others) full := by
  refine ⟨fun kv hkv hmem => ?_, fun kv hkv => (h.all kv hkv).imp_left (List.mem_append_left _)⟩
  rcases List.mem_append.mp hkv with hkv | hkv
  · exact h.only kv hkv hmem
  · exact absurd hmem (hothers kv hkv)

theorem Carries.prepend (h : Carries absent keys kvs full)
    (hothers : ∀ kv ∈ others, kv.1 ∉ keys) : Carries absent keys (others ++ kvs) full := by
  refine ⟨fun kv hkv hmem => ?_, fun kv hkv => (h.all kv hkv).imp_left (List.mem_append_right _)⟩
  rcases List.mem_append.mp hkv with hkv | hkv
  · exact absurd hmem (hothers kv hkv)
  · exact h.only kv hkv hmem

theorem Carries.refl (kvs : List (String × String)) : Carries absent keys kvs kvs :=
  ⟨fun _ hkv _ => hkv, fun _ hkv => .inl hkv⟩

theorem Carries.append_both {kvs' full' : List (String × String)} (h : Carries absent keys kvs full)
    (h' : Carries absent keys kvs' full') : Carries absent keys (kvs ++ kvs') (full ++ full') := by
  refine ⟨fun kv hkv hmem => ?_, fun kv hkv => ?_⟩
  · rcases List.mem_append.mp hkv with hkv | hkv
    · exact List.mem_append_left _ (h.only kv hkv hmem)
    · exact List.mem_append_right _ (h'.only kv hkv hmem)
  · rcases List.mem_append.mp hkv with hkv | hkv
    · exact (h.all kv hkv).imp_left (List.mem_append_left _)
    · exact (h'.all kv hkv).imp_left (List.mem_append_right _)

/-- The order of the settings does not matter. -/
theorem Carries.perm {kvs' : List (String × String)} (h : Carries absent keys kvs full)
    (hperm : kvs.Perm kvs') : Carries absent keys kvs' full :=
  ⟨fun kv hkv => h.only kv (hperm.mem_iff.mpr hkv),
    fun kv hkv => (h.all kv hkv).imp_left hperm.mem_iff.mp⟩

theorem mem_of_lookup {v : String} (h : kvs.lookup key = some v) : (key, v) ∈ kvs := by
  induction kvs with
  | nil => cases h
  | cons kv kvs ih =>
    rw [List.lookup_cons] at h
    split at h
    · rename_i heq
      cases h
      rw [beq_iff_eq.mp heq]
      exact List.mem_cons_self
    · exact List.mem_cons_of_mem _ (ih h)

theorem lookup_eq_none (h : ∀ kv ∈ kvs, kv.1 ≠ key) : kvs.lookup key = none := by
  cases hl : kvs.lookup key with
  | none => rfl
  | some v => exact absurd rfl (h _ (mem_of_lookup hl))

theorem lookup_isSome {v : String} (h : (key, v) ∈ kvs) : ∃ w, kvs.lookup key = some w := by
  cases hl : kvs.lookup key with
  | some w => exact ⟨w, rfl⟩
  | none =>
    exfalso
    induction kvs with
    | nil => cases h
    | cons kv kvs ih =>
      rw [List.lookup_cons] at hl
      split at hl
      · cases hl
      · rename_i hne
        rcases List.mem_cons.mp h with rfl | h
        · simp at hne
        · exact ih h hl

/-- **Settings that carry a list say of its keys what the list says.** -/
theorem param_eq (hfull : (full.map Prod.fst).Nodup) (h : Carries absent keys kvs full)
    (hkey : key ∈ keys) :
    param absent key (kvs.lookup key) = param absent key (full.lookup key) := by
  have hunique {v w : String} (hv : (key, v) ∈ full) (hw : (key, w) ∈ full) : v = w := by
    have := List.inj_on_of_nodup_map hfull hv hw rfl
    exact congrArg Prod.snd this
  unfold param
  cases hl : kvs.lookup key with
  | some v =>
    have hv := h.only _ (mem_of_lookup hl) hkey
    obtain ⟨w, hw⟩ := lookup_isSome hv
    rw [hw, hunique hv (mem_of_lookup hw)]
  | none =>
    cases hf : full.lookup key with
    | none => rfl
    | some w =>
      rcases h.all _ (mem_of_lookup hf) with hmem | habsent
      · obtain ⟨_, hsome⟩ := lookup_isSome hmem
        rw [hl] at hsome
        cases hsome
      · rw [Option.none_or, Option.some_or, habsent]

end Defaults

end IniText

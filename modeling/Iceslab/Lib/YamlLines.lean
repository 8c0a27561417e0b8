import Iceslab.Lib.IniText
import Iceslab.Lib.Paired
import Iceslab.Lib.YamlText

/-!
# Lines of block YAML

What a text put together from lines is read as.

* `scalar_plain`, `lineRows_plain`, `lineRows_key` — one line, with a plain string as its value.
* `forest_append`, `forest_section` — what stands under a line.
* `Reads`, `Reads.read` — lines that read as entries of the document, put together section by
  section.
-/

set_option autoImplicit false

namespace YamlText

variable (d : Dialect) {rows : List Row} {c : Char} {n : Node}

/-! ## Texts of few characters -/

theorem endsKey_of_notMem {s : List Char} (h : ':' ∉ s) : endsKey s = false := by
  induction s with
  | nil => rfl
  | cons c rest ih =>
    have hc : c ≠ ':' := fun hc => h (hc ▸ List.mem_cons_self)
    rw [endsKey, ih fun hmem => h (List.mem_cons_of_mem _ hmem), decide_eq_false hc]
    rfl

/-- Without blanks only the end can end a key. -/
theorem endsKey_of_noBlank {s : List Char} (h : ∀ c ∈ s, isBlank c = false)
    (hlast : s.getLast? ≠ some ':') : endsKey s = false := by
  induction s with
  | nil => rfl
  | cons c rest ih =>
    have hrest := fun c hc => h c (List.mem_cons_of_mem _ hc)
    cases rest with
    | nil =>
      have hc : c ≠ ':' := fun hc => hlast (by rw [hc]; rfl)
      rw [endsKey, decide_eq_false hc]
      rfl
    | cons c' rest' =>
      rw [endsKey, ih hrest (by rwa [List.getLast?_cons_cons] at hlast)]
      simp [h c' (List.mem_cons_of_mem _ List.mem_cons_self)]

theorem hasComment_of_notMem {s : List Char} (h : '#' ∉ s) : hasComment s = false := by
  induction s with
  | nil => rfl
  | cons c rest ih =>
    have hhead : rest.head? ≠ some '#' := fun hc =>
      h (List.mem_cons_of_mem _ (List.mem_of_mem_head? hc))
    rw [hasComment, ih fun hmem => h (List.mem_cons_of_mem _ hmem), decide_eq_false hhead]
    simp

/-- A text of one line. -/
def Dialect.OneLine (d : Dialect) (s : String) : Prop := ∀ c ∈ s.toList, d.isBreak c = false

theorem Dialect.OneLine.append {d : Dialect} {s t : String} (hs : d.OneLine s) (ht : d.OneLine t) :
    d.OneLine (s ++ t) := by
  intro c hc
  rw [String.toList_append, List.mem_append] at hc
  exact hc.elim (hs c) (ht c)

theorem isInline_of_ascii (h : 0x20 ≤ c.toNat) (h' : c.toNat ≤ 0x7e) : d.isInline c = true := by
  have hbreak : d.isBreak c = false := by
    unfold Dialect.isBreak
    simp only [Bool.or_eq_false_iff, decide_eq_false_iff_not]
    refine ⟨⟨?_, ?_⟩, fun hc => ?_⟩
    · rintro rfl
      revert h
      decide
    · rintro rfl
      revert h
      decide
    · have hwide := d.wide c hc
      omega
  rw [Dialect.isInline, hbreak, isPrintable]
  simp [h, h']

/-- Printable ASCII alone. -/
def IsAscii (s : String) : Prop := ∀ c ∈ s.toList, 0x20 ≤ c.toNat ∧ c.toNat ≤ 0x7e

instance (s : String) : Decidable (IsAscii s) := List.decidableBAll _ s.toList

theorem oneLine_of_ascii {s : String} (h : IsAscii s) : d.OneLine s := by
  intro c hc
  have hinline := isInline_of_ascii d (h c hc).1 (h c hc).2
  rw [Dialect.isInline, Bool.and_eq_true, Bool.not_eq_true'] at hinline
  exact hinline.2

theorem plain_of_ascii {s : String} (h : IsAscii s) (h12 : Plain .yaml12 s) : Plain d s :=
  ⟨List.all_eq_true.mpr fun c hc => isInline_of_ascii d (h c hc).1 (h c hc).2, h12.starts, h12.ends,
    h12.noKey, h12.noComment, h12.untyped⟩

/-! ## Plain strings are read -/

section Lines

variable {d} {s : String} {k v : List Char} {col : Nat}

theorem cutComment_eq_self {v : List Char} (h : hasComment v = false) : cutComment v = v := by
  induction v with
  | nil => rfl
  | cons c rest ih =>
    rw [hasComment, Bool.or_eq_false_iff] at h
    rw [cutComment, h.1, ih h.2]
    rfl

theorem head_of_startsPlain {s : List Char} (h : startsPlain s = true) :
    ∃ c rest, s = c :: rest ∧ isBlank c = false ∧ c ≠ '#' ∧
      ¬(c = '-' ∧ rest.head?.all (· = ' ') = true) := by
  cases s with
  | nil => cases h
  | cons c rest =>
    rw [startsPlain, Bool.and_eq_true, Bool.or_eq_true, Bool.not_eq_true', Bool.not_eq_true'] at h
    obtain ⟨hblank, hkind⟩ := h
    refine ⟨c, rest, rfl, hblank, ?_, ?_⟩
    · rintro rfl
      rcases hkind with hkind | hkind
      · revert hkind
        decide
      · rw [Bool.and_eq_true] at hkind
        exact absurd hkind.1 (by decide)
    · rintro ⟨rfl, hrest⟩
      rcases hkind with hkind | hkind
      · revert hkind
        decide
      · rw [Bool.and_eq_true] at hkind
        cases rest with
        | nil => cases hkind.2
        | cons c' rest =>
          obtain rfl : c' = ' ' := by simpa using hrest
          exact absurd hkind.2 (by simp [isBlank])

theorem tidy_plain (h : Plain d s) : tidy s.toList = s.toList := by
  obtain ⟨c, rest, hs, hblank, -, -⟩ := head_of_startsPlain h.starts
  unfold tidy
  rw [cutComment_eq_self h.noComment]
  have hdrop : s.toList.dropWhile isBlank = s.toList := by
    rw [hs, List.dropWhile_cons, hblank]
    rfl
  rw [hdrop, List.rdropWhile_eq_self_iff]
  intro hne hlast
  have hends := h.ends _ (List.getLast?_eq_some_getLast hne)
  rw [hlast] at hends
  cases hends

/-- A value stands after one blank. -/
theorem tidy_cons (h : Plain d s) : tidy (' ' :: s.toList) = s.toList := by
  obtain ⟨c, rest, hs, -, hhash, -⟩ := head_of_startsPlain h.starts
  have hcut : cutComment (' ' :: s.toList) = ' ' :: cutComment s.toList := by
    rw [cutComment, if_neg]
    rw [hs]
    simpa using fun _ => hhash
  have htidy := tidy_plain h
  unfold tidy at htidy ⊢
  rw [hcut, List.dropWhile_cons]
  exact htidy

theorem scalar_plain (h : Plain d s) : scalar d s.toList = some (.str s) := by
  obtain ⟨c, rest, hs, -⟩ := head_of_startsPlain h.starts
  unfold scalar
  rw [if_neg (by rw [hs]; exact List.cons_ne_nil _ _), if_neg (by rw [h.starts]; decide),
    if_neg (by rw [h.noKey, h.inline]; decide), if_neg (by rw [h.untyped]; decide),
    String.ofList_toList]

theorem Plain.oneLine (h : Plain d s) : ∀ c ∈ s.toList, d.isBreak c = false := by
  intro c hc
  have hinline := List.all_eq_true.mp h.inline c hc
  rw [Dialect.isInline, Bool.and_eq_true, Bool.not_eq_true'] at hinline
  exact hinline.2

/-! ### Rows -/

theorem splitKey_eq_none {s : List Char} (h : endsKey s = false) : splitKey s = none := by
  induction s with
  | nil => rfl
  | cons c rest ih =>
    rw [endsKey, Bool.or_eq_false_iff] at h
    rw [splitKey, h.1, ih h.2]
    rfl

theorem lineRows_plain (h : Plain d s) (col : Nat) :
    lineRows col s.toList = [⟨col, .plain s.toList⟩] := by
  obtain ⟨c, rest, hs, hblank, hhash, hdash⟩ := head_of_startsPlain h.starts
  have hspace : c ≠ ' ' := by
    rintro rfl
    cases hblank
  have hcontent : content s.toList = .plain s.toList := by
    unfold content
    rw [splitKey_eq_none h.noKey]
  rw [hs] at hcontent ⊢
  rw [lineRows, if_neg hspace, if_neg hhash, if_neg (by simpa using hdash), hcontent]

/-- Letters alone. -/
def IsWord (k : List Char) : Prop := k ≠ [] ∧ ∀ c ∈ k, c.isAlpha = true

instance (k : List Char) : Decidable (IsWord k) :=
  letI := List.decidableBAll (fun c : Char => c.isAlpha = true) k
  inferInstanceAs (Decidable (_ ∧ _))

theorem isIndicator_of_isAlpha (h : c.isAlpha = true) : isIndicator c = false := by
  have hlist : ∀ c ∈ "-?:,[]\x7b\x7d#&*!|>\x27\x22%@\x60".toList, c.isAlpha = false := by decide
  unfold isIndicator
  rw [decide_eq_false_iff_not]
  intro hc
  rw [hlist c hc] at h
  cases h

theorem isBlank_of_isAlpha (h : c.isAlpha = true) : isBlank c = false := by
  unfold isBlank
  rw [Bool.or_eq_false_iff, decide_eq_false_iff_not, decide_eq_false_iff_not]
  constructor <;> rintro rfl <;> revert h <;> decide

theorem splitKey_word (hk : ∀ c ∈ k, c.isAlpha = true) (hv : v.head?.all isBlank = true) :
    splitKey (k ++ ':' :: v) = some (k, v) := by
  induction k with
  | nil => rw [List.nil_append, splitKey, hv]; rfl
  | cons c rest ih =>
    have hcolon : c ≠ ':' := by
      rintro rfl
      exact absurd (hk _ List.mem_cons_self) (by decide)
    rw [List.cons_append, splitKey, ih fun c hc => hk c (List.mem_cons_of_mem _ hc)]
    simp [hcolon]

theorem hasComment_word (hk : ∀ c ∈ k, c.isAlpha = true) : hasComment k = false := by
  induction k with
  | nil => rfl
  | cons c rest ih =>
    rw [hasComment, isBlank_of_isAlpha (hk _ List.mem_cons_self),
      ih fun c hc => hk c (List.mem_cons_of_mem _ hc)]
    rfl

theorem lineRows_key (hk : IsWord k) (hv : v.head?.all isBlank = true) (col : Nat) :
    lineRows col (k ++ ':' :: v) = [⟨col, .key k v⟩] := by
  obtain ⟨hne, hk⟩ := hk
  have hsplit := splitKey_word hk hv
  have hcomment := hasComment_word hk
  cases k with
  | nil => exact absurd rfl hne
  | cons c rest =>
    have hc := hk c List.mem_cons_self
    have hother : ∀ c' : Char, c'.isAlpha = false → c ≠ c' := by
      rintro _ hc' rfl
      rw [hc'] at hc
      cases hc
    have hstarts : startsPlain (c :: (rest ++ ':' :: v)) = true := by
      rw [startsPlain, isBlank_of_isAlpha hc, isIndicator_of_isAlpha hc]
      rfl
    have hcontent : content (c :: (rest ++ ':' :: v)) = .key (c :: rest) v := by
      unfold content
      rw [List.cons_append] at hsplit
      rw [hsplit, hstarts]
      dsimp only
      rw [hcomment]
      rfl
    rw [List.cons_append, lineRows, if_neg (hother _ (by decide)), if_neg (hother _ (by decide)),
      if_neg (by simp [hother '-' (by decide)]), hcontent]

theorem lineRows_indent (n col : Nat) (cs : List Char) :
    lineRows col (List.replicate n ' ' ++ cs) = lineRows (col + n) cs := by
  induction n generalizing col with
  | zero => rfl
  | succ n ih =>
    rw [List.replicate_succ, List.cons_append, lineRows, if_pos rfl, ih]
    congr 1
    omega

theorem rows_key (pre : String) (n : Nat) (k : String)
    (hpre : pre.toList = List.replicate n ' ' ++ (k.toList ++ [':', ' '])) (hk : IsWord k.toList)
    (s : String) : lineRows 0 (pre ++ s).toList = [⟨n, .key k.toList (' ' :: s.toList)⟩] := by
  rw [String.toList_append, hpre, List.append_assoc, lineRows_indent, Nat.zero_add,
    List.append_assoc]
  exact lineRows_key hk rfl n

/-! ### Values -/

theorem value_plain (h : Plain d s) (col : Nat) (k : List Char) :
    (Tree.node ⟨col, .key k (' ' :: s.toList)⟩ []).value d = some (.str s) := by
  obtain ⟨c, rest, hs, -⟩ := head_of_startsPlain h.starts
  unfold Tree.value
  dsimp only
  rw [tidy_cons h, if_neg (by rw [hs]; exact List.cons_ne_nil _ _), if_pos rfl, scalar_plain h]

theorem value_item (h : Plain d s) (col : Nat) :
    (Tree.node ⟨col, .plain s.toList⟩ []).value d = some (.str s) := by
  unfold Tree.value
  dsimp only
  rw [if_pos rfl, tidy_plain h, scalar_plain h]

theorem value_true (col : Nat) (k : List Char) :
    (Tree.node ⟨col, .key k " true".toList⟩ []).value d = some (.typed "true") := by
  have htidy : tidy " true".toList = "true".toList := by decide
  have hscalar : scalar d "true".toList = some (.typed "true") := by
    have hinline : "true".toList.all d.isInline = true :=
      List.all_eq_true.mpr fun c hc =>
        isInline_of_ascii d (by revert c; decide) (by revert c; decide)
    unfold scalar
    rw [if_neg (by decide), if_neg (by decide), hinline]
    rfl
  unfold Tree.value
  dsimp only
  rw [htidy, if_neg (by decide), if_pos rfl, hscalar]

theorem value_under (hv : tidy v = []) (col : Nat) (ts : List Tree) :
    (Tree.node ⟨col, .key k v⟩ ts).value d = block d ts := by
  unfold Tree.value
  dsimp only
  rw [if_pos hv]
  rfl

theorem value_dash (col : Nat) (ts : List Tree) :
    (Tree.node ⟨col, .dash⟩ ts).value d = block d ts := by
  unfold Tree.value
  rfl

end Lines

/-! ## Sections -/

/-- The rows of lines without breaks. -/
def rowsOfLines (lines : List String) : List Row := lines.flatMap fun l => lineRows 0 l.toList

theorem rowsOf_unlines {lines : List String} (h : ∀ l ∈ lines, d.OneLine l) :
    rowsOf d (IniText.unlines lines).toList = rowsOfLines lines := by
  unfold rowsOf rowsOfLines
  rw [IniText.toList_unlines]
  induction lines with
  | nil => rfl
  | cons l lines ih =>
    have hsplit := List.splitOnP_append_cons_of_forall_mem (h l List.mem_cons_self) '\n' rfl
      (lines.flatMap fun l => l.toList ++ ['\n'])
    rw [List.flatMap_cons, List.append_assoc, List.singleton_append, hsplit, List.flatMap_cons,
      ih fun l hl => h l (List.mem_cons_of_mem _ hl), List.flatMap_cons]

theorem forest_cons (row : Row) (rows : List Row) :
    forest (row :: rows) = grow row (forest rows) := rfl

theorem row_mem_of_forest : ∀ t ∈ forest rows, t.row ∈ rows := by
  induction rows with
  | nil => exact fun t ht => absurd ht List.not_mem_nil
  | cons row rows ih =>
    intro t ht
    rcases List.mem_cons.mp ht with rfl | ht
    · exact List.mem_cons_self
    · exact List.mem_cons_of_mem _ (ih t ((List.dropWhile_suffix _).subset ht))

theorem head_forest : ∀ t ∈ (forest rows).head?, t.row ∈ rows.head? := by
  cases rows with
  | nil => nofun
  | cons row rows =>
    intro t ht
    obtain rfl := Option.some.inj ht
    exact rfl

theorem while_append {α : Type*} {p : α → Bool} {xs rest : List α}
    (h : ∀ x ∈ rest.head?, p x = false) :
    (xs ++ rest).takeWhile p = xs.takeWhile p ∧
      (xs ++ rest).dropWhile p = xs.dropWhile p ++ rest := by
  induction xs with
  | nil =>
    cases rest with
    | nil => exact ⟨rfl, rfl⟩
    | cons x rest => simp [h x rfl]
  | cons x xs ih =>
    rw [List.cons_append, List.takeWhile_cons, List.dropWhile_cons, List.takeWhile_cons,
      List.dropWhile_cons, ih.1, ih.2]
    cases p x <;> exact ⟨rfl, rfl⟩

/-- Rows that stand deeper than what follows are trees of their own. -/
theorem forest_append {body rest : List Row} {c : Nat} (hbody : ∀ r ∈ body, c < r.col)
    (hrest : ∀ r ∈ rest.head?, r.col ≤ c) : forest (body ++ rest) = forest body ++ forest rest := by
  induction body with
  | nil => rfl
  | cons row body ih =>
    have hrow := hbody row List.mem_cons_self
    have hstop : ∀ t ∈ (forest rest).head?, decide (row.col < t.row.col) = false := by
      intro t ht
      have hcol := hrest _ (head_forest t ht)
      exact decide_eq_false (by omega)
    rw [List.cons_append, forest_cons, ih fun r hr => hbody r (List.mem_cons_of_mem _ hr),
      forest_cons, grow, (while_append hstop).1, (while_append hstop).2]
    rfl

/-- A row over deeper ones, before the next of its column. -/
theorem forest_section {head : Row} {body rest : List Row} (hbody : ∀ r ∈ body, head.col < r.col)
    (hrest : ∀ r ∈ rest.head?, r.col ≤ head.col) :
    forest (head :: body ++ rest) = .node head (forest body) :: forest rest := by
  have hstop : ∀ t ∈ (forest rest).head?, decide (head.col < t.row.col) = false := by
    intro t ht
    have hcol := hrest _ (head_forest t ht)
    exact decide_eq_false (by omega)
  have hall : ∀ t ∈ forest body, decide (head.col < t.row.col) = true := fun t ht =>
    decide_eq_true (hbody _ (row_mem_of_forest t ht))
  rw [List.cons_append, forest_cons, forest_append hbody hrest, grow, (while_append hstop).1,
    (while_append hstop).2, List.takeWhile_eq_self_iff.mpr hall, List.dropWhile_eq_nil_iff.mpr hall]
  rfl

/-- A tree that reads as an entry of a mapping at a column. -/
structure ReadsEntry (col : Nat) (t : Tree) (entry : String × Node) : Prop where
  col : t.row.col = col
  key : ∃ v, t.row.content = .key entry.1.toList v
  value : t.value d = some entry.2

/-- Lines that read as entries of the document, whatever follows them. -/
structure Reads (lines : List String) (entries : List (String × Node)) : Prop where
  inline : ∀ l ∈ lines, d.OneLine l
  top : ∀ r ∈ (rowsOfLines lines).head?, r.col = 0
  trees : ∃ ts, List.Forall₂ (ReadsEntry d 0) ts entries ∧ ∀ rest : List Row,
    (∀ r ∈ rest.head?, r.col = 0) → forest (rowsOfLines lines ++ rest) = ts ++ forest rest

variable {d} {lines lines' : List String} {entries entries' : List (String × Node)}

theorem Reads.nil : Reads d [] [] := ⟨nofun, nofun, [], .nil, fun _ _ => rfl⟩

theorem Reads.blank : Reads d [""] [] := by
  refine ⟨fun l hl c hc => ?_, nofun, [], .nil, fun _ _ => rfl⟩
  rw [List.mem_singleton.mp hl] at hc
  exact absurd hc List.not_mem_nil

theorem Reads.append (h : Reads d lines entries) (h' : Reads d lines' entries') :
    Reads d (lines ++ lines') (entries ++ entries') := by
  obtain ⟨ts, hts, hforest⟩ := h.trees
  obtain ⟨ts', hts', hforest'⟩ := h'.trees
  have hrows : rowsOfLines (lines ++ lines') = rowsOfLines lines ++ rowsOfLines lines' :=
    List.flatMap_append
  refine ⟨fun l hl => ?_, fun r hr => ?_, ts ++ ts', List.rel_append hts hts', fun rest hrest => ?_⟩
  · exact (List.mem_append.mp hl).elim (h.inline l) (h'.inline l)
  · rw [hrows, List.head?_append] at hr
    rcases Option.or_eq_some_iff.mp hr with hr | ⟨-, hr⟩
    · exact h.top r hr
    · exact h'.top r hr
  · rw [hrows, List.append_assoc, hforest, hforest' rest hrest, List.append_assoc]
    intro r hr
    rw [List.head?_append] at hr
    rcases Option.or_eq_some_iff.mp hr with hr | ⟨-, hr⟩
    · exact h'.top r hr
    · exact hrest r hr

theorem rowsOfLines_nil : rowsOfLines [] = [] := rfl

theorem rowsOfLines_cons {l : String} {ls : List String} {rs rs' : List Row}
    (hl : lineRows 0 l.toList = rs) (hls : rowsOfLines ls = rs') :
    rowsOfLines (l :: ls) = rs ++ rs' := by
  rw [rowsOfLines, List.flatMap_cons, hl]
  rw [rowsOfLines] at hls
  rw [hls]

theorem Reads.section {line k : String} {v : List Char} {body : List String}
    (hline : ∀ l ∈ line :: body, d.OneLine l)
    (hhead : lineRows 0 line.toList = [⟨0, .key k.toList v⟩])
    (hrows : rowsOfLines body = rows) (hbody : ∀ r ∈ rows, 0 < r.col)
    (hvalue : (Tree.node ⟨0, .key k.toList v⟩ (forest rows)).value d = some n) :
    Reads d (line :: body) [(k, n)] := by
  have hrows := rowsOfLines_cons hhead hrows
  refine ⟨hline, fun r hr => ?_, [_], .cons ⟨rfl, ⟨v, rfl⟩, hvalue⟩ .nil, fun rest hrest => ?_⟩
  · rw [hrows] at hr
    obtain rfl := Option.some.inj hr
    rfl
  · rw [hrows]
    exact forest_section hbody fun r hr => (hrest r hr).le

section Entries

variable {col : Nat} {ts : List Tree}

theorem values_of_entries (h : List.Forall₂ (ReadsEntry d col) ts entries) :
    values d ts = some (entries.map Prod.snd) := by
  induction h with
  | nil => rfl
  | cons ht hts ih =>
    rw [values, ht.value, Option.bind_eq_bind, Option.bind_some, ih]
    rfl

theorem keys_of_entries (h : List.Forall₂ (ReadsEntry d col) ts entries) :
    (ts.map Tree.row).mapM Row.key = some (entries.map Prod.fst) := by
  induction h with
  | nil => rfl
  | cons ht hts ih =>
    obtain ⟨v, hkey⟩ := ht.key
    rw [List.map_cons, List.mapM_cons, Row.key, hkey, ih]
    dsimp only
    rw [String.ofList_toList]
    rfl

theorem block_entries (h : List.Forall₂ (ReadsEntry d col) ts entries) (hne : entries ≠ [])
    (hkeys : (entries.map Prod.fst).Nodup) : block d ts = some (mapping entries) := by
  have hcol : ∀ t ∈ ts, t.row.col = col := by
    intro t ht
    obtain ⟨_, -, hentry⟩ := Paired.exists_right_of_forall₂ h ht
    exact hentry.col
  unfold block
  rw [values_of_entries h, Option.bind_some]
  have hkeysOf := keys_of_entries h
  cases h with
  | nil => exact absurd rfl hne
  | cons ht hts =>
    obtain ⟨v, hkey⟩ := ht.key
    rw [List.map_cons] at hkeysOf ⊢
    unfold assemble
    dsimp only
    rw [if_neg, hkey]
    · dsimp only
      rw [hkeysOf, Option.bind_eq_bind, Option.bind_some, if_pos hkeys]
      rfl
    · rw [List.any_eq_true]
      rintro ⟨r, hr, hdiff⟩
      obtain ⟨t, ht', rfl⟩ := List.mem_map.mp hr
      rw [hcol _ (List.mem_cons_of_mem _ ht'), hcol _ List.mem_cons_self] at hdiff
      exact absurd hdiff (by simp)

theorem block_item {t : Tree} (hrow : t.row.content = .dash) (h : t.value d = some n) :
    block d [t] = some (.seq [n]) := by
  unfold block
  rw [values, h, Option.bind_eq_bind, Option.bind_some, values, Option.bind_eq_bind,
    Option.bind_some]
  show assemble [t.row] [n] = _
  unfold assemble
  dsimp only
  rw [hrow]
  rfl

theorem block_scalar {t : Tree} {v : List Char} (hrow : t.row.content = .plain v)
    (h : t.value d = some n) : block d [t] = some n := by
  unfold block
  rw [values, h, Option.bind_eq_bind, Option.bind_some, values, Option.bind_eq_bind,
    Option.bind_some]
  show assemble [t.row] [n] = _
  unfold assemble
  dsimp only
  rw [hrow]
  rfl

/-! ### Lines of one column -/

/-- A line that reads as an entry of a mapping. -/
structure ReadsLine (d : Dialect) (col : Nat) (line : String) (entry : String × Node) : Prop where
  oneLine : d.OneLine line
  row : ∃ r, lineRows 0 line.toList = [r] ∧ ReadsEntry d col (.node r []) entry

theorem readsLine_plain {s : String} (pre : String) (n : Nat) (k : String)
    (hpre : pre.toList = List.replicate n ' ' ++ (k.toList ++ [':', ' '])) (hk : IsWord k.toList)
    (hascii : IsAscii pre) (h : Plain d s) : ReadsLine d n (pre ++ s) (k, .str s) :=
  ⟨(oneLine_of_ascii d hascii).append h.oneLine, _, rows_key pre n k hpre hk s, rfl, ⟨_, rfl⟩,
    value_plain h n _⟩

theorem forest_lines (h : List.Forall₂ (ReadsLine d col) lines entries) :
    List.Forall₂ (ReadsEntry d col) (forest (rowsOfLines lines)) entries ∧
      ∀ r ∈ rowsOfLines lines, r.col = col := by
  induction h with
  | nil => exact ⟨.nil, nofun⟩
  | @cons l e ls es hl hls ih =>
    obtain ⟨hforest, hcol⟩ := ih
    obtain ⟨r, hrow, hentry⟩ := hl.row
    have hrcol : r.col = col := hentry.col
    rw [rowsOfLines_cons hrow rfl]
    refine ⟨?_, fun r' hr' => ?_⟩
    · have halone : forest ([r] ++ rowsOfLines ls) = .node r [] :: forest (rowsOfLines ls) :=
        forest_section nofun fun r' hr' => by rw [hcol r' (List.mem_of_mem_head? hr'), hrcol]
      rw [halone]
      exact .cons hentry hforest
    · rcases List.mem_cons.mp hr' with rfl | hr'
      · exact hrcol
      · exact hcol r' hr'

theorem block_lines (h : List.Forall₂ (ReadsLine d col) lines entries) (hne : entries ≠ [])
    (hkeys : (entries.map Prod.fst).Nodup) :
    block d (forest (rowsOfLines lines)) = some (mapping entries) :=
  block_entries (forest_lines h).1 hne hkeys

theorem oneLine_lines (h : List.Forall₂ (ReadsLine d col) lines entries) :
    ∀ l ∈ lines, d.OneLine l := by
  intro l hl
  obtain ⟨_, -, hline⟩ := Paired.exists_right_of_forall₂ h hl
  exact hline.oneLine

theorem Reads.keyed {l k : String} (h₀ : lineRows 0 l.toList = [⟨0, .key k.toList []⟩])
    (hascii : IsAscii l) (hcol : 0 < col) (h : List.Forall₂ (ReadsLine d col) lines entries)
    (hne : entries ≠ []) (hkeys : (entries.map Prod.fst).Nodup) :
    Reads d (l :: lines) [(k, mapping entries)] := by
  refine Reads.section (fun l' hl' => ?_) h₀ rfl (fun r hr => ?_) ?_
  · rcases List.mem_cons.mp hl' with rfl | hl'
    · exact oneLine_of_ascii d hascii
    · exact oneLine_lines h l' hl'
  · rw [(forest_lines h).2 r hr]
    exact hcol
  · rw [value_under rfl]
    exact block_lines h hne hkeys

end Entries

theorem Reads.line {pre k s : String} (hpre : pre.toList = k.toList ++ [':', ' '])
    (hk : IsWord k.toList) (hline : d.OneLine pre) (h : Plain d s) :
    Reads d [pre ++ s] [(k, .str s)] := by
  refine Reads.section (fun l hl => ?_) (rows_key pre 0 k hpre hk s) rfl nofun
    (value_plain h 0 k.toList)
  rw [List.mem_singleton.mp hl]
  exact hline.append h.oneLine

/-- **Sections with a key each are the document of their text.** -/
theorem Reads.read (h : Reads d lines entries) (hne : entries ≠ [])
    (hkeys : (entries.map Prod.fst).Nodup) :
    YamlText.read d (IniText.unlines lines) = some (mapping entries) := by
  obtain ⟨ts, hts, hforest⟩ := h.trees
  have hwhole := hforest [] nofun
  have hnil : forest [] = [] := rfl
  rw [hnil, List.append_nil, List.append_nil] at hwhole
  unfold YamlText.read
  rw [rowsOf_unlines d h.inline, hwhole]
  exact block_entries hts hne hkeys

end YamlText

import Mathlib.Algebra.GroupWithZero.Nat
import Mathlib.Algebra.Group.Int.Defs
import Mathlib.Data.List.Infix
import Mathlib.Data.List.TakeWhile
import Mathlib.Data.String.Basic

/-!
# Strings as Go reads them

The functions of `strings`, `bufio` and `unicode` that the node agent's parsers use, after their
documentation.

* `trimSpace`, `cut`, `fields`, `hasPrefix`, `hasSuffix`.
* `atoi`, `splitHostPort`.
* `split` — the parts between the separators, and back; `split_unlines`.
* `scanLines` — the lines a default `bufio.Scanner` yields before it ends.
* `trimBy`, `trimBy_trimBy` — what is left between the white space, of two kinds.
-/

set_option autoImplicit false

namespace GoText

/-- `unicode.IsSpace` -/
def isSpace (c : Char) : Bool :=
  decide (c.toNat ∈ [9, 10, 11, 12, 13, 32, 133, 160, 5760, 8232, 8233, 8239, 8287, 12288])
    || (decide (8192 ≤ c.toNat) && decide (c.toNat ≤ 8202))

/-- `strings.TrimSpace` -/
def trimSpace (s : String) : String :=
  String.ofList ((s.toList.dropWhile isSpace).reverse.dropWhile isSpace).reverse

/-- `strings.Trim` -/
def trim (s cutset : String) : String :=
  let out := fun c => decide (c ∈ cutset.toList)
  String.ofList ((s.toList.dropWhile out).reverse.dropWhile out).reverse

/-- `strings.Cut`: before and after the first `c`, none where there is no `c`. -/
def cut (s : String) (c : Char) : Option (String × String) :=
  if c ∈ s.toList then
    some (String.ofList (s.toList.takeWhile (· ≠ c)),
      String.ofList (s.toList.dropWhile (· ≠ c)).tail)
  else none

def hasPrefix (s pre : String) : Bool := pre.toList.isPrefixOf s.toList

def hasSuffix (s suf : String) : Bool := suf.toList.isSuffixOf s.toList

/-- `strings.Contains` -/
def contains (s sub : String) : Bool := decide (sub.toList <:+: s.toList)

/-- `strings.TrimPrefix` -/
def trimPrefix (s pre : String) : String :=
  if hasPrefix s pre then String.ofList (s.toList.drop pre.toList.length) else s

/-- `strings.TrimSuffix` -/
def trimSuffix (s suf : String) : String :=
  if hasSuffix s suf then String.ofList (s.toList.take (s.toList.length - suf.toList.length)) else s

theorem hasPrefix_append (pre rest : String) : hasPrefix (pre ++ rest) pre = true := by
  rw [hasPrefix, List.isPrefixOf_iff_prefix, String.toList_append]
  exact List.prefix_append _ _

theorem trimPrefix_append {pre rest : String} : trimPrefix (pre ++ rest) pre = rest := by
  rw [trimPrefix, if_pos (hasPrefix_append pre rest), String.toList_append, List.drop_left,
    String.ofList_toList]

theorem trimSuffix_append {base suf : String} : trimSuffix (base ++ suf) suf = base := by
  have hsuf : hasSuffix (base ++ suf) suf = true := by
    unfold hasSuffix
    rw [List.isSuffixOf_iff_suffix, String.toList_append]
    exact List.suffix_append _ _
  unfold trimSuffix
  rw [if_pos hsuf, String.toList_append]
  simp

theorem append_of_trimSuffix_ne {s suf : String} (h : trimSuffix s suf ≠ s) :
    trimSuffix s suf ++ suf = s := by
  unfold trimSuffix at h ⊢
  split
  · rename_i hsuf
    obtain ⟨base, hbase⟩ := List.isSuffixOf_iff_suffix.mp hsuf
    refine String.toList_inj.mp ?_
    rw [String.toList_append, String.toList_ofList, ← hbase]
    simp
  · rename_i hsuf
    rw [if_neg hsuf] at h
    exact absurd rfl h

/-- `strings.Fields` -/
def fields (s : String) : List String :=
  ((s.toList.splitOnP isSpace).filter (fun w => !w.isEmpty)).map String.ofList

/-- `strconv.Atoi` -/
def atoi (s : String) : Option Int :=
  let digits := if s.toList.head? = some '-' ∨ s.toList.head? = some '+' then s.toList.tail
    else s.toList
  let n : Int := Nat.ofDigitChars 10 digits 0
  let n := if s.toList.head? = some '-' then -n else n
  if digits ≠ [] ∧ digits.all Char.isDigit = true ∧ -2 ^ 63 ≤ n ∧ n < 2 ^ 63 then some n else none

/-- The host and the port of `net.SplitHostPort`, read after the host's brackets. -/
def splitBracketed (cs : List Char) : Option (String × String) :=
  let host := cs.takeWhile (· ≠ ']')
  match (cs.dropWhile (· ≠ ']')).tail with
  | ':' :: port =>
    if ']' ∈ cs ∧ ':' ∉ port ∧ '[' ∉ host ++ port ∧ ']' ∉ port then
      some (String.ofList host, String.ofList port)
    else none
  | _ => none

/-- `net.SplitHostPort` -/
def splitHostPort (s : String) : Option (String × String) :=
  match s.toList with
  | '[' :: cs => splitBracketed cs
  | cs =>
    let host := cs.takeWhile (· ≠ ':')
    let port := (cs.dropWhile (· ≠ ':')).tail
    if ':' ∈ cs ∧ ':' ∉ port ∧ '[' ∉ cs ∧ ']' ∉ cs then
      some (String.ofList host, String.ofList port)
    else none

/-! ## Parts -/

/-- The parts between the separators; so many characters of one are still to be passed over. -/
def splitFrom (sep : List Char) : Nat → List Char → List (List Char)
  | _, [] => [[]]
  | k + 1, _ :: cs => splitFrom sep k cs
  | 0, c :: cs =>
    if sep.isPrefixOf (c :: cs) then [] :: splitFrom sep (sep.length - 1) cs
    else (splitFrom sep 0 cs).modifyHead (c :: ·)

/-- `strings.Split`, by a separator that is not empty. -/
def split (s sep : String) : List String := (splitFrom sep.toList 0 s.toList).map String.ofList

section Split

variable {sep : List Char}

theorem splitFrom_ne_nil (sep : List Char) (k : Nat) (cs : List Char) :
    splitFrom sep k cs ≠ [] := by
  induction cs generalizing k with
  | nil => cases k <;> simp [splitFrom]
  | cons c cs ih =>
    cases k with
    | succ k => exact ih k
    | zero =>
      rw [splitFrom]
      split
      · exact List.cons_ne_nil _ _
      · obtain ⟨w, ws, hsplit⟩ := List.exists_cons_of_ne_nil (ih 0)
        rw [hsplit]
        exact List.cons_ne_nil _ _

theorem splitFrom_drop (sep : List Char) (k : Nat) (cs : List Char) :
    splitFrom sep k cs = splitFrom sep 0 (cs.drop k) := by
  induction cs generalizing k with
  | nil => cases k <;> simp [splitFrom]
  | cons c cs ih =>
    cases k with
    | zero => rfl
    | succ k => rw [splitFrom, ih k, List.drop_succ_cons]

/-- Between two separators nothing is left out. -/
theorem intercalate_splitFrom (hsep : sep ≠ []) (k : Nat) (cs : List Char) :
    sep.intercalate (splitFrom sep k cs) = cs.drop k := by
  induction cs generalizing k with
  | nil => cases k <;> simp [splitFrom]
  | cons c cs ih =>
    cases k with
    | succ k => rw [splitFrom, ih k, List.drop_succ_cons]
    | zero =>
      rw [splitFrom]
      split
      · rename_i hpre
        obtain ⟨rest, hrest⟩ := List.isPrefixOf_iff_prefix.mp hpre
        obtain ⟨a, as, rfl⟩ := List.exists_cons_of_ne_nil hsep
        rw [List.cons_append] at hrest
        obtain ⟨rfl, rfl⟩ := List.cons.inj hrest
        obtain ⟨w, ws, hsplit⟩ := List.exists_cons_of_ne_nil
          (splitFrom_ne_nil (a :: as) ((a :: as).length - 1) (as ++ rest))
        have hrun := ih ((a :: as).length - 1)
        rw [hsplit] at hrun ⊢
        have hlen : (a :: as).length - 1 = as.length := by simp
        rw [List.intercalate_cons_cons, hrun, hlen, List.drop_left]
        rfl
      · obtain ⟨w, ws, hsplit⟩ := List.exists_cons_of_ne_nil (splitFrom_ne_nil sep 0 cs)
        have hrun := ih 0
        rw [hsplit, List.drop_zero] at hrun
        rw [hsplit, List.modifyHead_cons, List.drop_zero, ← hrun]
        cases ws with
        | nil => simp
        | cons v ws => rw [List.intercalate_cons_cons, List.intercalate_cons_cons]; rfl

theorem intercalate_split (s : String) {sep : String} (hsep : sep ≠ "") :
    String.intercalate sep (split s sep) = s := by
  have hne : sep.toList ≠ [] := fun h => hsep (String.toList_eq_nil_iff.mp h)
  refine String.toList_inj.mp ?_
  have hid : String.toList ∘ String.ofList = id := funext fun cs => String.toList_ofList
  rw [split, String.toList_intercalate, List.map_map, hid, List.map_id, intercalate_splitFrom hne,
    List.drop_zero]

/-- A part that has no first character of the separator is read off whole. -/
theorem splitFrom_append {a : Char} {as w : List Char} (hw : a ∉ w) (rest : List Char) :
    splitFrom (a :: as) 0 (w ++ (a :: as) ++ rest) = w :: splitFrom (a :: as) 0 rest := by
  induction w with
  | nil =>
    have hpre : (a :: as).isPrefixOf (a :: (as ++ rest)) = true :=
      List.isPrefixOf_iff_prefix.mpr ⟨rest, rfl⟩
    have hlen : (a :: as).length - 1 = as.length := by simp
    rw [List.nil_append, List.cons_append, splitFrom, if_pos hpre, splitFrom_drop, hlen,
      List.drop_left]
  | cons c w ih =>
    have hc : ¬ a = c := fun h => hw (h ▸ List.mem_cons_self)
    have hpre : ¬ (a :: as).isPrefixOf (c :: (w ++ (a :: as) ++ rest)) = true := by
      simp [List.isPrefixOf, hc]
    rw [List.cons_append, List.cons_append, splitFrom, if_neg hpre,
      ih fun h => hw (List.mem_cons_of_mem c h)]
    rfl

theorem splitFrom_of_notMem {a : Char} {as w : List Char} (hw : a ∉ w) :
    splitFrom (a :: as) 0 w = [w] := by
  induction w with
  | nil => rfl
  | cons c w ih =>
    have hc : ¬ a = c := fun h => hw (h ▸ List.mem_cons_self)
    have hpre : ¬ (a :: as).isPrefixOf (c :: w) = true := by simp [List.isPrefixOf, hc]
    rw [splitFrom, if_neg hpre, ih fun h => hw (List.mem_cons_of_mem c h)]
    rfl

end Split

/-! ## Texts of lines -/

/-- Every line with a line break behind it. -/
def unlines (ls : List String) : String := String.join (ls.map (· ++ "\n"))

theorem toList_unlines_cons (l : String) (ls : List String) :
    (unlines (l :: ls)).toList = l.toList ++ ['\n'] ++ (unlines ls).toList := by
  simp [unlines]

/-- A text of lines is split back into them, and an empty part behind the last break. -/
theorem split_unlines {ls : List String} (h : ∀ l ∈ ls, '\n' ∉ l.toList) :
    split (unlines ls) "\n" = ls ++ [""] := by
  induction ls with
  | nil => decide
  | cons l ls ih =>
    have ih := ih fun l' hl' => h l' (List.mem_cons_of_mem l hl')
    have hl : splitFrom ['\n'] 0 (l.toList ++ ['\n'] ++ (unlines ls).toList) =
        l.toList :: splitFrom ['\n'] 0 (unlines ls).toList :=
      splitFrom_append (h l List.mem_cons_self) (unlines ls).toList
    rw [split] at ih ⊢
    rw [toList_unlines_cons, show "\n".toList = ['\n'] from rfl, hl, List.map_cons,
      String.ofList_toList, List.cons_append]
    exact congrArg (l :: ·) ih
/-! ## Lines -/

/-- `bufio.MaxScanTokenSize` -/
def maxScanTokenSize : Nat := 64 * 1024

def byteLength (cs : List Char) : Nat := (cs.map Char.utf8Size).sum

def dropCR (cs : List Char) : List Char :=
  if cs.getLast? = some '\r' then cs.dropLast else cs

/-- The tokens of `bufio.ScanLines`: a line too long for the buffer ends the scan, and what follows
it is never read; nothing after the last line break is no line. -/
def scanSegments : List (List Char) → List String
  | [] => []
  | [cs] => if cs = [] ∨ maxScanTokenSize ≤ byteLength cs then [] else [String.ofList (dropCR cs)]
  | cs :: rest =>
    if maxScanTokenSize ≤ byteLength cs then [] else String.ofList (dropCR cs) :: scanSegments rest

def scanLines (s : String) : List String := scanSegments (s.toList.splitOn '\n')

/-- A line the buffer holds. -/
def fits (cs : List Char) : Bool := decide (byteLength cs < maxScanTokenSize)

/-- The lines before the first that the buffer does not hold; after the last break, an empty one. -/
theorem scanSegments_eq (segments : List (List Char)) :
    ∃ blank, (segments.takeWhile fits).map (String.ofList ∘ dropCR) = scanSegments segments ++ blank
      ∧ ∀ line ∈ blank, line = "" := by
  induction segments with
  | nil => exact ⟨[], rfl, nofun⟩
  | cons cs rest ih =>
    by_cases hcs : fits cs = true
    · have hshort : ¬ maxScanTokenSize ≤ byteLength cs := by simpa [fits] using hcs
      rw [List.takeWhile_cons_of_pos hcs, List.map_cons, Function.comp_apply]
      cases rest with
      | nil =>
        by_cases hne : cs = []
        · subst hne
          exact ⟨[""], rfl, by simp⟩
        · refine ⟨[], ?_, nofun⟩
          simp [scanSegments, hne, hshort]
      | cons next rest =>
        obtain ⟨blank, hblank, hempty⟩ := ih
        refine ⟨blank, ?_, hempty⟩
        have hscan : scanSegments (cs :: next :: rest) =
            String.ofList (dropCR cs) :: scanSegments (next :: rest) := if_neg hshort
        rw [hblank, hscan, List.cons_append]
    · have hlong : maxScanTokenSize ≤ byteLength cs := by simpa [fits] using hcs
      rw [List.takeWhile_cons_of_neg hcs]
      refine ⟨[], ?_, nofun⟩
      cases rest <;> simp [scanSegments, hlong]

/-! ## Between white space -/

section Trim

variable {p q : Char → Bool} {cs u m v : List Char}

/-- What is left of a text between characters of one kind. -/
def trimBy (p : Char → Bool) (cs : List Char) : List Char :=
  ((cs.dropWhile p).reverse.dropWhile p).reverse

theorem toList_trimSpace (s : String) : (trimSpace s).toList = trimBy isSpace s.toList :=
  String.toList_ofList

theorem trimBy_append (hu : ∀ c ∈ u, p c = true) (hv : ∀ c ∈ v, p c = true) :
    trimBy p (u ++ m ++ v) = trimBy p m := by
  have hback (l : List Char) : ((l ++ v).reverse.dropWhile p) = l.reverse.dropWhile p := by
    rw [List.reverse_append, List.dropWhile_append_of_pos fun c hc => hv c (List.mem_reverse.mp hc)]
  unfold trimBy
  rw [List.append_assoc, List.dropWhile_append_of_pos hu]
  by_cases hm : m.dropWhile p = []
  · have hall : ∀ c ∈ m ++ v, p c = true := fun c hc =>
      (List.mem_append.mp hc).elim (List.dropWhile_eq_nil_iff.mp hm c) (hv c)
    rw [hm, List.dropWhile_eq_nil_iff.mpr hall]
  · rw [List.dropWhile_append, if_neg (by simpa using hm), hback]

/-- What trimming takes away is of the kind. -/
theorem exists_trimBy (p : Char → Bool) (cs : List Char) :
    ∃ u v, cs = u ++ trimBy p cs ++ v ∧ (∀ c ∈ u, p c = true) ∧ ∀ c ∈ v, p c = true := by
  refine ⟨cs.takeWhile p, ((cs.dropWhile p).reverse.takeWhile p).reverse, ?_, fun c hc =>
    List.mem_takeWhile_imp hc, fun c hc => List.mem_takeWhile_imp (List.mem_reverse.mp hc)⟩
  rw [trimBy, List.append_assoc, ← List.reverse_append, List.takeWhile_append_dropWhile,
    List.reverse_reverse, List.takeWhile_append_dropWhile]

/-- A coarser trimming does not see a finer one. -/
theorem trimBy_trimBy (h : ∀ c, p c = true → q c = true) (cs : List Char) :
    trimBy q (trimBy p cs) = trimBy q cs := by
  obtain ⟨u, v, hcs, hu, hv⟩ := exists_trimBy p cs
  conv_rhs => rw [hcs]
  exact (trimBy_append (fun c hc => h c (hu c hc)) fun c hc => h c (hv c hc)).symm

theorem trimBy_of_forall_not (h : ∀ c ∈ cs, p c = false) : trimBy p cs = cs := by
  have hdrop (l : List Char) (hl : ∀ c ∈ l, p c = false) : l.dropWhile p = l := by
    cases l with
    | nil => rfl
    | cons c l => exact List.dropWhile_cons_of_neg (by simp [hl c List.mem_cons_self])
  rw [trimBy, hdrop cs h, hdrop _ fun c hc => h c (List.mem_reverse.mp hc), List.reverse_reverse]

/-- A finer trimming that leaves more leaves a character of the coarser kind. -/
theorem exists_of_trimBy_ne (h : ∀ c, p c = true → q c = true) (hne : trimBy p cs ≠ trimBy q cs) :
    ∃ c ∈ trimBy p cs, q c = true := by
  by_contra hnone
  push Not at hnone
  refine hne ?_
  have hkept := trimBy_of_forall_not fun c hc => Bool.eq_false_iff.mpr (hnone c hc)
  rw [← hkept, trimBy_trimBy h]

theorem trimBy_dropCR (cs : List Char) : trimBy isSpace (dropCR cs) = trimBy isSpace cs := by
  unfold dropCR
  split
  · rename_i hlast
    conv_rhs => rw [← List.dropLast_append_getLast? _ (Option.mem_def.mpr hlast)]
    exact (trimBy_append (u := []) (v := ['\r']) nofun (List.forall_mem_singleton.mpr rfl)).symm
  · rfl

end Trim

end GoText

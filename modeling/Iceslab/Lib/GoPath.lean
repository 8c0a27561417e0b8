import Iceslab.Lib.GoText
import Iceslab.Lib.JsText

/-!
# File paths as Go cleans them

`path/filepath` on Unix: `clean`, `dir` and `join`; a plain name joined to a directory stays in it.
-/

set_option autoImplicit false

namespace GoPath

/-- One element of a path after the ones kept so far, the last of them first. -/
def keep (rooted : Bool) (kept : List String) (element : String) : List String :=
  if element = "" ∨ element = "." then kept
  else if element = ".." then
    match kept with
    | [] => if rooted then [] else [".."]
    | last :: rest => if last = ".." then ".." :: kept else rest
  else element :: kept

/-- `filepath.Clean` -/
def clean (path : String) : String :=
  let rooted := GoText.hasPrefix path "/"
  let body := String.intercalate "/" ((JsText.split '/' path).foldl (keep rooted) []).reverse
  if rooted then "/" ++ body else if body = "" then "." else body

/-- `filepath.Dir` -/
def dir (path : String) : String :=
  match JsText.splitLast '/' path with
  | some (before, _) => clean (before ++ "/")
  | none => "."

/-- `filepath.Join` of a directory and a name in it. -/
def join (dir name : String) : String := clean (if dir = "" then name else dir ++ "/" ++ name)

example : join (dir "/etc/hysteria/config.yaml") "iceslab-tls.crt" =
    "/etc/hysteria/iceslab-tls.crt" := by decide

/-! ## A name in a directory -/

/-- The elements of a cleaned path. -/
def elements (path : String) : List String :=
  ((JsText.split '/' path).foldl (keep (GoText.hasPrefix path "/")) []).reverse

def root (path : String) : String := if GoText.hasPrefix path "/" then "/" else ""

/-- A name that is one element and goes nowhere. -/
structure Plain (name : String) : Prop where
  noSlash : '/' ∉ name.toList
  nonempty : name ≠ ""
  notHere : name ≠ "."
  notUp : name ≠ ".."

variable {dir name : String}

theorem split_child (h : '/' ∉ name.toList) :
    JsText.split '/' (dir ++ "/" ++ name) = JsText.split '/' dir ++ [name] := by
  have hwords : ∀ w ∈ JsText.split '/' dir ++ [name], '/' ∉ w.toList := by
    intro w hw
    rcases List.mem_append.mp hw with hw | hw
    · exact JsText.notMem_of_mem_split hw
    · rw [List.mem_singleton.mp hw]
      exact h
  have hsplit := JsText.split_intercalate hwords (by simp)
  have hne : JsText.split '/' dir ≠ [] := by
    unfold JsText.split
    simp
  have hdir := JsText.intercalate_split '/' dir
  rw [String.intercalate_append_of_ne_nil hne (by simp), hdir, String.intercalate_singleton]
    at hsplit
  exact hsplit

theorem keep_plain {rooted : Bool} {kept : List String} (h : Plain name) :
    keep rooted kept name = name :: kept := by
  unfold keep
  rw [if_neg (not_or.mpr ⟨h.nonempty, h.notHere⟩), if_neg h.notUp]

theorem intercalate_ne_empty {words : List String} (h : name ≠ "") :
    String.intercalate "/" (words ++ [name]) ≠ "" := by
  by_cases hwords : words = []
  · rw [hwords, List.nil_append, String.intercalate_singleton]
    exact h
  · rw [String.intercalate_append_of_ne_nil hwords (by simp)]
    intro hempty
    have := congrArg (fun s => '/' ∈ s.toList) hempty
    simp at this

theorem clean_child {path name : String} (kept : List String) (h : Plain name)
    (hfold : (JsText.split '/' path).foldl (keep (GoText.hasPrefix path "/")) [] = name :: kept) :
    clean path = root path ++ String.intercalate "/" (kept.reverse ++ [name]) := by
  unfold clean root
  dsimp only
  rw [hfold, List.reverse_cons]
  split
  · rfl
  · rw [if_neg (intercalate_ne_empty h.nonempty), String.empty_append]

theorem join_plain (h : Plain name) :
    join dir name = root dir ++ String.intercalate "/" (elements dir ++ [name]) := by
  unfold join
  by_cases hdir : dir = ""
  · have hsplit : JsText.split '/' name = [name] := by
      have hwords : ∀ w ∈ [name], '/' ∉ w.toList := by simpa using h.noSlash
      have := JsText.split_intercalate hwords (by simp)
      rwa [String.intercalate_singleton] at this
    have hroot : root name = "" := by
      unfold root GoText.hasPrefix
      refine if_neg fun hpre => h.noSlash ?_
      exact (List.isPrefixOf_iff_prefix.mp hpre).subset List.mem_cons_self
    rw [if_pos hdir, clean_child [] h, hroot, hdir]
    · rfl
    · rw [hsplit, List.foldl_cons, List.foldl_nil, keep_plain h]
  · have hpre : GoText.hasPrefix (dir ++ "/" ++ name) "/" = GoText.hasPrefix dir "/" := by
      obtain ⟨c, cs, hcs⟩ := List.exists_cons_of_ne_nil fun hnil =>
        hdir (String.toList_eq_nil_iff.mp hnil)
      unfold GoText.hasPrefix
      rw [String.toList_append, String.toList_append, hcs]
      simp [List.isPrefixOf]
    have hroot : root (dir ++ "/" ++ name) = root dir := by
      unfold root
      rw [hpre]
    rw [if_neg hdir, hroot.symm,
      clean_child ((JsText.split '/' dir).foldl (keep (GoText.hasPrefix dir "/")) []) h]
    · rfl
    · rw [split_child h.noSlash, hpre, List.foldl_append, List.foldl_cons, List.foldl_nil,
        keep_plain h]

end GoPath

import Iceslab.Lib.JsText

/-!
# Grants of several parties

Each party hands out keys: every key where it keeps no list, else those on its list.  Parties give
and do not take from each other, so together they permit what one of them permits.

* `unionAllow` — the loop over the lists, which stops at the first party without one.
* `permits_unionAllow` — the loop permits what one of the parties permits.
* `pushUnseen` — the loop that keeps the first element of each key.
-/

set_option autoImplicit false

namespace Grants

open JsText

variable {κ α : Type} [DecidableEq κ]

/-! ## Lists of permitted keys -/

/-- There is no list, or the key is on it. -/
def permits (allow : Option (List κ)) (k : κ) : Bool :=
  match allow with
  | none => true
  | some keys => decide (k ∈ keys)

/-- The lists of the parties as one, from the keys already collected. -/
def unionAllow (out : List κ) : List (Option (List κ)) → Option (List κ)
  | [] => some out
  | none :: _ => none
  | some keys :: rest => unionAllow (keys.foldl setAdd out) rest

@[simp] theorem permits_none (k : κ) : permits (none : Option (List κ)) k = true := rfl

@[simp] theorem permits_some {keys : List κ} {k : κ} : permits (some keys) k = true ↔ k ∈ keys :=
  decide_eq_true_iff

/-- The parties are limited together when each of them is. -/
theorem unionAllow_eq_none {allows : List (Option (List κ))} {out : List κ} :
    unionAllow out allows = none ↔ none ∈ allows := by
  induction allows generalizing out with
  | nil => simp [unionAllow]
  | cons allow rest ih =>
    cases allow with
    | none => simp [unionAllow]
    | some keys =>
      rw [unionAllow, ih, List.mem_cons]
      simp

theorem permits_unionAllow {allows : List (Option (List κ))} {out : List κ} {k : κ} :
    permits (unionAllow out allows) k = true
      ↔ k ∈ out ∨ ∃ allow ∈ allows, permits allow k = true := by
  induction allows generalizing out with
  | nil => simp [unionAllow]
  | cons allow rest ih =>
    simp only [List.mem_cons, exists_eq_or_imp]
    cases allow with
    | none => simp [unionAllow]
    | some keys => rw [unionAllow, ih, mem_foldl_setAdd, permits_some, or_assoc]

/-! ## The first of each key -/

section Unseen

variable (key : α → κ)

/-- `if (seen.has(key(a))) continue; seen.add(key(a)); out.push(a)` -/
def pushUnseen (out : List α) (a : α) : List α :=
  if key a ∈ out.map key then out else out ++ [a]

variable {key}

/-- No key is lost. -/
theorem mem_map_pushUnseen {l out : List α} {k : κ} :
    k ∈ (l.foldl (pushUnseen key) out).map key ↔ k ∈ out.map key ∨ k ∈ l.map key := by
  induction l generalizing out with
  | nil => simp
  | cons b l ih =>
    have hstep : k ∈ (pushUnseen key out b).map key ↔ k ∈ out.map key ∨ k = key b := by
      unfold pushUnseen
      split
      · rename_i hseen
        constructor
        · exact .inl
        · rintro (h | rfl)
          · exact h
          · exact hseen
      · simp
    rw [List.foldl_cons, ih, hstep, List.map_cons, List.mem_cons, or_assoc]

end Unseen

end Grants

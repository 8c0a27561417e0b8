import Iceslab.Agent.GeoStoreListed

/-!
# A file laid out in the geo directory

* `PutArgs.Sound` — an old `.dat` is not moved away for nothing, and a file in place is answered as
  one.
* `Laid`, `Untouched` — what a put leaves under the valid names.
* `put_ends` — a sound put leaves the one or the other, and a right cache.
-/

set_option autoImplicit false

namespace Iceslab.Agent.GeoStore

open Fallible

/-! ## A file laid out -/

section Putting

variable {sha256 : List UInt8 → String} {fates : PutFates} {a : PutArgs} {w w₀ : World}

/-- The body is in the temporary file, whole and the one announced. -/
structure Filled (sha256 : List UInt8 → String) (fates : PutFates) (a : PutArgs) : Prop where
  mkdir : fates.mkdir = .done
  createTemp : fates.createTemp = .done
  copy : fates.copy = .done
  size : a.body.length ≤ maxFileBytes
  sync : fates.sync = .done
  close : fates.close = .done
  sha : sha256 a.body = toLower a.wantSha
  chmod : fates.chmod = .done

/-- There is a `.dat` to move away. -/
def PutArgs.replaces (a : PutArgs) (fates : PutFates) (w : World) : Bool :=
  GoText.hasSuffix a.name ".dat" && decide (fates.stat = .done) && w.files.has a.name

/-- Where the body is in the temporary file: once the old file was moved away the new one comes in,
and once it is in the directory is synced. -/
def PutArgs.Sound (sha256 : List UInt8 → String) (a : PutArgs) (fates : PutFates) (w : World) :
    Prop :=
  Filled sha256 fates a →
    (a.replaces fates w = true → fates.renamePrev = .done → fates.rename ≠ .failed) ∧
    ((a.replaces fates w = true → fates.renamePrev = .done) → fates.rename = .done →
      fates.syncDir ≠ .failed)

/-- Nothing but the temporary file has changed. -/
structure OnlyTmp (a : PutArgs) (w₀ w : World) : Prop where
  cache : w.cache = w₀.cache
  others : ∀ n, n ≠ a.tmp → w.files.get? n = w₀.files.get? n

theorem OnlyTmp.write (h : OnlyTmp a w₀ w) (file : File) : OnlyTmp a w₀ (w.write a.tmp file) where
  cache := h.cache
  others n hn := by
    rw [World.get?_write, if_neg hn]
    exact h.others n hn

theorem OnlyTmp.remove (h : OnlyTmp a w₀ w) : OnlyTmp a w₀ (w.remove a.tmp) where
  cache := h.cache
  others n hn := by
    rw [World.get?_remove, if_neg hn]
    exact h.others n hn

theorem sent_eq (h : a.sent.length ≤ maxFileBytes) :
    a.sent = a.body ∧ a.body.length ≤ maxFileBytes := by
  unfold PutArgs.sent at h ⊢
  rw [List.length_take] at h
  have hle : a.body.length ≤ maxFileBytes := by omega
  exact ⟨List.take_of_length_le (by omega), hle⟩

theorem fillTemp_ends (h : OnlyTmp a w₀ w) (hmkdir : fates.mkdir = .done)
    (htemp : fates.createTemp = .done) :
    Ends (fillTemp sha256 fates a) w
      (Then (fun _ w' => OnlyTmp a w₀ w' ∧ w'.files.get? a.tmp = some ⟨a.body, a.now⟩ ∧
          Filled sha256 fates a)
        fun _ w' => OnlyTmp a w₀ w') := by
  refine ends_update_bind ?_
  have hpart := h.write ⟨a.body.take fates.copied, a.now⟩
  refine ends_op_bind (fun hcopy => ?_) (fun _ => hpart) hpart
  have hwhole := hpart.write ⟨a.sent, a.now⟩
  refine ends_require_bind (fun hsize => ?_) hwhole
  obtain ⟨hsent, hsize⟩ := sent_eq (of_decide_eq_true hsize)
  refine ends_op_bind (fun hsync => ?_) (fun _ => hwhole) hwhole
  refine ends_op_bind (fun hclose => ?_) (fun _ => hwhole) hwhole
  refine ends_require_bind (fun hsha => ?_) hwhole
  refine ends_op (fun hchmod => ⟨hwhole, ?_, ?_⟩) (fun _ => hwhole) hwhole
  · rw [hsent]
    exact World.get?_write.trans (if_pos rfl)
  · rw [hsent] at hsha
    exact ⟨hmkdir, htemp, hcopy, hsize, hsync, hclose, of_decide_eq_true hsha, hchmod⟩

/-- The old file is where it was, or away under its copy's name. -/
structure MovedAway (fates : PutFates) (a : PutArgs) (w₀ w : World) : Prop where
  cache : w.cache = w₀.cache
  others : ∀ n, validName n = true → n ≠ a.name → w.files.get? n = w₀.files.get? n
  tmp : w.files.get? a.tmp = some ⟨a.body, a.now⟩
  done : a.replaces fates w₀ = true → fates.renamePrev = .done
  stays : a.replaces fates w₀ = false → OnlyTmp a w₀ w

variable (fates) in
theorem replaces_eq (h : OnlyTmp a w₀ w) (hname : a.name ≠ a.tmp) :
    a.replaces fates w = a.replaces fates w₀ := by
  unfold PutArgs.replaces OrderedMap.has
  rw [h.others a.name hname]

variable (fates) in
theorem moveAway_ends (h : OnlyTmp a w₀ w) (htmp : w.files.get? a.tmp = some ⟨a.body, a.now⟩)
    (hname : a.name ≠ a.tmp) (hvalid : validName a.tmp = false)
    (hprev : a.name ++ prevSuffix ≠ a.tmp) :
    Ends (moveAway fates a) w
      (Then (fun _ w' => MovedAway fates a w₀ w') fun _ w' => OnlyTmp a w₀ w') := by
  have hothers : ∀ n, validName n = true → n ≠ a.name → w.files.get? n = w₀.files.get? n := by
    intro n hn _
    refine h.others n ?_
    rintro rfl
    rw [hvalid] at hn
    cases hn
  have hstays : a.replaces fates w₀ = false → MovedAway fates a w₀ w := fun hno =>
    ⟨h.cache, hothers, htmp, fun hyes => absurd hyes (Bool.eq_false_iff.mp hno), fun _ => h⟩
  have hreplaces := replaces_eq fates h hname
  unfold PutArgs.replaces at hreplaces
  unfold moveAway
  split
  · rename_i hdat
    refine ends_attempt_bind (fun hstat => ?_) (fun hstat => ?_) h
    · refine ends_state_bind ?_
      split
      · rename_i hthere
        have hyes : a.replaces fates w₀ = true := by
          unfold PutArgs.replaces
          rw [← hreplaces, hdat, hstat]
          exact hthere
        refine ends_op (fun hmoved => ?_) (fun _ => h) h
        obtain ⟨file, hfile⟩ := Option.isSome_iff_exists.mp (Bool.and_eq_true_iff.mp hthere).2
        refine ⟨?_, fun n hn hne => ?_, ?_, fun _ => hmoved, fun hno => ?_⟩
        · rw [World.rename_eq hfile]
          exact h.cache
        · have hne' : n ≠ a.name ++ prevSuffix := by
            rintro rfl
            rw [not_valid_prev] at hn
            cases hn
          rw [World.rename_eq hfile, World.get?_write, if_neg hne', World.get?_remove, if_neg hne]
          exact hothers n hn hne
        · rw [World.rename_eq hfile, World.get?_write, if_neg (Ne.symm hprev), World.get?_remove,
            if_neg (Ne.symm hname)]
          exact htmp
        · rw [hyes] at hno
          cases hno
      · rename_i hthere
        refine ends_pure (hstays ?_)
        unfold PutArgs.replaces
        rw [← hreplaces, hdat, hstat]
        exact Bool.eq_false_iff.mpr hthere
    · refine ends_state_bind (ends_pure (hstays ?_))
      unfold PutArgs.replaces
      rw [hstat]
      simp
  · rename_i hdat
    refine ends_pure (hstays ?_)
    unfold PutArgs.replaces
    rw [Bool.eq_false_iff.mpr hdat]
    rfl

/-- What a put leaves under the valid names. -/
structure Laid (sha256 : List UInt8 → String) (a : PutArgs) (w w' : World) (dto : GeoFileDto) :
    Prop where
  valid : validName a.name = true
  file : w'.files.get? a.name = some ⟨a.body, a.now⟩
  sha : sha256 a.body = toLower a.wantSha
  dto : dto = ⟨a.name, sha256 a.body, a.body.length⟩
  others : ∀ n, validName n = true → n ≠ a.name → w'.files.get? n = w.files.get? n

/-- A put that is no put: every geo file is the one it was. -/
def Untouched (w w' : World) : Prop :=
  ∀ n, validName n = true → w'.files.get? n = w.files.get? n

theorem CacheRight.of_untouched (h : CacheRight sha256 w₀) (hfiles : Untouched w₀ w)
    (hcache : w.cache = w₀.cache) : CacheRight sha256 w :=
  h.of_le (fun n hn file hfile _ _ => by rw [← hfiles n hn]; exact hfile) fun n c hc => by
    rw [← hcache]
    exact hc

theorem OnlyTmp.untouched (h : OnlyTmp a w₀ w) (hvalid : validName a.tmp = false) :
    Untouched w₀ w := by
  intro n hn
  refine h.others n ?_
  rintro rfl
  rw [hvalid] at hn
  cases hn

theorem replace_ends (h : OnlyTmp a w₀ w) (hmkdir : fates.mkdir = .done)
    (htemp : fates.createTemp = .done) (hname : a.name ≠ a.tmp) (hvalid : validName a.tmp = false)
    (hprev : a.name ++ prevSuffix ≠ a.tmp) (hsound : a.Sound sha256 fates w₀) :
    Ends (onError (do
        fillTemp sha256 fates a
        moveAway fates a
        op fates.rename .rename fun w => w.rename a.tmp a.name) fates.cleanup
          fun w => w.remove a.tmp) w
      (Then (fun _ w' => w'.files.get? a.name = some ⟨a.body, a.now⟩ ∧ w'.cache = w₀.cache ∧
          (∀ n, validName n = true → n ≠ a.name → w'.files.get? n = w₀.files.get? n) ∧
          Filled sha256 fates a ∧ fates.syncDir ≠ .failed)
        fun stop w' => ∀ e, stop = .error e → OnlyTmp a w₀ w') := by
  refine Ends.onError ?_ (fun e w' hout _ _ => (hout e rfl).remove) fun _ _ _ e he => by cases he
  refine (fillTemp_ends h hmkdir htemp).bind ?_ fun _ _ h _ _ => h
  rintro - w₁ ⟨h₁, htmp, hfilled⟩
  refine (moveAway_ends fates h₁ htmp hname hvalid hprev).bind ?_ fun _ _ h _ _ => h
  rintro - w₂ hmoved
  obtain ⟨hsafe, hsynced⟩ := hsound hfilled
  refine ends_op (fun hdone => ?_) (fun hfailed e _ => ?_) fun e he => by cases he
  · rw [World.rename_eq hmoved.tmp]
    refine ⟨World.get?_write.trans (if_pos rfl), hmoved.cache, fun n hn hne => ?_, hfilled,
      hsynced hmoved.done hdone⟩
    have htmpName : n ≠ a.tmp := by
      rintro rfl
      rw [hvalid] at hn
      cases hn
    rw [World.get?_write, if_neg hne, World.get?_remove, if_neg htmpName]
    exact hmoved.others n hn hne
  · refine hmoved.stays (Bool.eq_false_iff.mpr fun hyes => ?_)
    exact hsafe hyes (hmoved.done hyes) hfailed

theorem put_ends (h : CacheRight sha256 w) (htmp : GoText.hasPrefix a.tmp ".put-" = true)
    (hsound : a.Sound sha256 fates w) :
    Ends (put sha256 fates a) w
      (Then (fun dto w' => CacheRight sha256 w' ∧ Laid sha256 a w w' dto)
        fun stop w' => ∀ e, stop = .error e → CacheRight sha256 w' ∧ Untouched w w') := by
  have hinvalid := not_valid_of_tmp htmp
  have hsame : CacheRight sha256 w ∧ Untouched w w := ⟨h, fun _ _ => rfl⟩
  have hcrash : ∀ w' : World, ∀ e, (Stop.crashed : Stop StoreError) = .error e →
      CacheRight sha256 w' ∧ Untouched w w' := fun _ e he => by cases he
  refine ends_require_bind (fun hname => ?_) fun _ _ => hsame
  have hne : a.name ≠ a.tmp := by
    intro he
    rw [he, hinvalid] at hname
    cases hname
  have hprev : a.name ++ prevSuffix ≠ a.tmp := by
    intro he
    obtain ⟨rest, hrest⟩ := List.isPrefixOf_iff_prefix.mp htmp
    have hhead := head_of_valid hname
    have hcons := congrArg String.toList he
    rw [← hrest, String.toList_append] at hcons
    cases hchars : a.name.toList with
    | nil => simp [hchars] at hhead
    | cons c cs =>
      rw [hchars] at hcons hhead
      have hc : c = '.' := (List.cons.inj hcons).1
      rw [hc] at hhead
      simp at hhead
  refine ends_op_bind (fun hmkdir => ?_) (fun _ _ _ => hsame) (hcrash _)
  refine ends_op_bind (fun htemp => ?_) (fun _ _ _ => hsame) (hcrash _)
  have hstart : OnlyTmp a w w := ⟨rfl, fun _ _ => rfl⟩
  have hright : ∀ w', OnlyTmp a w w' → CacheRight sha256 w' ∧ Untouched w w' := fun w' hw' =>
    ⟨h.of_untouched (hw'.untouched hinvalid) hw'.cache, hw'.untouched hinvalid⟩
  refine (replace_ends (hstart.write ⟨[], a.now⟩) hmkdir htemp hne hinvalid hprev hsound).bind ?_
    fun stop w' hout e he => hright w' (hout e he)
  rintro - w₁ ⟨hfile, hcache, hothers, hfilled, hsync⟩
  refine ends_op_bind (fun _ => ?_) (fun hfailed => absurd hfailed hsync) (hcrash _)
  change Ends _ w₁ _
  have hsent : a.sent = a.body := List.take_of_length_le (by have := hfilled.size; omega)
  refine ends_update_bind (ends_pure ⟨?_, hname, hfile, hfilled.sha, ?_, hothers⟩)
  · refine h.of_le (fun n hn file hf c hc => ?_) fun n c hc => ?_
    · rw [World.get?_forget] at hc
      split at hc
      · cases hc
      · rename_i hother
        rw [← hothers n hn hother]
        exact hf
    · rw [World.get?_forget, hcache] at hc
      split at hc
      · cases hc
      · exact hc
  · rw [hsent]

end Putting

end Iceslab.Agent.GeoStore

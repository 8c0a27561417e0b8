import Iceslab.Agent.LegTunnel
import Iceslab.Lib.QuickText

/-!
# What awg-quick finds in a leg tunnel's config

`internal/chain/tunnels.go`, `validateTunnel`: the config is checked by one reader and run, as root,
by another.  The check scans the lines with a default `bufio.Scanner` and does not ask it how it
ended, so nothing is checked from the first line on that the scanner's buffer does not hold.

* `LineRead` — what the check accepts a line as, and what `awg-quick` then finds in it.
* `readConf_found` — what is found in the lines the check has read.
* `harmless_iff` — an accepted config runs nothing exactly when the lines left unread add nothing.
-/

set_option autoImplicit false

namespace Iceslab.Agent.LegTunnel

open Iceslab.Agent QuickText

/-! ## Statements -/

/-- The keys `awg-quick` runs or hands to resolvconf, and the one that writes the file back. -/
def hooks : List String := ["PreUp", "PostUp", "PreDown", "PostDown", "SaveConfig", "DNS"]

def sectionHeader (sect : String) : String := foldCase ('[' :: (sect.toList ++ [']']))

/-- A key of the whitelist, in its section. -/
def Whitelisted (found : Option String × String) : Prop :=
  ∃ sect, found.1 = some (sectionHeader sect) ∧
    ∃ key ∈ (tunnelKeys sect).getD [], found.2 = foldCase key.toList

/-- `awg-quick` finds one [Interface], one [Peer], and in them keys of the whitelist alone. -/
structure Harmless (space : Char → Bool) (t : ChainTunnel) : Prop where
  name : ∃ digits : List Char, t.iface = chainTunnelIfacePrefix ++ String.ofList digits ∧
    (∀ c ∈ digits, c.isDigit = true) ∧ 1 ≤ digits.length ∧ digits.length ≤ 3
  keys : ∀ found ∈ keys none (readLines space t.conf), Whitelisted found
  sections : (headers (readLines space t.conf)).Perm
    [sectionHeader "Interface", sectionHeader "Peer"]
  noHook : ∀ hook ∈ hooks, ∀ sect, (sect, foldCase hook.toList) ∉ QuickText.keys none
    (readLines space t.conf)

/-- The lines the scanner yields, and those from the first on that its buffer does not hold. -/
def scanned (conf : String) : List (List Char) := (conf.toList.splitOn '\n').takeWhile GoText.fits

def unscanned (conf : String) : List (List Char) := (conf.toList.splitOn '\n').dropWhile GoText.fits

/-- The lines left unread open no section and hold only keys of the whitelist of the section they
stand in; and no line read has white space around its key that is Go's but not the shell's. -/
structure UnreadPlain (space : Char → Bool) (conf : String) : Prop where
  trimmed : ∀ line ∈ scanned conf,
    GoText.trimBy space (head line) = GoText.trimBy GoText.isSpace (head line)
  noHeader : headers ((unscanned conf).map (readLine space)) = []
  keys : ∀ found ∈ keys (sect none ((scanned conf).map (readLine space)))
    ((unscanned conf).map (readLine space)), Whitelisted found

/-! ## One line -/

/-- What an accepted line is, by what stands before its comment and its equals sign. -/
inductive LineRead (r : ConfRead) : List Char → ConfRead → Prop where
  | blank : LineRead r [] r
  | interface (h : r.seenInterface = false) :
    LineRead r ('[' :: ("Interface".toList ++ [']']))
      { r with sect := "Interface", seenInterface := true }
  | peer (h : r.seenPeer = false) :
    LineRead r ('[' :: ("Peer".toList ++ [']'])) { r with sect := "Peer", seenPeer := true }
  | key {key : String} (h : key ∈ (tunnelKeys r.sect).getD []) : LineRead r key.toList r

section Line

variable {sect key iface line : String} {r r' : ConfRead} {cs u v m : List Char}

theorem tunnelKeys_some (h : tunnelKeys sect ≠ none) : sect = "Interface" ∨ sect = "Peer" := by
  unfold tunnelKeys at h
  split at h
  · exact .inl ‹_›
  · split at h
    · exact .inr ‹_›
    · exact absurd rfl h

theorem sect_of_key (h : key ∈ (tunnelKeys sect).getD []) : sect = "Interface" ∨ sect = "Peer" :=
  tunnelKeys_some fun hnone => by rw [hnone] at h; exact List.not_mem_nil h

/-- A character neither comment, nor equals sign, nor white space. -/
def isPlain (c : Char) : Bool := decide (c ≠ '#') && decide (c ≠ '=') && !GoText.isSpace c

theorem key_plain (h : key ∈ (tunnelKeys sect).getD []) :
    key.toList.all isPlain = true ∧ ∃ c cs, key.toList = c :: cs ∧ c ≠ '[' := by
  have hall : ∀ s ∈ ["Interface", "Peer"], ∀ k ∈ (tunnelKeys s).getD [],
      k.toList.all isPlain = true ∧ k.toList.head?.any (· ≠ '[') = true := by decide
  have hsect : sect ∈ ["Interface", "Peer"] := by simpa using sect_of_key h
  obtain ⟨hplain, hhead⟩ := hall sect hsect key h
  refine ⟨hplain, ?_⟩
  obtain ⟨c, hc, hne⟩ := (Option.any_eq_true _ _).mp hhead
  obtain ⟨cs, hcs⟩ := List.head?_eq_some_iff.mp hc
  exact ⟨c, cs, hcs, by simpa using hne⟩

theorem not_sep_of_isSpace {c : Char} (h : GoText.isSpace c = true) : c ≠ '#' ∧ c ≠ '=' :=
  ⟨fun hc => by subst hc; revert h; decide, fun hc => by subst hc; revert h; decide⟩

theorem head_padded (hu : ∀ c ∈ u, GoText.isSpace c = true) (hm : m.all isPlain = true)
    (hv : ∀ c ∈ v, GoText.isSpace c = true) (rest : List Char)
    (hrest : rest = [] ∨ rest.head? = some '=') :
    GoText.trimBy GoText.isSpace (head (u ++ m ++ v ++ rest)) = m := by
  have hsep : ∀ c ∈ u ++ m ++ v, c ≠ '#' ∧ c ≠ '=' := by
    intro c hc
    rcases List.mem_append.mp hc with hc | hc
    · rcases List.mem_append.mp hc with hc | hc
      · exact not_sep_of_isSpace (hu c hc)
      · have hplain := List.all_eq_true.mp hm c hc
        simp only [isPlain, Bool.and_eq_true, decide_eq_true_eq] at hplain
        exact hplain.1
    · exact not_sep_of_isSpace (hv c hc)
  have hhead : head (u ++ m ++ v ++ rest) = u ++ m ++ v := by
    rw [head, List.takeWhile_takeWhile,
      List.takeWhile_append_of_pos fun c hc => by simpa using (hsep c hc).symm]
    rcases rest with _ | ⟨c, rest⟩
    · simp
    · obtain rfl : c = '=' := by simpa using hrest
      simp
  rw [hhead, GoText.trimBy_append hu hv, GoText.trimBy_of_forall_not]
  intro c hc
  have hplain := List.all_eq_true.mp hm c hc
  simp only [isPlain, Bool.and_eq_true, Bool.not_eq_true'] at hplain
  exact hplain.2

theorem head_comment (hu : ∀ c ∈ u, GoText.isSpace c = true) (rest : List Char) :
    GoText.trimBy GoText.isSpace (head (u ++ '#' :: rest)) = [] := by
  have hhead : head (u ++ '#' :: rest) = u := by
    rw [head, List.takeWhile_takeWhile,
      List.takeWhile_append_of_pos fun c hc => by simpa using (not_sep_of_isSpace (hu c hc)).symm]
    simp
  have htrim := GoText.trimBy_append (m := []) (v := []) hu nofun
  rw [List.append_nil, List.append_nil] at htrim
  rw [hhead, htrim]
  rfl

theorem sectionLine (hbracket : GoText.hasPrefix line "[" = true ∧ GoText.hasSuffix line "]" = true)
    (hsect : GoText.trimSuffix (GoText.trimPrefix line "[") "]" = sect) :
    line.toList = '[' :: (sect.toList ++ [']']) := by
  obtain ⟨rest, hrest⟩ := List.isPrefixOf_iff_prefix.mp hbracket.1
  obtain ⟨base, hbase⟩ := List.isSuffixOf_iff_suffix.mp hbracket.2
  have hopen : "[".toList = ['['] := rfl
  have hclose : "]".toList = [']'] := rfl
  rw [hopen] at hrest
  rw [hclose] at hbase
  -- the bracket that closes is not the one that opens
  obtain ⟨inside, rfl⟩ : ∃ inside, rest = inside ++ [']'] := by
    rw [← hrest] at hbase
    rcases base with _ | ⟨c, base⟩
    · simp at hbase
    · exact ⟨base, by simpa using (List.cons.inj hbase).2.symm⟩
  have hpre : GoText.trimPrefix line "[" = String.ofList inside ++ "]" := by
    rw [GoText.trimPrefix, if_pos hbracket.1, ← hrest, ← String.toList_inj, String.toList_ofList,
      String.toList_append]
    simp
  rw [hpre, GoText.trimSuffix_append] at hsect
  rw [← hsect, String.toList_ofList, ← hrest]
  rfl

theorem head_cut {before after : String} (hcut : GoText.cut line '=' = some (before, after))
    (hkey : (GoText.trimSpace before).toList.all isPlain = true)
    (hu : ∀ c ∈ u, GoText.isSpace c = true) :
    GoText.trimBy GoText.isSpace (head (u ++ line.toList ++ v)) =
      (GoText.trimSpace before).toList := by
  unfold GoText.cut at hcut
  split at hcut
  · rename_i hmem
    obtain ⟨hbefore, hafter⟩ := Prod.mk.inj (Option.some.inj hcut)
    obtain ⟨pre, post, hsplit, hpre⟩ := List.eq_append_cons_of_mem hmem
    have hword : before.toList = pre := by
      rw [← hbefore, String.toList_ofList, hsplit, List.takeWhile_append_of_pos]
      · simp
      · exact fun c hc => decide_eq_true fun heq => hpre (heq ▸ hc)
    obtain ⟨u', v', hpad, hu', hv'⟩ := GoText.exists_trimBy GoText.isSpace before.toList
    rw [← GoText.toList_trimSpace, hword] at hpad
    have hline : u ++ line.toList ++ v =
        (u ++ u') ++ (GoText.trimSpace before).toList ++ v' ++ '=' :: (post ++ v) := by
      rw [hsplit, hpad]
      simp
    rw [hline]
    refine head_padded (fun c hc => ?_) hkey hv' _ (.inr rfl)
    exact (List.mem_append.mp hc).elim (hu c) (hu' c)
  · cases hcut

/-- What the check accepts a line as. -/
theorem readConfLine_read
    (h : readConfLine iface r (GoText.trimSpace (String.ofList cs)) = .ok r') :
    LineRead r (GoText.trimBy GoText.isSpace (head cs)) r' := by
  obtain ⟨u, v, hcs, hu, hv⟩ := GoText.exists_trimBy GoText.isSpace cs
  have hline : (GoText.trimSpace (String.ofList cs)).toList = GoText.trimBy GoText.isSpace cs := by
    rw [GoText.toList_trimSpace, String.toList_ofList]
  generalize GoText.trimSpace (String.ofList cs) = line at h hline
  rw [← hline] at hcs
  have hhead (hplain : line.toList.all isPlain = true) :
      GoText.trimBy GoText.isSpace (head cs) = line.toList := by
    have hpad := head_padded hu hplain hv [] (.inl rfl)
    rwa [List.append_nil, ← hcs] at hpad
  unfold readConfLine at h
  split at h
  · -- nothing or a comment
    rename_i hblank
    obtain rfl := Except.ok.inj h
    rcases hblank with rfl | hcomment
    · rw [hhead rfl]
      exact .blank
    · obtain ⟨rest, hrest⟩ := List.isPrefixOf_iff_prefix.mp hcomment
      have hopen : u ++ '#' :: (rest ++ v) = cs := by
        rw [hcs, ← hrest, List.append_assoc]
        rfl
      rw [← hopen, head_comment hu]
      exact .blank
  · split at h
    · -- a section
      rename_i hbracket
      obtain ⟨sect, hname⟩ : ∃ sect, GoText.trimSuffix (GoText.trimPrefix line "[") "]" = sect :=
        ⟨_, rfl⟩
      rw [hname] at h
      dsimp only at h
      split at h
      · cases h
      · rename_i hknown
        have hsect := tunnelKeys_some hknown
        have heq := sectionLine hbracket hname
        rcases hsect with rfl | rfl
        · rw [if_pos rfl] at h
          split at h
          · cases h
          · rename_i hseen
            obtain rfl := Except.ok.inj h
            rw [hhead (by rw [heq]; decide), heq]
            exact .interface (by simpa using hseen)
        · rw [if_neg (by decide)] at h
          split at h
          · cases h
          · rename_i hseen
            obtain rfl := Except.ok.inj h
            rw [hhead (by rw [heq]; decide), heq]
            exact .peer (by simpa using hseen)
    · -- a key and its value
      split at h
      · cases h
      · rename_i before after hcut
        split at h
        · cases h
        · dsimp only at h
          split at h
          · rename_i hkey
            obtain rfl := Except.ok.inj h
            rw [hcs, head_cut hcut (key_plain hkey).1 hu]
            exact .key hkey
          · cases h

end Line

/-! ## The lines that are read -/

/-- The section a reading stands in. -/
def openSect (r : ConfRead) : Option String :=
  if r.sect = "" then none else some (sectionHeader r.sect)

/-- The sections a reading has seen. -/
def seenSections (r : ConfRead) : List String :=
  (if r.seenInterface then [sectionHeader "Interface"] else [])
    ++ (if r.seenPeer then [sectionHeader "Peer"] else [])

section Run

variable {space : Char → Bool} {iface : String} {r r' : ConfRead} {line : List Char}
  {lines : List (List Char)}

theorem openSect_of_key {key : String} (h : key ∈ (tunnelKeys r.sect).getD []) :
    openSect r = some (sectionHeader r.sect) :=
  if_neg fun hempty => by rcases sect_of_key h with hs | hs <;> simp [hs] at hempty

theorem ofHead_header (sect : String) :
    ofHead ('[' :: (sect.toList ++ [']'])) = .header (sectionHeader sect) := by
  rw [ofHead, if_pos rfl]
  rfl

theorem ofHead_key {sect key : String} (h : key ∈ (tunnelKeys sect).getD []) :
    ofHead key.toList = .key (foldCase key.toList) := by
  obtain ⟨-, c, cs, hkey, hne⟩ := key_plain h
  rw [hkey, ofHead, if_neg hne]

theorem found_line (h : LineRead r (GoText.trimBy space (head line)) r') :
    (∀ found ∈ keys (openSect r) [readLine space line], Whitelisted found) ∧
      (seenSections r ++ headers [readLine space line]).Perm (seenSections r') ∧
      sect (openSect r) [readLine space line] = openSect r' := by
  unfold readLine
  generalize GoText.trimBy space (head line) = name at h
  cases h with
  | blank => exact ⟨(fun _ h => by cases h), by simp [ofHead, headers], rfl⟩
  | interface hseen =>
    rw [ofHead_header]
    refine ⟨(fun _ h => by cases h), ?_, (if_neg (by decide : "Interface" ≠ "")).symm⟩
    simp only [headers, seenSections, hseen, Bool.false_eq_true, if_false, if_true,
      List.nil_append]
    exact List.perm_append_comm
  | peer hseen =>
    rw [ofHead_header]
    refine ⟨(fun _ h => by cases h), List.Perm.of_eq ?_,
      (if_neg (by decide : "Peer" ≠ "")).symm⟩
    simp only [headers, seenSections, hseen, Bool.false_eq_true, if_false, if_true,
      List.append_nil]
  | key hkey =>
    rw [ofHead_key hkey]
    refine ⟨?_, by simp [headers], rfl⟩
    intro found hfound
    obtain rfl : found = (openSect r, _) := List.mem_singleton.mp hfound
    exact ⟨r.sect, openSect_of_key hkey, _, hkey, rfl⟩

theorem trimSpace_dropCR (cs : List Char) :
    GoText.trimSpace (String.ofList (GoText.dropCR cs)) = GoText.trimSpace (String.ofList cs) := by
  rw [← String.toList_inj, GoText.toList_trimSpace, GoText.toList_trimSpace, String.toList_ofList,
    String.toList_ofList, GoText.trimBy_dropCR]

theorem readConf_cons {line : String} {lines : List String}
    (h : readConf iface r (line :: lines) = .ok r') :
    ∃ r₁, readConfLine iface r (GoText.trimSpace line) = .ok r₁ ∧ readConf iface r₁ lines = .ok r' := by
  rw [readConf] at h
  split at h
  · cases h
  · exact ⟨_, ‹_›, h⟩

theorem readConf_blank {lines : List String} (h : ∀ line ∈ lines, line = "") :
    readConf iface r lines = .ok r := by
  induction lines with
  | nil => rfl
  | cons line lines ih =>
    obtain ⟨rfl, hlines⟩ := List.forall_mem_cons.mp h
    exact ih hlines

theorem readConf_append {a b : List String} (h : readConf iface r a = .ok r')
    (hb : ∀ line ∈ b, line = "") : readConf iface r (a ++ b) = .ok r' := by
  induction a generalizing r with
  | nil =>
    obtain rfl := Except.ok.inj h
    exact readConf_blank hb
  | cons line a ih =>
    obtain ⟨r₁, hline, hrest⟩ := readConf_cons h
    rw [List.cons_append, readConf, hline]
    exact ih hrest

/-- What is found in the lines that are read is allowed. -/
theorem readConf_found (h : readConf iface r (lines.map (String.ofList ∘ GoText.dropCR)) = .ok r')
    (htrim : ∀ line ∈ lines,
      GoText.trimBy space (head line) = GoText.trimBy GoText.isSpace (head line)) :
    (∀ found ∈ keys (openSect r) (lines.map (readLine space)), Whitelisted found) ∧
      (seenSections r ++ headers (lines.map (readLine space))).Perm (seenSections r') ∧
      sect (openSect r) (lines.map (readLine space)) = openSect r' := by
  induction lines generalizing r with
  | nil =>
    obtain rfl := Except.ok.inj h
    exact ⟨nofun, by simp [headers], rfl⟩
  | cons line lines ih =>
    obtain ⟨htrim₁, htrim⟩ := List.forall_mem_cons.mp htrim
    rw [List.map_cons] at h ⊢
    obtain ⟨r₁, hline, hrest⟩ := readConf_cons h
    have hread := readConfLine_read (trimSpace_dropCR line ▸ hline)
    rw [← htrim₁] at hread
    obtain ⟨hkeys₁, hsections₁, hsect₁⟩ := found_line hread
    obtain ⟨hkeys, hsections, hsect⟩ := ih hrest htrim
    rw [← List.singleton_append, keys_append, headers_append, sect_append, hsect₁]
    refine ⟨fun found hfound => ?_, ?_, hsect⟩
    · exact (List.mem_append.mp hfound).elim (hkeys₁ found) (hkeys found)
    · rw [← List.append_assoc]
      exact (hsections₁.append_right _).trans hsections

end Run

/-! ## An accepted config -/

section Accepted

variable {space : Char → Bool} {t : ChainTunnel}

theorem iface_of_isTunnelIface (h : isTunnelIface t.iface = true) :
    ∃ digits : List Char, t.iface = chainTunnelIfacePrefix ++ String.ofList digits ∧
      (∀ c ∈ digits, c.isDigit = true) ∧ 1 ≤ digits.length ∧ digits.length ≤ 3 := by
  simp only [isTunnelIface, Bool.and_eq_true, decide_eq_true_eq, List.all_eq_true] at h
  obtain ⟨⟨⟨hpre, hdigits⟩, hmin⟩, hmax⟩ := h
  obtain ⟨digits, hiface⟩ := List.isPrefixOf_iff_prefix.mp hpre
  rw [← hiface, List.drop_left] at hdigits hmin hmax
  refine ⟨digits, ?_, hdigits, hmin, hmax⟩
  rw [← String.toList_inj, String.toList_append, String.toList_ofList, hiface]

/-- What an accepted tunnel's lines were read as. -/
theorem validateTunnel_read (h : validateTunnel t = .ok ()) :
    isTunnelIface t.iface = true ∧ ∃ r, r.seenInterface = true ∧ r.seenPeer = true ∧
      readConf t.iface ⟨"", false, false⟩
        ((scanned t.conf).map (String.ofList ∘ GoText.dropCR)) = .ok r := by
  unfold validateTunnel at h
  split at h
  · cases h
  · rename_i hname
    split at h
    · cases h
    · split at h
      · cases h
      · rename_i r hread
        split at h
        · rename_i hseen
          obtain ⟨blank, hscan, hblank⟩ :=
            GoText.scanSegments_eq (t.conf.toList.splitOn '\n')
          refine ⟨by simpa using hname, r, hseen.1, hseen.2, ?_⟩
          rw [scanned, hscan]
          exact readConf_append hread hblank
        · cases h

theorem readLines_eq (space : Char → Bool) (conf : String) :
    readLines space conf =
      (scanned conf).map (readLine space) ++ (unscanned conf).map (readLine space) := by
  rw [← List.map_append, scanned, unscanned, List.takeWhile_append_dropWhile, readLines]

/-- No name the whitelist allows holds white space. -/
theorem no_space_of_whitelisted {found : Option String × String} (h : Whitelisted found) :
    ∀ c ∈ found.2.toList, GoText.isSpace c = false := by
  obtain ⟨sect, -, key, hkey, hname⟩ := h
  have hall : ∀ s ∈ ["Interface", "Peer"], ∀ k ∈ (tunnelKeys s).getD [],
      (foldCase k.toList).toList.all (fun c => !GoText.isSpace c) = true := by decide
  rw [hname]
  simpa using hall sect (by simpa using sect_of_key hkey) key hkey

theorem no_space_of_section {name : String}
    (h : name ∈ [sectionHeader "Interface", sectionHeader "Peer"]) :
    ∀ c ∈ name.toList, GoText.isSpace c = false := by
  have hall : ∀ name ∈ [sectionHeader "Interface", sectionHeader "Peer"],
      name.toList.all (fun c => !GoText.isSpace c) = true := by decide
  simpa using hall name h

theorem not_whitelisted_hook {hook : String} (h : hook ∈ hooks) (sect : Option String) :
    ¬ Whitelisted (sect, foldCase hook.toList) := by
  rintro ⟨sect', -, key, hkey, hname⟩
  have hall : ∀ hook ∈ hooks, ∀ s ∈ ["Interface", "Peer"], ∀ k ∈ (tunnelKeys s).getD [],
      foldCase hook.toList ≠ foldCase k.toList := by decide
  exact hall hook h sect' (by simpa using sect_of_key hkey) key hkey hname

/-- Where nothing is found but what is allowed, both readers trim every line alike. -/
theorem Harmless.trimmed (hspace : ∀ c, space c = true → GoText.isSpace c = true)
    (h : Harmless space t) {line : List Char} (hline : line ∈ t.conf.toList.splitOn '\n') :
    GoText.trimBy space (head line) = GoText.trimBy GoText.isSpace (head line) := by
  by_contra hne
  obtain ⟨c, hc, hwhite⟩ := exists_space_of_ne hspace hne
  have hmem : readLine space line ∈ readLines space t.conf := List.mem_map_of_mem hline
  cases hread : readLine space line with
  | blank => simp [hread, Line.name] at hc
  | header name =>
    rw [hread] at hmem hc
    have hsection := h.sections.subset (mem_headers hmem)
    simp [no_space_of_section hsection c hc] at hwhite
  | key name =>
    rw [hread] at hmem hc
    obtain ⟨s, hfound⟩ := mem_keys (s := none) hmem
    simp [no_space_of_whitelisted (h.keys _ hfound) c hc] at hwhite

end Accepted

/-- An accepted config runs nothing exactly when the lines from the first on that the scanner's
buffer does not hold open no section and hold no key of their own, and no line read is padded by
white space that is not the shell's. -/
theorem harmless_iff {space : Char → Bool} {t : ChainTunnel}
    (hspace : ∀ c, space c = true → GoText.isSpace c = true) (h : validateTunnel t = .ok ()) :
    Harmless space t ↔ UnreadPlain space t.conf := by
  obtain ⟨hname, r, hinterface, hpeer, hread⟩ := validateTunnel_read h
  have hseen : seenSections r = [sectionHeader "Interface", sectionHeader "Peer"] := by
    simp [seenSections, hinterface, hpeer]
  constructor
  · intro hharmless
    have htrim : ∀ line ∈ scanned t.conf,
        GoText.trimBy space (head line) = GoText.trimBy GoText.isSpace (head line) :=
      fun line hline => hharmless.trimmed hspace ((List.takeWhile_sublist _).subset hline)
    obtain ⟨-, hsections, -⟩ := readConf_found hread htrim
    have hall := hharmless.sections
    rw [readLines_eq, headers_append] at hall
    refine ⟨htrim, ?_, fun found hfound => hharmless.keys found ?_⟩
    · have hlen := hall.length_eq
      have hlen' := hsections.length_eq
      rw [hseen] at hlen'
      refine List.eq_nil_of_length_eq_zero ?_
      have hnone : seenSections ⟨"", false, false⟩ = [] := rfl
      rw [hnone, List.nil_append] at hlen'
      rw [List.length_append, hlen'] at hlen
      simpa using hlen
    · rw [readLines_eq, keys_append]
      exact List.mem_append_right _ hfound
  · rintro ⟨htrim, hheader, hkeys⟩
    obtain ⟨hfound, hsections, -⟩ := readConf_found hread htrim
    have hall : ∀ found ∈ keys none (readLines space t.conf), Whitelisted found := by
      intro found hmem
      rw [readLines_eq, keys_append] at hmem
      exact (List.mem_append.mp hmem).elim (hfound found) (hkeys found)
    refine ⟨iface_of_isTunnelIface hname, hall, ?_, fun hook hhook sect hmem =>
      not_whitelisted_hook hhook sect (hall _ hmem)⟩
    rw [readLines_eq, headers_append, hheader, List.append_nil, ← hseen]
    exact hsections

/-- The white space of the shell in its plain locale. -/
def shellSpace (c : Char) : Bool := decide (c.toNat ∈ [9, 10, 11, 12, 13, 32])

theorem isSpace_of_shellSpace (c : Char) (h : shellSpace c = true) : GoText.isSpace c = true := by
  simp only [shellSpace, decide_eq_true_eq] at h
  unfold GoText.isSpace
  rw [Bool.or_eq_true, decide_eq_true_eq]
  left
  revert h
  simp only [List.mem_cons, List.not_mem_nil, or_false]
  omega

def shortTunnel : ChainTunnel where
  iface := "awg-l0"
  listenPort := 0
  conf := "[Interface]\nPrivateKey = k\n[Peer]\nEndpoint = h:1 # far end"

theorem harmless_iff_short :
    validateTunnel shortTunnel = .ok () ∧ Harmless shellSpace shortTunnel := by
  have hok : validateTunnel shortTunnel = .ok () := by decide
  have hunread : unscanned shortTunnel.conf = [] := by decide
  refine ⟨hok, (harmless_iff isSpace_of_shellSpace hok).mpr ⟨by decide, ?_, ?_⟩⟩
  · rw [hunread]
    rfl
  · rw [hunread]
    exact nofun

def comment (n : Nat) : List Char := '#' :: List.replicate n 'x'

theorem break_notMem_comment (n : Nat) : '\n' ∉ comment n := by simp [comment, List.mem_replicate]

theorem byteLength_comment (n : Nat) : GoText.byteLength (comment n) = 1 + n := by
  have hx : Char.utf8Size 'x' = 1 := by decide
  have hhash : Char.utf8Size '#' = 1 := by decide
  rw [GoText.byteLength, comment, List.map_cons, List.map_replicate, List.sum_cons,
    List.sum_replicate_nat, hx, hhash, Nat.mul_one]

theorem readLine_comment (space : Char → Bool) (n : Nat) : readLine space (comment n) = .blank := by
  simp [readLine, head, comment, GoText.trimBy, ofHead]

/-- A hook behind a comment of 64 KiB. -/
def longLines : List (List Char) :=
  ["[Peer]".toList, "[Interface]".toList, comment 65535, "PostUp = id".toList]

def longTunnel : ChainTunnel where
  iface := "awg-l0"
  listenPort := 0
  conf := String.ofList (['\n'].intercalate longLines)

theorem splitOn_longTunnel : longTunnel.conf.toList.splitOn '\n' = longLines := by
  unfold longTunnel
  rw [String.toList_ofList]
  refine List.splitOn_intercalate _ ?_ (List.cons_ne_nil _ _)
  intro line hline
  simp only [longLines, List.mem_cons, List.not_mem_nil, or_false] at hline
  rcases hline with rfl | rfl | rfl | rfl
  · decide
  · decide
  · exact break_notMem_comment _
  · decide

/-- The hook behind a long comment: the check does not see it, `awg-quick` does. -/
theorem hook_past_long_line : ¬ ∀ t, validateTunnel t = .ok () → Harmless shellSpace t := by
  intro hclaim
  have hscan : GoText.scanLines longTunnel.conf = ["[Peer]", "[Interface]"] := by
    rw [GoText.scanLines, splitOn_longTunnel]
    have hlong : GoText.maxScanTokenSize ≤ GoText.byteLength (comment 65535) := by
      rw [byteLength_comment]
      decide
    have hrest : GoText.scanSegments [comment 65535, "PostUp = id".toList] = [] := if_pos hlong
    have hinterface : ¬ GoText.maxScanTokenSize ≤ GoText.byteLength "[Interface]".toList := by
      decide
    have hpeer : ¬ GoText.maxScanTokenSize ≤ GoText.byteLength "[Peer]".toList := by decide
    rw [longLines, GoText.scanSegments, if_neg hpeer, GoText.scanSegments, if_neg hinterface, hrest]
    · decide
    all_goals simp
  have haccept : validateTunnel longTunnel = .ok () := by
    unfold validateTunnel
    rw [hscan]
    decide
  have hread : readLines shellSpace longTunnel.conf =
      [.header "[peer]", .header "[interface]", .blank, .key "postup"] := by
    rw [readLines, splitOn_longTunnel, longLines, List.map_cons, List.map_cons, List.map_cons,
      List.map_cons, List.map_nil, readLine_comment]
    decide
  refine (hclaim longTunnel haccept).noHook "PostUp" (by decide) (some "[interface]") ?_
  rw [hread]
  decide

end Iceslab.Agent.LegTunnel

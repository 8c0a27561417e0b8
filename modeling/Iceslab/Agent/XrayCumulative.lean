import Iceslab.Agent.XrayCounters

/-!
# The counters of xray are cumulative

A row is the counter of an id and that of a login, and the core counts by name alone: a row is what
its user moved as long as every name that was on the core for somebody is reported for that one and
for nobody else.

* `counter_eq` — what is read off an answer is what the core counted.
* `Settled` — a user comes with names that are, and stay, theirs.
* `cumulative` — from poll to poll a row grows by what the user moved.
* `login_reused` — a name given to a second user brings the bytes of the first.
-/

set_option autoImplicit false

namespace Iceslab.Agent.XrayCounters

/-! ## Names -/

section Names

variable {name key key' : String} {d d' : Direction}

theorem parseDirection_eq_some {s : String} (h : parseDirection s = some d) : s = d.name := by
  unfold parseDirection at h
  split at h
  · rename_i hs
    cases h
    exact hs
  · split at h
    · rename_i hs
      cases h
      exact hs
    · cases h

theorem parseDirection_name : parseDirection d.name = some d := by
  cases d <;> rfl

theorem statName_eq :
    statName key d = String.intercalate ">>>" ["user", key, "traffic", d.name] := by
  refine String.toList_inj.mp ?_
  unfold statName
  simp [String.toList_append]

/-- What is read of a name is what it was made of. -/
theorem eq_statName (h : parseStatName name = some (key, d)) : name = statName key d := by
  unfold parseStatName parseName at h
  split at h
  · rename_i k key' t dname hparts
    split at h
    · rename_i hkind
      obtain ⟨d', hd, hpair⟩ := Option.map_eq_some_iff.mp h
      obtain ⟨rfl, rfl⟩ := Prod.mk.inj hpair
      have hname := GoText.intercalate_split name (by decide : ">>>" ≠ "")
      rw [hparts, hkind.1, hkind.2, parseDirection_eq_some hd] at hname
      rw [statName_eq, hname]
    · cases h
  · cases h

theorem statName_inj (h : statName key d = statName key' d') : key = key' ∧ d = d' := by
  have hd : d = d' := by
    have hlast := congrArg (fun s : String => s.toList.reverse.take 5) h
    cases d <;> cases d' <;> first | rfl | simp [statName, Direction.name] at hlast
  subst hd
  have hlist := congrArg String.toList h
  simp only [statName, String.toList_append, List.append_assoc] at hlist
  have hkey := List.append_cancel_right (List.append_cancel_left hlist)
  exact ⟨String.toList_inj.mp hkey, rfl⟩

/-- The core's name for a key is read as that key. -/
def Readable (key : String) : Prop := ∀ d, parseStatName (statName key d) = some (key, d)

theorem readable_of_notMem (h : '>' ∉ key.toList) : Readable key := by
  intro d
  have hd : '>' ∉ d.name.toList := by cases d <;> decide
  have hparts : GoText.split (statName key d) ">>>" = ["user", key, "traffic", d.name] := by
    have huser : '>' ∉ "user".toList := by decide
    have htraffic : '>' ∉ "traffic".toList := by decide
    have hname : (statName key d).toList = "user".toList ++ ['>', '>', '>'] ++ (key.toList ++
        ['>', '>', '>'] ++ ("traffic".toList ++ ['>', '>', '>'] ++ d.name.toList)) := by
      unfold statName
      simp [String.toList_append]
    unfold GoText.split
    rw [hname, show ">>>".toList = ['>', '>', '>'] from rfl, GoText.splitFrom_append huser,
      GoText.splitFrom_append h, GoText.splitFrom_append htraffic, GoText.splitFrom_of_notMem hd]
    simp
  unfold parseStatName parseName
  rw [hparts]
  simp [parseDirection_name]

end Names

/-! ## Values -/

section Values

variable {n : Nat} {raw : String}

/-- Digits read in int64 are the number they spell, taken in int64. -/
theorem foldl_digits (cs : List Char) (n : Nat) :
    cs.foldl (fun n c => n * 10 + Int64.ofNat (c.toNat - '0'.toNat)) (Int64.ofNat n)
      = Int64.ofNat (Nat.ofDigitChars 10 cs n) := by
  induction cs generalizing n with
  | nil => rfl
  | cons c cs ih =>
    have hten : (10 : Int64) = Int64.ofNat 10 := rfl
    rw [List.foldl_cons, hten, ← Int64.ofNat_mul, ← Int64.ofNat_add, ← hten, ih, Nat.mul_comm n]
    rfl

theorem parseInt64String_repr : parseInt64String (Nat.repr n) = some (Int64.ofNat n) := by
  have hdigits : (Nat.repr n).toList.all Char.isDigit = true := by
    rw [Nat.toList_repr, List.all_eq_true]
    intro c hc
    exact Nat.isDigit_of_mem_toDigits (by decide) (by decide) hc
  have hzero : (0 : Int64) = Int64.ofNat 0 := rfl
  rw [parseInt64String, if_pos hdigits, hzero, foldl_digits, Nat.toList_repr,
    Nat.ofDigitChars_ten_toDigits]

theorem isDigit_of_mem_repr {c : Char} (h : c ∈ (Nat.repr n).toList) : c.isDigit = true := by
  rw [Nat.toList_repr] at h
  exact Nat.isDigit_of_mem_toDigits (by decide) (by decide) h

theorem not_isSpace_of_isDigit {c : Char} (h : c.isDigit = true) : GoText.isSpace c = false := by
  have hc : 48 ≤ c.toNat ∧ c.toNat ≤ 57 := Char.isDigit_iff_toNat.mp h
  unfold GoText.isSpace
  simp only [List.mem_cons, List.not_mem_nil, or_false, Bool.or_eq_false_iff,
    decide_eq_false_iff_not, Bool.and_eq_false_iff]
  omega

theorem trimSpace_of_noSpace {s : String} (h : ∀ c ∈ s.toList, GoText.isSpace c = false) :
    GoText.trimSpace s = s := by
  have hdrop : ∀ cs : List Char, (∀ c ∈ cs, GoText.isSpace c = false) →
      cs.dropWhile GoText.isSpace = cs := by
    intro cs hcs
    cases cs with
    | nil => rfl
    | cons c cs => exact List.dropWhile_cons_of_neg (by simp [hcs c List.mem_cons_self])
  unfold GoText.trimSpace
  rw [hdrop _ h, hdrop _ fun c hc => h c (List.mem_reverse.mp hc), List.reverse_reverse,
    String.ofList_toList]

/-- A counter's value is read as its number, and what is left out as nothing. -/
theorem statEntryInt64_spelled (h : Spelled n raw) : (statEntryInt64 raw).getD 0 = Int64.ofNat n := by
  have hne : (Nat.repr n).toList ≠ [] := by
    rw [Nat.toList_repr]
    exact Nat.toDigits_ne_nil
  rcases h with rfl | rfl | ⟨rfl, rfl⟩
  · have hquote : (Nat.repr n).toList.head? ≠ some '"' := by
      intro hhead
      have := isDigit_of_mem_repr (List.mem_of_mem_head? (Option.mem_def.mpr hhead))
      exact absurd this (by decide)
    unfold statEntryInt64
    rw [trimSpace_of_noSpace fun c hc => not_isSpace_of_isDigit (isDigit_of_mem_repr hc)]
    simp only [if_neg hne, hquote, false_and, if_false, String.ofList_toList, parseInt64String_repr,
      Option.getD_some]
  · have hlist : ("\"" ++ Nat.repr n ++ "\"").toList = '"' :: ((Nat.repr n).toList ++ ['"']) := by
      simp [String.toList_append]
    unfold statEntryInt64
    rw [trimSpace_of_noSpace]
    · rw [hlist, if_neg (List.cons_ne_nil _ _), if_pos, List.tail_cons, List.dropLast_concat,
        String.ofList_toList, parseInt64String_repr, Option.getD_some]
      rw [List.head?_cons, List.getLast?_cons, List.getLast?_concat]
      exact ⟨rfl, rfl⟩
    · intro c hc
      rw [hlist] at hc
      rcases List.mem_cons.mp hc with rfl | hc
      · decide
      · rcases List.mem_append.mp hc with hc | hc
        · exact not_isSpace_of_isDigit (isDigit_of_mem_repr hc)
        · rw [List.mem_singleton.mp hc]
          decide
  · decide

end Values

/-! ## The counters of an answer -/

section Answer

variable {movements : List Movement} {stat : List XrayStatEntry} {key : String} {d : Direction}

/-- What an entry adds to a counter. -/
def reading (key : String) (d : Direction) (e : XrayStatEntry) : Option Int64 :=
  (userEntry e).bind fun r => if r.1 = key ∧ r.2.1 = d then some r.2.2 else none

theorem UserByteCounters.of_add (c : UserByteCounters) (d d' : Direction) (bytes : Int64) :
    (c.add d' bytes).of d = c.of d + if d' = d then bytes else 0 := by
  cases d <;> cases d' <;> simp [UserByteCounters.add, UserByteCounters.of]

/-- A counter is the sum of its readings. -/
theorem queryUserStats_of (stat : List XrayStatEntry) (key : String) (d : Direction) :
    (((queryUserStats stat).get? key).getD ⟨0, 0⟩).of d = (stat.filterMap (reading key d)).sum := by
  have hfold : ∀ (l : List (String × Direction × Int64)) (o : Option UserByteCounters),
      ((l.foldl (fun o r => some ((o.getD ⟨0, 0⟩).add r.2.1 r.2.2)) o).getD ⟨0, 0⟩).of d =
        (o.getD ⟨0, 0⟩).of d +
          (l.filterMap fun r => if r.2.1 = d then some r.2.2 else none).sum := by
    intro l
    induction l with
    | nil => simp
    | cons r l ih =>
      intro o
      rw [List.foldl_cons, ih, Option.getD_some, UserByteCounters.of_add, List.filterMap_cons]
      by_cases hd : r.2.1 = d
      · simp [hd, Int64.add_assoc]
      · simp [hd]
  have hzero : ((none : Option UserByteCounters).getD ⟨0, 0⟩).of d = 0 := by cases d <;> rfl
  unfold queryUserStats
  rw [OrderedMap.get?_collect, hfold, hzero, Int64.zero_add, List.filterMap_filter,
    List.filterMap_filterMap]
  congr 1
  refine List.filterMap_congr fun e _ => ?_
  unfold reading
  refine congrArg (userEntry e).bind (funext fun r => ?_)
  by_cases hkey : r.1 = key <;> simp [hkey]

theorem name_of_reading {e : XrayStatEntry} (h : reading key d e ≠ none) :
    e.name = statName key d := by
  obtain ⟨n, hn⟩ := Option.ne_none_iff_exists'.mp h
  obtain ⟨⟨k, d', b⟩, hentry, hif⟩ := Option.bind_eq_some_iff.mp hn
  unfold userEntry at hentry
  obtain ⟨⟨k', d''⟩, hname, hentry⟩ := Option.bind_eq_some_iff.mp hentry
  obtain ⟨b', -, hentry⟩ := Option.bind_eq_some_iff.mp hentry
  obtain ⟨rfl, rfl, rfl⟩ : k' = k ∧ d'' = d' ∧ b' = b := by simpa using hentry
  split at hif
  · rename_i hkey
    obtain ⟨rfl, rfl⟩ : k' = key ∧ d'' = d := hkey
    exact eq_statName hname
  · cases hif

theorem reading_statName {e : XrayStatEntry} (hkey : Readable key) (h : e.name = statName key d) :
    reading key d e = statEntryInt64 e.value := by
  unfold reading userEntry
  rw [h, hkey d]
  cases statEntryInt64 e.value <;> simp

/-- Of names that are all different, one entry at most is read. -/
theorem filterMap_eq_of_nodup {α : Type} {l : List α} {name : α → String} {f : α → Option Int64}
    {a : α} (hnodup : (l.map name).Nodup) (ha : a ∈ l) (h : ∀ b ∈ l, f b ≠ none → name b = name a) :
    l.filterMap f = (f a).toList := by
  have hone := OrderedMap.filter_key_of_nodup name hnodup ha
  calc l.filterMap f
      = (l.filter fun b => decide (name b = name a)).filterMap f := by
        rw [List.filterMap_filter]
        refine List.filterMap_congr fun b hb => ?_
        split
        · rfl
        · rename_i hne
          exact by_contra fun hf => hne (decide_eq_true (h b hb hf))
    _ = (f a).toList := by
        rw [hone]
        cases hf : f a with
        | none => rw [List.filterMap_cons_none hf]; rfl
        | some n => rw [List.filterMap_cons_some hf]; rfl

/-- What is read off a truthful answer is what the core counted. -/
theorem counter_eq (h : Answers movements stat) (hbound : counted movements key d < 2 ^ 63)
    (hread : counted movements key d ≠ 0 → Readable key) :
    (((queryUserStats stat).get? key).getD ⟨0, 0⟩).of d = Int64.ofNat (counted movements key d) := by
  rw [queryUserStats_of]
  by_cases hthere : ∃ e ∈ stat, e.name = statName key d
  · obtain ⟨e, he, hname⟩ := hthere
    rw [filterMap_eq_of_nodup h.oneEntry he fun b _ hb => (name_of_reading hb).trans hname.symm]
    have hvalue := statEntryInt64_spelled (h.counts e he key d hname hbound)
    by_cases hzero : counted movements key d = 0
    · cases hr : reading key d e with
      | none =>
        rw [hzero]
        rfl
      | some n =>
        obtain ⟨r, hentry, hif⟩ := Option.bind_eq_some_iff.mp hr
        obtain ⟨p, -, hentry⟩ := Option.bind_eq_some_iff.mp hentry
        obtain ⟨b, hb, hentry⟩ := Option.bind_eq_some_iff.mp hentry
        have hn : b = n := by
          obtain rfl : (p.1, p.2, b) = r := by simpa using hentry
          split at hif
          · exact Option.some.inj hif
          · cases hif
        rw [hb, hn, Option.getD_some] at hvalue
        simp [hvalue]
    · rw [reading_statName (hread hzero) hname, ← hvalue]
      cases statEntryInt64 e.value <;> simp
  · have hzero : counted movements key d = 0 := by_contra fun hne => hthere (h.listed key d hne)
    have hnil : stat.filterMap (reading key d) = [] := by
      rw [List.filterMap_eq_nil_iff]
      exact fun e he => by_contra fun hr => hthere ⟨e, he, name_of_reading hr⟩
    rw [hnil, hzero]
    rfl

end Answer

/-! ## Whose bytes are counted -/

section Sums

variable {movements : List Movement} {d : Direction}

theorem counted_cons (m : Movement) (key : String) :
    counted (m :: movements) key d =
      (if m.key = key then if m.direction = d then m.bytes else 0 else 0) +
        counted movements key d := by
  unfold counted
  by_cases hkey : m.key = key <;> by_cases hd : m.direction = d <;> simp [hkey, hd]

theorem exists_of_counted {key : String} (h : counted movements key d ≠ 0) :
    ∃ m ∈ movements, m.key = key := by
  by_contra hnone
  refine h ?_
  unfold counted
  rw [List.filter_eq_nil_iff.mpr fun m hm hkey => hnone ⟨m, hm, (of_decide_eq_true hkey).1⟩]
  rfl

theorem moved_cons (m : Movement) (who : String) :
    moved (m :: movements) who d =
      (if m.who = who then if m.direction = d then m.bytes else 0 else 0) +
        moved movements who d := by
  unfold moved
  by_cases hwho : m.who = who <;> by_cases hd : m.direction = d <;> simp [hwho, hd]

theorem moved_append (earlier later : List Movement) (who : String) :
    moved (earlier ++ later) who d = moved earlier who d + moved later who d := by
  unfold moved
  rw [List.filter_append, List.map_append, List.sum_append]

theorem sum_ite_of_nodup {keys : List String} (h : keys.Nodup) (key : String) (n : Nat) :
    (keys.map fun k => if key = k then n else 0).sum = if key ∈ keys then n else 0 := by
  induction keys with
  | nil => rfl
  | cons k keys ih =>
    obtain ⟨hk, hkeys⟩ := List.nodup_cons.mp h
    rw [List.map_cons, List.sum_cons, ih hkeys]
    by_cases he : key = k
    · subst he
      simp [hk]
    · simp [he]

theorem sum_map_add {α : Type} (l : List α) (f g : α → Nat) :
    (l.map fun a => f a + g a).sum = (l.map f).sum + (l.map g).sum := by
  induction l with
  | nil => rfl
  | cons a l ih =>
    simp only [List.map_cons, List.sum_cons, ih]
    omega

/-- Keys that are one user's and nobody else's count what that user moved. -/
theorem sum_counted {keys : List String} (hkeys : keys.Nodup) {who : String}
    (h : ∀ m ∈ movements, m.key ∈ keys ↔ m.who = who) :
    (keys.map fun key => counted movements key d).sum = moved movements who d := by
  induction movements with
  | nil => simp [counted, moved]
  | cons m movements ih =>
    have hm := h m List.mem_cons_self
    simp only [counted_cons, sum_map_add, moved_cons, sum_ite_of_nodup hkeys]
    rw [ih fun m' hm' => h m' (List.mem_cons_of_mem m hm')]
    by_cases hwho : m.who = who
    · rw [if_pos (hm.mpr hwho), if_pos hwho]
    · rw [if_neg (mt hm.mp hwho), if_neg hwho]

theorem ofNat_sum (l : List Nat) : (l.map Int64.ofNat).sum = Int64.ofNat l.sum := by
  induction l with
  | nil => rfl
  | cons n l ih => rw [List.map_cons, List.sum_cons, List.sum_cons, ih, Int64.ofNat_add]

theorem le_sum_of_mem {l : List Nat} {n : Nat} (h : n ∈ l) : n ≤ l.sum := by
  induction l with
  | nil => cases h
  | cons m l ih =>
    rw [List.sum_cons]
    rcases List.mem_cons.mp h with rfl | h
    · exact Nat.le_add_right _ _
    · exact (ih h).trans (Nat.le_add_left _ _)

end Sums

/-! ## One process, whose users keep their names -/

section Process

variable {inbounds : List Inbound} {s : State} {user : User}

/-- The client's names are its user's: every name that was on the core for the user is reported for
them, none of those reported was there for another, and none that comes on is reported for another
or cannot be told from a name of the core. -/
structure Settled (inbounds : List Inbound) (s : State) (userID : String) (c : Client) : Prop where
  own : ∀ who key, (who, key) ∈ s.held → (key ∈ c.reportedKeys userID ↔ who = userID)
  free : ∀ key ∈ inbounds.filterMap c.keyOn, ∀ other client, s.users.get? other = some client →
    other ≠ userID → key ∉ client.reportedKeys other
  readable : ∀ key ∈ inbounds.filterMap c.keyOn, Readable key

/-- The names that a user is added with are theirs, and what one has moved stays an int64. -/
def Event.Settled (inbounds : List Inbound) (s : State) : Event → Prop
  | .addUser user => XrayCounters.Settled inbounds s user.userID (desired user "")
  | .addUserOn user inboundIDs => XrayCounters.Settled inbounds s user.userID
      (desired user (String.intercalate "," (inboundIDs.mergeSort fun a b => decide (a ≤ b))))
  | .traffic who _ direction bytes => moved s.movements who direction + bytes < 2 ^ 63
  | _ => True

/-- A run of one process where every name that is given is the user's own. -/
def settledProcess (inbounds : List Inbound) : Machine State Event where
  start := (oneProcess inbounds).start
  step s e s' := (oneProcess inbounds).step s e s' ∧ e.Settled inbounds s

/-- Every row is what its user had moved. -/
def Poll.Exact (p : Poll) : Prop :=
  ∀ r ∈ p.stats.users, ∀ d, (r.of d).toInt = moved p.movements r.userID d

structure ProcessInv (s : State) : Prop where
  owned : ∀ id c, s.users.get? id = some c → ∀ who key, (who, key) ∈ s.held →
    (key ∈ c.reportedKeys id ↔ who = id)
  readable : ∀ who key, (who, key) ∈ s.held → Readable key
  held : ∀ m ∈ s.movements, (m.who, m.key) ∈ s.held
  bounded : ∀ who d, moved s.movements who d < 2 ^ 63
  exact : ∀ p ∈ s.polls, p.Exact ∧ p.movements <+: s.movements
  ordered : s.polls.Pairwise fun p q => p.movements <+: q.movements

/-! ### The rows of a poll -/

theorem nodup_reportedKeys (id : String) (c : Client) : (c.reportedKeys id).Nodup := by
  unfold Client.reportedKeys
  split
  · rename_i hlogin
    simp [Ne.symm hlogin.2]
  · exact List.nodup_singleton id

theorem userRow_of (counters : OrderedMap String UserByteCounters) (u : String × Client)
    (d : Direction) : (userRow counters u).of d =
      ((u.2.reportedKeys u.1).map fun key => ((counters.get? key).getD ⟨0, 0⟩).of d).sum := by
  cases d <;> rfl

/-- A poll of a truthful core reports what every user has moved. -/
theorem exact_poll (h : ProcessInv s) {q : Queries}
    (hq : ∀ stat, q.user = some stat → Answers s.movements stat) :
    (⟨getStats s.users q true true, s.movements⟩ : Poll).Exact := by
  intro r hr d
  unfold getStats at hr
  cases hrows : userRows s.users q with
  | none => simp [hrows] at hr
  | some rows =>
    replace hr : r ∈ rows := by simpa [hrows] using hr
    unfold userRows at hrows
    split at hrows
    · cases hrows
      cases hr
    · obtain ⟨stat, hstat, rfl⟩ := Option.map_eq_some_iff.mp hrows
      obtain ⟨⟨id, c⟩, hu, rfl⟩ := List.mem_map.mp hr
      have howned := h.owned id c ((s.users.get?_eq_some_iff id c).mpr hu)
      have hread : ∀ key, counted s.movements key d ≠ 0 → Readable key := by
        intro key hne
        obtain ⟨m, hm, rfl⟩ := exists_of_counted hne
        exact h.readable m.who m.key (h.held m hm)
      have hsum : ((c.reportedKeys id).map fun key => counted s.movements key d).sum
          = moved s.movements id d :=
        sum_counted (nodup_reportedKeys id c) fun m hm => howned m.who m.key (h.held m hm)
      have hbound : ∀ key ∈ c.reportedKeys id, counted s.movements key d < 2 ^ 63 := fun key hkey =>
        (le_sum_of_mem (List.mem_map_of_mem hkey)).trans_lt (hsum ▸ h.bounded id d)
      have hrow : (userRow (queryUserStats stat) (id, c)).of d
          = Int64.ofNat (moved s.movements id d) :=
        calc (userRow (queryUserStats stat) (id, c)).of d
            = ((c.reportedKeys id).map fun key =>
                (((queryUserStats stat).get? key).getD ⟨0, 0⟩).of d).sum := userRow_of _ _ d
          _ = ((c.reportedKeys id).map fun key => Int64.ofNat (counted s.movements key d)).sum := by
              rw [List.map_congr_left fun key hkey =>
                counter_eq (hq stat hstat) (hbound key hkey) (hread key)]
          _ = Int64.ofNat (moved s.movements id d) := by
              rw [← hsum, ← ofNat_sum, List.map_map]
              rfl
      rw [hrow]
      exact Int64.toInt_ofNat_of_lt (h.bounded id d)

/-! ### The steps -/

/-- The names that a user brings are reported for them. -/
theorem reported_of_keyOn {scope key : String} {i : Inbound}
    (h : (desired user scope).keyOn i = some key) :
    key ∈ (desired user scope).reportedKeys user.userID := by
  unfold Client.keyOn at h
  unfold Client.reportedKeys
  split at h
  · cases h
  · split at h
    · split at h
      · rename_i hlogin
        obtain rfl := Option.some.inj h
        by_cases heq : (desired user scope).login = user.userID
        · rw [if_neg fun hb => hb.2 heq, heq]
          exact List.mem_singleton_self _
        · rw [if_pos ⟨hlogin, heq⟩]
          exact List.mem_cons_of_mem _ (List.mem_singleton_self _)
      · cases h
    · obtain rfl := Option.some.inj h
      split
      · exact List.mem_cons_self
      · exact List.mem_singleton_self _

theorem inv_addUser (h : ProcessInv s) {scope : String}
    (hset : Settled inbounds s user.userID (desired user scope)) :
    ProcessInv (addUser inbounds s user scope) := by
  unfold addUser
  dsimp only
  split
  · exact h
  · split
    · exact h
    · exact {
        owned := fun id c hc who key hkey => by
          rw [OrderedMap.get?_set] at hc
          rcases List.mem_append.mp hkey with hold | hnew
          · by_cases hid : user.userID = id
            · subst hid
              rw [if_pos rfl] at hc
              obtain rfl := Option.some.inj hc
              exact hset.own who key hold
            · rw [if_neg (Ne.symm hid)] at hc
              exact h.owned id c hc who key hold
          · obtain ⟨key', hkey', hpair⟩ := List.mem_map.mp hnew
            obtain ⟨rfl, rfl⟩ := Prod.mk.inj hpair
            by_cases hid : user.userID = id
            · subst hid
              rw [if_pos rfl] at hc
              obtain rfl := Option.some.inj hc
              obtain ⟨i, -, hi⟩ := List.mem_filterMap.mp hkey'
              exact ⟨fun _ => rfl, fun _ => reported_of_keyOn hi⟩
            · rw [if_neg (Ne.symm hid)] at hc
              exact ⟨fun hrep => absurd hrep (hset.free _ hkey' id c hc (Ne.symm hid)),
                fun he => absurd he hid⟩
        readable := fun who key hkey => by
          rcases List.mem_append.mp hkey with hold | hnew
          · exact h.readable who key hold
          · obtain ⟨key', hkey', hpair⟩ := List.mem_map.mp hnew
            obtain ⟨rfl, rfl⟩ := Prod.mk.inj hpair
            exact hset.readable _ hkey'
        held := fun m hm => List.mem_append_left _ (h.held m hm)
        bounded := h.bounded
        exact := h.exact
        ordered := h.ordered }

theorem inv_removeUser (h : ProcessInv s) (userID : String) : ProcessInv (removeUser s userID) where
  owned id c hc := by
    unfold removeUser at hc
    rw [OrderedMap.get?_filter] at hc
    split at hc
    · exact h.owned id c hc
    · cases hc
  readable := h.readable
  held := h.held
  bounded := h.bounded
  exact := h.exact
  ordered := h.ordered

theorem inv_addUserOn (h : ProcessInv s) {inboundIDs : List String}
    (hset : (Event.addUserOn user inboundIDs).Settled inbounds s) :
    ProcessInv (addUserOn inbounds s user inboundIDs) := by
  unfold addUserOn
  dsimp only
  split
  · exact inv_removeUser h user.userID
  · exact inv_addUser h hset

theorem inv_traffic (h : ProcessInv s) {m : Movement} (hm : (m.who, m.key) ∈ s.held)
    (hlt : moved s.movements m.who m.direction + m.bytes < 2 ^ 63) :
    ProcessInv { s with movements := s.movements ++ [m] } where
  owned := h.owned
  readable := h.readable
  held m' hm' := by
    rcases List.mem_append.mp hm' with hold | hnew
    · exact h.held m' hold
    · rw [List.mem_singleton.mp hnew]
      exact hm
  bounded who d := by
    rw [moved_append, moved_cons]
    have hold := h.bounded who d
    split
    · rename_i hwho
      split
      · rename_i hd
        subst hwho hd
        exact hlt
      · exact hold
    · exact hold
  exact p hp := ⟨(h.exact p hp).1, (h.exact p hp).2.trans (List.prefix_append _ _)⟩
  ordered := h.ordered

theorem inv_poll (h : ProcessInv s) {q : Queries}
    (hq : ∀ stat, q.user = some stat → Answers s.movements stat) :
    ProcessInv { s with polls := s.polls ++ [⟨getStats s.users q true true, s.movements⟩] } where
  owned := h.owned
  readable := h.readable
  held := h.held
  bounded := h.bounded
  exact p hp := by
    rcases List.mem_append.mp hp with hold | hnew
    · exact h.exact p hold
    · rw [List.mem_singleton.mp hnew]
      exact ⟨exact_poll h hq, List.prefix_refl _⟩
  ordered := by
    refine List.pairwise_append.mpr ⟨h.ordered, List.pairwise_singleton _ _, fun p hp p' hp' => ?_⟩
    rw [List.mem_singleton.mp hp']
    exact (h.exact p hp).2

theorem inv_step {e : Event} {s' : State} (h : ProcessInv s)
    (hs : (settledProcess inbounds).step s e s') : ProcessInv s' := by
  obtain ⟨⟨hpossible, rfl⟩, hset⟩ := hs
  cases e with
  | addUser user => exact inv_addUser h hset
  | addUserOn user inboundIDs => exact inv_addUserOn h hset
  | removeUser userID => exact inv_removeUser h userID
  | traffic who key direction bytes => exact inv_traffic h hpossible hset
  | poll q => exact inv_poll h hpossible

theorem inv_freshProcess : ProcessInv freshProcess where
  owned _ _ _ _ _ hkey := absurd hkey List.not_mem_nil
  readable _ _ hkey := absurd hkey List.not_mem_nil
  held _ hm := absurd hm List.not_mem_nil
  bounded _ _ := Nat.two_pow_pos 63
  exact _ hp := absurd hp List.not_mem_nil
  ordered := List.Pairwise.nil

theorem inv_reachable (h : (settledProcess inbounds).Reachable s) : ProcessInv s :=
  h.invariant (fun s hstart => by
    obtain rfl : s = freshProcess := hstart
    exact inv_freshProcess) fun _ _ _ _ hinv => inv_step hinv

/-! ### From poll to poll -/

/-- The counters of the polls are cumulative. -/
structure Cumulative (polls : List Poll) : Prop where
  /-- a row is made of bytes that its user moved -/
  own : ∀ p ∈ polls, ∀ r ∈ p.stats.users, ∀ d, ∃ own : List Movement, own.Sublist p.movements ∧
    (∀ m ∈ own, m.who = r.userID) ∧ (r.of d).toInt = (own.map (·.bytes)).sum
  /-- and grows by what the user moved since, so never shrinks -/
  grows : polls.Pairwise fun p q => ∀ r ∈ p.stats.users, ∀ r' ∈ q.stats.users,
    r'.userID = r.userID → ∀ d,
      (r'.of d).toInt
        = (r.of d).toInt + (moved (q.movements.drop p.movements.length) r.userID d : Int)

theorem own_of_exact {p : Poll} (h : p.Exact) {r : UserStats} (hr : r ∈ p.stats.users)
    (d : Direction) : ∃ own : List Movement, own.Sublist p.movements ∧
      (∀ m ∈ own, m.who = r.userID) ∧ (r.of d).toInt = (own.map (·.bytes)).sum := by
  refine ⟨_, List.filter_sublist, fun m hm => ?_, h r hr d⟩
  exact (of_decide_eq_true (List.mem_filter.mp hm).2).1

/-- Where users keep their names, their counters are cumulative. -/
theorem cumulative (h : (settledProcess inbounds).Reachable s) : Cumulative s.polls := by
  have hinv := inv_reachable h
  refine ⟨fun p hp r hr d => own_of_exact (hinv.exact p hp).1 hr d, ?_⟩
  refine hinv.ordered.imp_of_mem fun {p q} hp hq hpre r hr r' hr' hid d => ?_
  obtain ⟨later, hlater⟩ := hpre
  have hdrop : q.movements.drop p.movements.length = later := by
    rw [← hlater, List.drop_left]
  calc (r'.of d).toInt = moved q.movements r'.userID d := (hinv.exact q hq).1 r' hr' d
    _ = moved p.movements r.userID d + moved later r.userID d := by
        rw [← hlater, hid, moved_append, Int.natCast_add]
    _ = (r.of d).toInt + moved (q.movements.drop p.movements.length) r.userID d := by
        rw [(hinv.exact p hp).1 r hr d, hdrop]

end Process

/-! ## A name given twice -/

theorem answers_one (who key : String) (d : Direction) (n : Nat) :
    Answers [⟨who, key, d, n⟩] [⟨statName key d, Nat.repr n⟩] where
  oneEntry := List.nodup_singleton _
  counts e he key' d' hname _ := by
    rw [List.mem_singleton.mp he] at hname ⊢
    obtain ⟨rfl, rfl⟩ := statName_inj hname
    left
    simp [counted]
  listed key' d' hne := by
    obtain ⟨m, hm, rfl⟩ := exists_of_counted hne
    rw [List.mem_singleton.mp hm] at hne ⊢
    by_cases hd : d = d'
    · subst hd
      exact ⟨_, List.mem_singleton_self _, rfl⟩
    · exact absurd (by simp [counted, hd]) hne

def alice : User := ⟨"1c8a1f0e", "alice", "7f0cb6a2"⟩

/-- Created after the first was deleted. -/
def aliceToo : User := ⟨"94d2b3c5", "alice", "e1527d90"⟩

/-- The core's counters are asked and nothing else. -/
def asked (stat : List XrayStatEntry) : Queries := ⟨some stat, none, none, fun _ => none⟩

/-- A settled run: one user on a socks inbound, polled before and after 100 bytes. -/
theorem cumulative_alice : ∃ s, (settledProcess [⟨"in-1", "socks"⟩]).Reachable s ∧
    s.polls.map (·.stats.users) = [[⟨"1c8a1f0e", 0, 0⟩], [⟨"1c8a1f0e", 100, 0⟩]] ∧
    Cumulative s.polls := by
  have hset : Settled [⟨"in-1", "socks"⟩] freshProcess alice.userID (desired alice "") := by
    refine ⟨fun _ _ hkey => absurd hkey List.not_mem_nil, fun _ _ _ _ hclient => ?_, ?_⟩
    · cases hclient
    · intro key hkey
      obtain rfl : key = "alice" := List.mem_singleton.mp hkey
      exact readable_of_notMem (by decide)
  have hrun : (settledProcess [⟨"in-1", "socks"⟩]).Reachable _ :=
    .step (e := .poll (asked [⟨"user>>>alice>>>traffic>>>uplink", "100"⟩]))
      (.step (e := .traffic "1c8a1f0e" "alice" .uplink 100)
        (.step (e := .poll (asked []))
          (.step (e := .addUser alice) (.start rfl) ⟨⟨trivial, rfl⟩, hset⟩)
          ⟨⟨fun stat hstat => by
            obtain rfl := Option.some.inj hstat
            exact ⟨List.nodup_nil, fun _ he => absurd he List.not_mem_nil,
              fun _ _ hne => absurd rfl hne⟩, rfl⟩, trivial⟩)
        ⟨⟨by unfold Event.Possible; decide, rfl⟩, by unfold Event.Settled; decide⟩)
      ⟨⟨fun stat hstat => by
        obtain rfl := Option.some.inj hstat
        exact answers_one "1c8a1f0e" "alice" .uplink 100, rfl⟩, trivial⟩
  exact ⟨_, hrun, by decide, cumulative hrun⟩

/-- The second user of a name is reported the bytes of the first. -/
theorem login_reused : ∃ s, (oneProcess [⟨"in-1", "socks"⟩]).Reachable s ∧
    ¬ Cumulative s.polls := by
  have hrun : (oneProcess [⟨"in-1", "socks"⟩]).Reachable _ :=
    .step (e := .poll (asked [⟨"user>>>alice>>>traffic>>>uplink", "100"⟩]))
      (.step (e := .addUser aliceToo)
        (.step (e := .removeUser "1c8a1f0e")
          (.step (e := .traffic "1c8a1f0e" "alice" .uplink 100)
            (.step (e := .addUser alice) (.start rfl) ⟨trivial, rfl⟩)
            ⟨by unfold Event.Possible; decide, rfl⟩)
          ⟨trivial, rfl⟩)
        ⟨trivial, rfl⟩)
      ⟨fun stat hstat => by
        obtain rfl := Option.some.inj hstat
        exact answers_one "1c8a1f0e" "alice" .uplink 100, rfl⟩
  refine ⟨_, hrun, fun hcum => ?_⟩
  obtain ⟨own, hsub, hwho, hsum⟩ := hcum.own _ (List.mem_singleton_self _)
    ⟨"94d2b3c5", 100, 0⟩ (by decide) .uplink
  have hnil : own = [] := by
    refine List.eq_nil_iff_forall_not_mem.mpr fun m hm => ?_
    have halice : m = ⟨"1c8a1f0e", "alice", .uplink, 100⟩ := List.mem_singleton.mp (hsub.mem hm)
    have hno := hwho m hm
    rw [halice] at hno
    exact absurd hno (by decide)
  rw [hnil] at hsum
  exact absurd hsum (by decide)

end Iceslab.Agent.XrayCounters

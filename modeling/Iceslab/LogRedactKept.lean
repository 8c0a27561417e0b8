import Iceslab.LogRedact
import Mathlib.Data.List.GetD
import Mathlib.Data.List.TakeWhile

/-!
# What the log keeps of a token

The router matches a decoded path, the log the raw one.

* `SecretAt` — the segments that are secrets, as the router places them.
* `Stands` — a route's spelling in the raw segments; `firstTakes_iff` — the pattern that matches is
  that of the first route that stands there.
* `cutUrl`, `redactAt_eq_cutUrl` — the text that is left, written out.
* `kept_iff` — the log holds no secret where the first route that stands in the raw URL has that
  segment for its secret and its characters are nowhere else.
-/

set_option autoImplicit false

/-! ## Words of a text -/

section Words

variable {α : Type*} [DecidableEq α]

/-- A word of a text cut short is the start of the word there, up to where it was cut. -/
theorem List.getElem?_splitOn_takeWhile {x : α} {p : α → Bool} (hx : p x = true) (cs : List α)
    {i : Nat} {w : List α} (h : ((cs.takeWhile p).splitOn x)[i]? = some w) :
    ∃ rest, (cs.splitOn x)[i]? = some (w ++ rest) ∧ (∀ c ∈ w, p c = true) ∧
      ∀ c ∈ rest.head?, p c = false := by
  induction cs generalizing i w with
  | nil =>
    rw [List.takeWhile_nil] at h
    refine ⟨[], by rw [List.append_nil, h], ?_, by simp⟩
    cases i with
    | zero =>
      cases h
      simp
    | succ i => simp at h
  | cons c cs ih =>
    by_cases hc : p c = true
    · rw [List.takeWhile_cons_of_pos hc, List.splitOn_cons_eq_if_modifyHead] at h
      rw [List.splitOn_cons_eq_if_modifyHead]
      by_cases hcx : c = x
      · rw [if_pos (by simpa using hcx)] at h ⊢
        cases i with
        | zero =>
          cases h
          exact ⟨[], rfl, by simp, by simp⟩
        | succ i => exact ih h
      · rw [if_neg (by simpa using hcx)] at h ⊢
        cases i with
        | zero =>
          obtain ⟨first, others, hsplit⟩ :=
            List.exists_cons_of_ne_nil (List.splitOn_ne_nil x (cs.takeWhile p))
          rw [hsplit, List.modifyHead_cons, List.getElem?_cons_zero] at h
          obtain ⟨rest, hrest, hw, hhead⟩ := ih (i := 0) (w := first) (by rw [hsplit]; rfl)
          obtain ⟨first', others', hsplit'⟩ :=
            List.exists_cons_of_ne_nil (List.splitOn_ne_nil x cs)
          rw [hsplit', List.getElem?_cons_zero, Option.some.injEq] at hrest
          cases h
          refine ⟨rest, by rw [hsplit', hrest]; rfl, ?_, hhead⟩
          exact List.forall_mem_cons.mpr ⟨hc, hw⟩
        | succ i =>
          have htail : ∀ l : List (List α), (l.modifyHead (c :: ·))[i + 1]? = l[i + 1]? :=
            fun l => by cases l <;> rfl
          rw [htail] at h ⊢
          exact ih h
    · rw [List.takeWhile_cons_of_neg hc] at h
      cases i with
      | succ i => simp at h
      | zero =>
        cases h
        have hcx : c ≠ x := fun hcx => hc (hcx ▸ hx)
        rw [List.splitOn_cons_eq_if_modifyHead, if_neg (by simpa using hcx)]
        obtain ⟨first, others, hsplit⟩ := List.exists_cons_of_ne_nil (List.splitOn_ne_nil x cs)
        refine ⟨c :: first, by rw [hsplit]; rfl, by simp, fun d hd => ?_⟩
        cases hd
        simpa using hc

end Words

namespace Iceslab.LogRedact

open JsText

/-! ## The secrets of a request -/

/-- What the router makes of a spelling and of a raw segment: third-party code. -/
structure Router where
  /-- the parameters a segment of a route's spelling names -/
  params : String → List String
  /-- percent-decoding -/
  decode : String → String
  decode_length : ∀ s, (decode s).length ≤ s.length

/-- The segments of the path, query and fragment removed. -/
def routerPath (url : String) : List String :=
  split '/' (String.ofList (url.toList.takeWhile fun c => decide (c ≠ '?' ∧ c ≠ '#')))

/-- A parameter takes any segment, a text the one it is the decoding of. -/
def Router.Takes (R : Router) (spelled raw : String) : Prop :=
  if R.params spelled = [] then raw = spelled ∨ R.decode raw = spelled else raw ≠ ""

/-- The segment is where a route has its secret parameter, and the ones before it are the route's. -/
structure SecretAt (R : Router) (routes : List String) (url : String) (i : Nat) (s : String) :
    Prop where
  segment : (routerPath url)[i]? = some s
  ne_empty : s ≠ ""
  route : ∃ r ∈ routes,
    (∃ t, (split '/' r)[i]? = some t ∧ ∃ name ∈ R.params t, SECRET_PARAM name = true) ∧
    ∀ j < i, ∃ t raw, (split '/' r)[j]? = some t ∧ (routerPath url)[j]? = some raw ∧ R.Takes t raw

/-- Nowhere does the URL begin the text and go on past its first four characters. -/
def HeldBack (t out : String) : Prop := 4 < t.length → ¬ t.toList.take 5 <:+: out.toList

/-- The log holds no secret, and what has none as it was sent. -/
structure Kept (R : Router) (routes : List String) (url : String) : Prop where
  masked : ∀ i s, SecretAt R routes url i s → carriesSecret routes url = true ∧
    HeldBack s (redactUrl routes url) ∧ HeldBack (R.decode s) (redactUrl routes url)
  unchanged : (∀ i s, ¬ SecretAt R routes url i s) →
    (∀ query ∈ queryOf url, ∀ pair ∈ split '&' query, isSecretPair pair = false) →
    redactUrl routes url = url

/-! ## Where a route stands in the raw text -/

/-- A parameter that is a secret. -/
def SecretSegment (t : String) : Prop := t.toList.head? = some ':' ∧ SECRET_PARAM (paramName t) = true

instance (t : String) : Decidable (SecretSegment t) := inferInstanceAs (Decidable (_ ∧ _))

/-- Before the secret a parameter stands for any segment and a text for itself; a `*`, or a `:` inside
a text, for none. -/
def StandsFor (t raw : String) : Prop :=
  if t.toList.head? = some ':' then
    SECRET_PARAM (paramName t) = false ∧ raw ≠ "" ∧ ∀ c ∈ raw.toList, isSegmentChar c = true
  else '*' ∉ t.toList ∧ ':' ∉ t.toList ∧ raw = t

/-- The raw segments begin with those of the spelling, up to its first secret at `k`. -/
def Stands : List String → List String → Nat → Prop
  | t :: _, raw :: _, 0 => SecretSegment t ∧ ∃ c ∈ raw.toList.head?, isSegmentChar c = true
  | t :: spelled, raw :: raws, k + 1 => StandsFor t raw ∧ Stands spelled raws k
  | _, _, _ => False

/-- The segments of a route; a secret at the very start comes after the slash all the same. -/
def spelling (route : String) : List String :=
  match split '/' route with
  | t :: rest => if SecretSegment t then "" :: t :: rest else t :: rest
  | [] => []

/-- The first route, in their order, that stands in the raw path has its secret at `i`. -/
def FirstTakes (routes : List String) (path : String) (i : Nat) : Prop :=
  ∃ before r after, routes = before ++ r :: after ∧
    (∀ q ∈ before, ∀ k, ¬ Stands (spelling q) (split '/' path) k) ∧
    Stands (spelling r) (split '/' path) i

/-- A text cut to its first four characters, or to none where it is shorter than twelve. -/
def cut (s : String) : String :=
  if 12 ≤ s.length then String.ofList (s.toList.take 4) ++ "***" else "***"

/-- The raw URL with segment `i` cut, up to a `#`, and the values of its secret keys. -/
def cutUrl (i : Nat) (url : String) : String :=
  let path := String.intercalate "/" ((split '/' (pathOf url)).modify i fun seg =>
    cut (String.ofList (seg.toList.takeWhile (· ≠ '#')))
      ++ String.ofList (seg.toList.dropWhile (· ≠ '#')))
  match queryOf url with
  | none => path
  | some query => path ++ "?" ++ String.intercalate "&" ((split '&' query).map fun pair =>
      if '=' ∈ pair.toList ∧ SECRET_QUERY (keyOf pair) = true then
        String.ofList (pair.toList.takeWhile (· ≠ '=')) ++ "=" ++ "***"
      else pair)

/-- Where the raw URL has a secret a route stands in it, with that very secret. -/
structure Placed (R : Router) (routes : List String) (url : String) : Prop where
  matched : ∀ i s, SecretAt R routes url i s → ∃ k, FirstTakes routes (pathOf url) k
  /-- the first route has this secret, and no other place holds its first five characters -/
  alone : ∀ i s, SecretAt R routes url i s → 4 < s.length → FirstTakes routes (pathOf url) i ∧
    HeldBack s (cutUrl i url) ∧ HeldBack (R.decode s) (cutUrl i url)
  /-- where there is no secret no route stands in it, or three stars are in the secret's place -/
  spared : (∀ i s, ¬ SecretAt R routes url i s) →
    (∀ query ∈ queryOf url, ∀ pair ∈ split '&' query, isSecretPair pair = false) →
    ∀ k, FirstTakes routes (pathOf url) k →
      ∀ seg, (split '/' (pathOf url))[k]? = some seg →
        String.ofList (seg.toList.takeWhile (· ≠ '#')) = "***"

variable {R : Router} {routes : List String} {url path : String} {i : Nat} {s : String}
  {seg : String} {raws segs : List String}

/-! ## The patterns -/

/-- The pattern's pieces take the raw segments, and a segment after them is begun. -/
def Pattern.Takes : Pattern → List String → Nat → Prop
  | [], raw :: _, 0 => captured raw ≠ ""
  | piece :: re, raw :: raws, k + 1 => takes piece raw = true ∧ Pattern.Takes re raws k
  | _, _, _ => False

theorem secretPrefixFrom_eq (out : Pattern) (segs : List String) :
    secretPrefixFrom out segs = (secretPrefixFrom [] segs).map (out ++ ·) := by
  induction segs generalizing out with
  | nil => rfl
  | cons seg segs ih =>
    simp only [secretPrefixFrom]
    split
    · split
      · simp only [Option.map_some, List.append_nil]
      · rw [ih (out ++ [none]), ih ([] ++ [none]), Option.map_map]
        simp only [List.nil_append, List.append_assoc, Function.comp_def]
    · split
      · rfl
      · rw [ih (out ++ [some seg]), ih ([] ++ [some seg]), Option.map_map]
        simp only [List.nil_append, List.append_assoc, Function.comp_def]

theorem takes_iff {re : Pattern} :
    re.Takes raws i ↔ i = re.length ∧ re.length < raws.length ∧
      (re.zip raws).all (fun e => takes e.1 e.2) = true ∧ captured (raws.getD re.length "") ≠ "" := by
  induction re generalizing raws i with
  | nil => cases raws <;> cases i <;> simp [Pattern.Takes]
  | cons piece re ih =>
    cases raws with
    | nil => simp [Pattern.Takes]
    | cons raw raws =>
      cases i with
      | zero => simp [Pattern.Takes]
      | succ i =>
        rw [Pattern.Takes, ih]
        simp
        tauto

theorem exec_iff {re : Pattern} : re.exec path = some i ↔ re.Takes (split '/' path) i := by
  rw [takes_iff, Pattern.exec]
  generalize split '/' path = raws
  simp only [Option.ite_none_right_eq_some, Bool.and_eq_true, decide_eq_true_eq, Option.some.injEq]
  constructor
  · rintro ⟨⟨⟨hlen, htakes⟩, hcaptured⟩, rfl⟩
    exact ⟨rfl, hlen, htakes, hcaptured⟩
  · rintro ⟨rfl, hlen, htakes, hcaptured⟩
    exact ⟨⟨⟨hlen, htakes⟩, hcaptured⟩, rfl⟩

theorem captured_ne_empty {raw : String} :
    captured raw ≠ "" ↔ ∃ c ∈ raw.toList.head?, isSegmentChar c = true := by
  have hempty : captured raw = "" ↔ raw.toList.takeWhile isSegmentChar = [] := by
    rw [captured, ← String.toList_inj, String.toList_ofList]
    rfl
  rw [ne_eq, hempty]
  cases raw.toList with
  | nil => simp
  | cons c cs => by_cases hc : isSegmentChar c = true <;> simp [hc]

theorem begins_iff {t : String} (hsecret : SecretSegment t) :
    Stands (t :: segs) raws i ↔ Pattern.Takes [] raws i := by
  cases raws with
  | nil => exact Iff.rfl
  | cons raw raws =>
    cases i with
    | zero =>
      rw [Stands, Pattern.Takes, captured_ne_empty]
      exact and_iff_right hsecret
    | succ k =>
      simp only [Stands, Pattern.Takes, StandsFor, if_pos hsecret.1, hsecret.2, Bool.true_eq_false,
        false_and]

theorem stands_iff :
    Stands segs raws i ↔ ∃ re, secretPrefixFrom [] segs = some re ∧ re.Takes raws i := by
  induction segs generalizing raws i with
  | nil => simp [Stands, secretPrefixFrom]
  | cons t segs ih =>
    have hpiece (piece : Option String) :
        (∃ re, secretPrefixFrom ([] ++ [piece]) segs = some re ∧ re.Takes raws i)
          ↔ ∃ raw rest k, raws = raw :: rest ∧ i = k + 1 ∧ takes piece raw = true ∧
            Stands segs rest k := by
      rw [secretPrefixFrom_eq]
      constructor
      · rintro ⟨_, hmap, htakes⟩
        obtain ⟨re, hre, rfl⟩ := Option.map_eq_some_iff.mp hmap
        cases raws with
        | nil => cases htakes
        | cons raw rest =>
          cases i with
          | zero => cases htakes
          | succ k => exact ⟨raw, rest, k, rfl, rfl, htakes.1, ih.mpr ⟨re, hre, htakes.2⟩⟩
      · rintro ⟨raw, rest, k, rfl, rfl, hpiece, hstands⟩
        obtain ⟨re, hre, htakes⟩ := ih.mp hstands
        exact ⟨piece :: re, Option.map_eq_some_iff.mpr ⟨re, hre, rfl⟩, hpiece, htakes⟩
    have hstep (hplain : ¬ SecretSegment t) : Stands (t :: segs) raws i ↔
        ∃ raw rest k, raws = raw :: rest ∧ i = k + 1 ∧ StandsFor t raw ∧ Stands segs rest k := by
      cases raws with
      | nil => simp [Stands]
      | cons raw rest =>
        cases i with
        | zero => simp [Stands, hplain]
        | succ k => simp [Stands]
    rw [secretPrefixFrom]
    split
    · rename_i hparam
      split
      · rename_i hsecret
        rw [begins_iff ⟨hparam, hsecret⟩]
        simp
      · rename_i hplain
        rw [hstep fun h => hplain h.2, hpiece]
        simp [StandsFor, hparam, hplain, takes]
    · rename_i hparam
      rw [hstep fun h => hparam h.1]
      split
      · rename_i hstar
        simp [StandsFor, hparam]
        grind
      · rename_i htext
        rw [hpiece]
        simp [StandsFor, hparam, takes]
        grind

/-- Where the secret comes first the pattern begins with the empty text of a slash. -/
theorem secretPrefixOf_eq (route : String) :
    secretPrefixOf route = secretPrefixFrom [] (spelling route) := by
  rw [secretPrefixOf, spelling]
  cases split '/' route with
  | nil => rfl
  | cons t rest =>
    dsimp only
    split
    · rename_i hsecret
      have hslash : secretPrefixFrom [] ("" :: t :: rest) = secretPrefixFrom [some ""] (t :: rest) :=
        rfl
      rw [hslash, secretPrefixFrom, if_pos hsecret.1, if_pos hsecret.2, secretPrefixFrom,
        if_pos hsecret.1, if_pos hsecret.2]
      rfl
    · rename_i hplain
      have hne : ∀ out ∈ secretPrefixFrom [] (t :: rest), out ≠ [] := by
        intro out hout
        rw [secretPrefixFrom] at hout
        split at hout
        · rename_i hparam
          rw [if_neg fun h => hplain ⟨hparam, h⟩, secretPrefixFrom_eq] at hout
          obtain ⟨re, -, rfl⟩ := Option.map_eq_some_iff.mp hout
          exact nofun
        · split at hout
          · cases hout
          · rw [secretPrefixFrom_eq] at hout
            obtain ⟨re, -, rfl⟩ := Option.map_eq_some_iff.mp hout
            exact nofun
      cases hpre : secretPrefixFrom [] (t :: rest) with
      | none => rfl
      | some out => rw [Option.map_some, if_neg (hne out hpre)]

/-- What the pattern of a route takes of the path. -/
def taken (path route : String) : Option Nat := (secretPrefixOf route).bind (·.exec path)

theorem taken_eq_some {route : String} :
    taken path route = some i ↔ Stands (spelling route) (split '/' path) i := by
  rw [taken, secretPrefixOf_eq, stands_iff, Option.bind_eq_some_iff]
  simp only [exec_iff]

/-- The patterns are tried in the order of the routes. -/
theorem secretMatch_eq (routes : List String) (path : String) :
    secretMatch routes path = routes.findSome? (taken path) := by
  suffices hgen : ∀ seen : OrderedMap String Pattern,
      (∀ e ∈ seen.entries, secretPrefixOf e.1 = some e.2) →
      (routes.foldl (fun seen url => (secretPrefixOf url).elim seen fun re => seen.set url re)
        seen).entries.findSome? (fun e => e.2.exec path)
        = (seen.entries.findSome? fun e => e.2.exec path).or (routes.findSome? (taken path)) by
    have hstep : secretPrefixes routes = routes.foldl
        (fun seen url => (secretPrefixOf url).elim seen fun re => seen.set url re) .empty := by
      unfold secretPrefixes
      congr
      funext seen url
      cases secretPrefixOf url <;> rfl
    rw [secretMatch, OrderedMap.values, List.findSome?_map, hstep]
    exact hgen .empty fun _ he => absurd he List.not_mem_nil
  induction routes with
  | nil => simp
  | cons route routes ih =>
    intro seen hseen
    rw [List.foldl_cons, List.findSome?_cons]
    cases hroute : secretPrefixOf route with
    | none =>
      rw [Option.elim_none, ih seen hseen, taken, hroute]
      rfl
    | some re =>
      have htaken : taken path route = re.exec path := by rw [taken, hroute, Option.bind_some]
      rw [htaken]
      cases hget : seen.get? route with
      | some re' =>
        -- a route that is registered again has the pattern it had
        have hmem := (OrderedMap.get?_eq_some_iff seen route re').mp hget
        obtain rfl : re = re' := Option.some.inj (hroute.symm.trans (hseen _ hmem))
        rw [Option.elim_some, OrderedMap.set_of_get? hget, ih seen hseen]
        cases hfound : seen.entries.findSome? fun e => e.2.exec path with
        | none =>
          rw [List.findSome?_eq_none_iff.mp hfound _ hmem]
        | some k => rfl
      | none =>
        have hset := OrderedMap.entries_set_of_none re hget
        rw [Option.elim_some, ih _ ?_, hset, List.findSome?_append, Option.or_assoc]
        · congr 1
          cases hexec : re.exec path <;> simp [hexec]
        · rw [hset]
          exact List.forall_mem_append.mpr ⟨hseen, List.forall_mem_singleton.mpr hroute⟩

theorem firstTakes_iff : FirstTakes routes path i ↔ secretMatch routes path = some i := by
  rw [FirstTakes, secretMatch_eq, List.findSome?_eq_some_iff]
  simp only [taken_eq_some, Option.eq_none_iff_forall_ne_some, ne_eq]
  constructor
  · rintro ⟨before, r, after, heq, hbefore, hr⟩
    exact ⟨before, r, after, heq, hr, hbefore⟩
  · rintro ⟨before, r, after, heq, hr, hbefore⟩
    exact ⟨before, r, after, heq, hbefore, hr⟩

/-! ## The raw segment -/

/-- The router's segment is what the pattern would take of the raw one. -/
theorem raw_of_routerPath (h : (routerPath url)[i]? = some s) :
    ∃ seg, (split '/' (pathOf url))[i]? = some seg ∧ captured seg = s ∧
      s.toList <+: seg.toList := by
  let p : Char → Bool := fun c => decide (c ≠ '?' ∧ c ≠ '#')
  have hpath : (url.toList.takeWhile (· ≠ '?')).takeWhile p = url.toList.takeWhile p := by
    rw [List.takeWhile_takeWhile]
    congr 1
    funext c
    by_cases hc : c = '?' <;> simp [p, hc]
  unfold routerPath split at h
  rw [List.getElem?_map, String.toList_ofList, Option.map_eq_some_iff] at h
  obtain ⟨w, hw, rfl⟩ := h
  rw [← hpath] at hw
  obtain ⟨rest, hrest, hall, hhead⟩ := List.getElem?_splitOn_takeWhile (by decide) _ hw
  have hslash : '/' ∉ w ++ rest := notMem_of_mem_splitOn (List.mem_of_getElem? hrest)
  have hw' : ∀ c ∈ w, isSegmentChar c = true := fun c hc => by
    have hne : c ≠ '/' := fun hc' => hslash (hc' ▸ List.mem_append_left _ hc)
    have := hall c hc
    simp only [p, decide_eq_true_eq] at this
    simp only [isSegmentChar, decide_eq_true_eq]
    exact ⟨hne, this⟩
  have hrest' : rest.takeWhile isSegmentChar = [] := by
    cases rest with
    | nil => rfl
    | cons c rest =>
      refine List.takeWhile_cons_of_neg fun hc => ?_
      have := hhead c rfl
      simp only [p, decide_eq_false_iff_not] at this
      simp only [isSegmentChar, decide_eq_true_eq] at hc
      exact this hc.2
  refine ⟨String.ofList (w ++ rest), ?_, ?_, ?_⟩
  · unfold split pathOf
    rw [List.getElem?_map, String.toList_ofList, hrest, Option.map_some]
  · unfold captured
    rw [String.toList_ofList, List.takeWhile_append_of_pos hw', hrest', List.append_nil]
  · rw [String.toList_ofList, String.toList_ofList]
    exact List.prefix_append _ _

theorem Stands.segment {spelled raws : List String} (h : Stands spelled raws i) :
    ∃ seg, raws[i]? = some seg := by
  fun_induction Stands spelled raws i with
  | case1 _ _ raw => exact ⟨raw, rfl⟩
  | case2 _ _ _ _ _ ih => exact ih h.2
  | case3 => cases h

theorem FirstTakes.segment (h : FirstTakes routes path i) : ∃ seg, (split '/' path)[i]? = some seg := by
  obtain ⟨before, r, after, -, -, hr⟩ := h
  exact hr.segment

/-! ## What stays in the URL -/

theorem prefix_redactAt (k : Option Nat) (url : String) :
    (redactPath k (pathOf url)).toList <+: (redactAt k url).toList := by
  unfold redactAt
  cases queryOf url with
  | none => exact List.prefix_rfl
  | some query =>
    dsimp only
    rw [String.toList_append, String.toList_append, List.append_assoc]
    exact List.prefix_append _ _

/-- A segment that is not the one masked stays. -/
theorem infix_redactAt {k : Option Nat}
    (h : (split '/' (pathOf url))[i]? = some seg) (hk : k ≠ some i) :
    seg.toList <:+: (redactAt k url).toList := by
  refine List.IsInfix.trans ?_ (prefix_redactAt k url).isInfix
  have hword {words : List String} (hw : words[i]? = some seg) :
      seg.toList <:+: (String.intercalate "/" words).toList := by
    rw [String.toList_intercalate]
    exact List.infix_intercalate (List.mem_map_of_mem (List.mem_of_getElem? hw))
  cases k with
  | none =>
    have := hword h
    rwa [show ("/" : String) = String.singleton '/' from rfl, intercalate_split] at this
  | some j =>
    refine hword ?_
    have hj : j ≠ i := fun hj => hk (congrArg some hj)
    rw [List.getElem?_modify, h]
    exact congrArg some (if_neg hj)

/-- The path and the query make the URL. -/
theorem url_eq (url : String) :
    (match queryOf url with
      | none => pathOf url
      | some query => pathOf url ++ "?" ++ query) = url := by
  have hurl : (pathOf url).toList ++ url.toList.dropWhile (· ≠ '?') = url.toList := by
    rw [pathOf, String.toList_ofList, List.takeWhile_append_dropWhile]
  unfold queryOf
  cases hdrop : url.toList.dropWhile (· ≠ '?') with
  | nil =>
    rw [hdrop, List.append_nil] at hurl
    exact String.toList_inj.mp hurl
  | cons c query =>
    have hc : c = '?' := by
      have := List.head?_dropWhile_not (· ≠ '?') url.toList
      rw [hdrop] at this
      simpa using this
    refine String.toList_inj.mp ?_
    rw [← hurl, hdrop, hc]
    simp only [String.toList_append, String.toList_ofList, List.append_assoc]
    rfl

/-- Where no key is secret the query stays. -/
theorem redactAt_of_noSecretPair (k : Option Nat)
    (h : ∀ query ∈ queryOf url, ∀ pair ∈ split '&' query, isSecretPair pair = false) :
    redactAt k url = url ↔ redactPath k (pathOf url) = pathOf url := by
  have hquery (query : String) (hq : query ∈ queryOf url) : redactQuery query = query := by
    have hpair (pair : String) (hpair : pair ∈ split '&' query) : redactPair pair = pair := by
      rw [redactPair, h query hq pair hpair]
      rfl
    rw [redactQuery, List.map_congr_left hpair, List.map_id']
    exact intercalate_split '&' query
  have hurl := url_eq url
  unfold redactAt
  cases hq : queryOf url with
  | none =>
    rw [hq] at hurl
    dsimp only at hurl ⊢
    rw [hurl]
  | some query =>
    rw [hq] at hurl
    dsimp only at hurl ⊢
    rw [hquery query hq]
    conv_lhs =>
      rhs
      rw [← hurl]
    constructor
    · intro heq
      have := congrArg String.toList heq
      simp only [String.toList_append, List.append_assoc] at this
      exact String.toList_inj.mp (List.append_cancel_right this)
    · intro heq
      rw [heq]

theorem maskSecret_eq_self {value : String} : maskSecret value = value ↔ value = MASK := by
  unfold maskSecret
  split
  · rename_i hlen
    constructor
    · intro h
      have := congrArg String.length h
      rw [String.length_append, String.length_ofList, List.length_take, String.length_toList] at this
      have hmask : MASK.length = 3 := by decide
      omega
    · rintro rfl
      exact absurd hlen (by decide)
  · exact eq_comm

/-- A mask has no slash. -/
theorem notMem_maskHead (h : '/' ∉ seg.toList) : '/' ∉ (maskHead seg).toList := by
  have hcaptured : '/' ∉ (captured seg).toList := fun hc => by
    rw [captured, String.toList_ofList] at hc
    exact h ((List.takeWhile_sublist _).subset hc)
  have hmask : '/' ∉ (maskSecret (captured seg)).toList := by
    unfold maskSecret
    split
    · rw [String.toList_append, String.toList_ofList, List.mem_append]
      rintro (hc | hc)
      · exact hcaptured (List.mem_of_mem_take hc)
      · exact absurd hc (by decide)
    · decide
  rw [maskHead, String.toList_append, String.toList_ofList, List.mem_append]
  rintro (hc | hc)
  · exact hmask hc
  · exact h ((List.dropWhile_sublist _).subset hc)

/-- Masking changes a path unless what it takes is a mask. -/
theorem maskSegment_eq_self (h : (split '/' path)[i]? = some seg) :
    maskSegment i path = path ↔ captured seg = MASK := by
  have hseg : captured seg ++ String.ofList (seg.toList.dropWhile isSegmentChar) = seg := by
    refine String.toList_inj.mp ?_
    rw [captured, String.toList_append, String.toList_ofList, String.toList_ofList,
      List.takeWhile_append_dropWhile]
  have hhead : maskHead seg = seg ↔ captured seg = MASK := by
    rw [← maskSecret_eq_self, maskHead]
    conv_lhs =>
      rhs
      rw [← hseg]
    exact ⟨fun heq => by
      have := congrArg String.toList heq
      rw [String.toList_append, String.toList_append] at this
      exact String.toList_inj.mp (List.append_cancel_right this), fun heq => by rw [heq]⟩
  rw [← hhead]
  have hmodify (heq : (split '/' path).modify i maskHead = split '/' path) : maskHead seg = seg := by
    have hi : ((split '/' path).modify i maskHead)[i]? = some seg := by rw [heq, h]
    rw [List.getElem?_modify, h] at hi
    exact (if_pos rfl).symm.trans (Option.some.inj hi)
  constructor
  · intro heq
    refine hmodify ?_
    have hwords : ∀ w ∈ (split '/' path).modify i maskHead, '/' ∉ w.toList := fun w hw => by
      obtain ⟨j, hj⟩ := List.getElem?_of_mem hw
      rw [List.getElem?_modify] at hj
      obtain ⟨v, hv, hvw⟩ := Option.map_eq_some_iff.mp hj
      have hslash := notMem_of_mem_split (List.mem_of_getElem? hv)
      split at hvw
      · rw [← hvw]
        exact notMem_maskHead hslash
      · rwa [← hvw]
    have hne : (split '/' path).modify i maskHead ≠ [] := fun hnil => by
      have := congrArg List.length hnil
      rw [List.length_modify, List.length_nil, List.length_eq_zero_iff] at this
      rw [this] at h
      cases h
    rw [← split_intercalate hwords hne]
    exact congrArg (split '/') heq
  · intro heq
    have hself : (split '/' path).modify i maskHead = split '/' path := by
      refine List.ext_getElem? fun j => ?_
      rw [List.getElem?_modify]
      by_cases hj : i = j
      · subst hj
        rw [h]
        exact congrArg some ((if_pos rfl).trans heq)
      · cases (split '/' path)[j]? with
        | none => rfl
        | some v => exact congrArg some (if_neg hj)
    rw [maskSegment, hself]
    exact intercalate_split '/' path

/-! ## The cut text -/

theorem span_congr {p q : Char → Bool} {cs : List Char} (h : ∀ c ∈ cs, p c = q c) :
    cs.takeWhile p = cs.takeWhile q ∧ cs.dropWhile p = cs.dropWhile q := by
  induction cs with
  | nil => exact ⟨rfl, rfl⟩
  | cons c cs ih =>
    have hc := h c List.mem_cons_self
    have hrest := ih fun d hd => h d (List.mem_cons_of_mem _ hd)
    rw [List.takeWhile_cons, List.takeWhile_cons, List.dropWhile_cons, List.dropWhile_cons, hc]
    split
    · exact ⟨congrArg _ hrest.1, hrest.2⟩
    · exact ⟨rfl, rfl⟩

/-- A segment of the path ends at a `#` alone. -/
theorem segment_span (h : seg ∈ split '/' (pathOf url)) :
    seg.toList.takeWhile isSegmentChar = seg.toList.takeWhile (· ≠ '#') ∧
      seg.toList.dropWhile isSegmentChar = seg.toList.dropWhile (· ≠ '#') := by
  refine span_congr fun c hc => ?_
  have hslash : c ≠ '/' := by
    rintro rfl
    exact notMem_of_mem_split h hc
  have hquestion : c ≠ '?' := by
    have hmem := (infix_of_mem_split h).subset hc
    rw [pathOf, String.toList_ofList] at hmem
    simpa using List.mem_takeWhile_imp hmem
  simp only [isSegmentChar, hslash, hquestion, ne_eq, not_false_eq_true, true_and]

theorem captured_of_mem (h : seg ∈ split '/' (pathOf url)) :
    captured seg = String.ofList (seg.toList.takeWhile (· ≠ '#')) := by
  rw [captured, (segment_span h).1]

/-- What is masked is cut: of the segment four characters stay, of a secret value none. -/
theorem redactAt_eq_cutUrl (i : Nat) (url : String) : redactAt (some i) url = cutUrl i url := by
  have hmask (value : String) : maskSecret value = cut value := rfl
  have hsegments : (split '/' (pathOf url)).modify i maskHead
      = (split '/' (pathOf url)).modify i fun seg =>
          cut (String.ofList (seg.toList.takeWhile (· ≠ '#')))
            ++ String.ofList (seg.toList.dropWhile (· ≠ '#')) := by
    refine List.ext_getElem? fun j => ?_
    rw [List.getElem?_modify, List.getElem?_modify]
    cases hseg : (split '/' (pathOf url))[j]? with
    | none => simp only [Option.map_eq_map, Option.map_none]
    | some seg =>
      have hmem := List.mem_of_getElem? hseg
      have hhead : maskHead seg = cut (String.ofList (seg.toList.takeWhile (· ≠ '#')))
          ++ String.ofList (seg.toList.dropWhile (· ≠ '#')) := by
        rw [maskHead, hmask, captured_of_mem hmem, (segment_span hmem).2]
      simp only [Option.map_eq_map, Option.map_some, hhead]
  have hpair (pair : String) : redactPair pair
      = if '=' ∈ pair.toList ∧ SECRET_QUERY (keyOf pair) = true then
          String.ofList (pair.toList.takeWhile (· ≠ '=')) ++ "=" ++ "***"
        else pair := by
    simp only [redactPair, isSecretPair, Bool.and_eq_true, decide_eq_true_eq, MASK]
  have hpath : redactPath (some i) (pathOf url) = maskSegment i (pathOf url) := rfl
  rw [redactAt, cutUrl, hpath, maskSegment, hsegments]
  cases queryOf url with
  | none => simp only
  | some query => simp only [redactQuery, funext hpair]

/-! ## The log -/

theorem carriesSecret_iff : carriesSecret routes url = true ↔ ∃ k, FirstTakes routes (pathOf url) k :=
  by simp only [carriesSecret, firstTakes_iff, Option.isSome_iff_exists]

theorem redactUrl_of_firstTakes (h : FirstTakes routes (pathOf url) i) :
    redactUrl routes url = cutUrl i url := by
  rw [redactUrl, firstTakes_iff.mp h, redactAt_eq_cutUrl]

/-- A secret of more than four characters is held back only where it is the segment taken. -/
theorem firstTakes_of_heldBack (h : SecretAt R routes url i s) (hlen : 4 < s.length)
    (hheld : HeldBack s (redactUrl routes url)) : FirstTakes routes (pathOf url) i := by
  rw [firstTakes_iff]
  by_contra hne
  obtain ⟨seg, hseg, -, hpre⟩ := raw_of_routerPath h.segment
  have hstart : s.toList.take 5 <+: seg.toList := (List.take_prefix 5 s.toList).trans hpre
  exact hheld hlen (hstart.isInfix.trans (infix_redactAt hseg hne))

/-- **The log holds no token exactly where the first route that stands in the raw URL has the token
for its secret, and the token's characters are nowhere else in the cut URL.** -/
theorem kept_iff : Kept R routes url ↔ Placed R routes url := by
  constructor
  · intro h
    refine ⟨fun i s hs => carriesSecret_iff.mp (h.masked i s hs).1, fun i s hs hlen => ?_,
      fun hnone hquery k hk seg hseg => ?_⟩
    · obtain ⟨-, hraw, hdecoded⟩ := h.masked i s hs
      have hfirst := firstTakes_of_heldBack hs hlen hraw
      rw [redactUrl_of_firstTakes hfirst] at hraw hdecoded
      exact ⟨hfirst, hraw, hdecoded⟩
    · have hsame := h.unchanged hnone hquery
      rw [redactUrl, firstTakes_iff.mp hk, redactAt_of_noSecretPair _ hquery] at hsame
      rw [← captured_of_mem (List.mem_of_getElem? hseg)]
      exact (maskSegment_eq_self hseg).mp hsame
  · intro h
    refine ⟨fun i s hs => ⟨carriesSecret_iff.mpr (h.matched i s hs), ?_, ?_⟩, fun hnone hquery => ?_⟩
    · intro hlen
      obtain ⟨hfirst, hraw, -⟩ := h.alone i s hs hlen
      rw [redactUrl_of_firstTakes hfirst]
      exact hraw hlen
    · intro hlen
      obtain ⟨hfirst, -, hdecoded⟩ := h.alone i s hs (hlen.trans_le (R.decode_length s))
      rw [redactUrl_of_firstTakes hfirst]
      exact hdecoded hlen
    · rw [redactUrl, redactAt_of_noSecretPair _ hquery]
      cases hk : secretMatch routes (pathOf url) with
      | none => rfl
      | some k =>
        have hfirst := firstTakes_iff.mpr hk
        obtain ⟨seg, hseg⟩ := hfirst.segment
        have hstars := h.spared hnone hquery k hfirst seg hseg
        rw [← captured_of_mem (List.mem_of_getElem? hseg)] at hstars
        exact (maskSegment_eq_self hseg).mpr hstars

/-! ## A decoded path -/

/-- `%XX` of an ASCII character read back, all else left. -/
def decodeAscii : List Char → List Char
  | '%' :: a :: b :: cs =>
    match JsUri.hexValue a, JsUri.hexValue b with
    | some hi, some lo =>
      if hi < 8 then Char.ofNat (16 * hi + lo) :: decodeAscii cs
      else '%' :: decodeAscii (a :: b :: cs)
    | _, _ => '%' :: decodeAscii (a :: b :: cs)
  | c :: cs => c :: decodeAscii cs
  | [] => []

theorem length_decodeAscii (cs : List Char) : (decodeAscii cs).length ≤ cs.length := by
  fun_induction decodeAscii cs with
  | case5 => exact Nat.le_refl _
  | _ =>
    simp only [List.length_cons] at *
    omega

/-- A router of parameters that are whole segments. -/
def asciiRouter : Router where
  params t := if t.toList.head? = some ':' then [String.ofList t.toList.tail] else []
  decode s := String.ofList (decodeAscii s.toList)
  decode_length s := by
    rw [String.length_ofList, ← String.length_toList]
    exact length_decodeAscii _

def subscriptionRoutes : List String := ["/sub/:token", "/sub/:token/:client"]

/-- A subscription is polled by its token. -/
def polledUrl : String := "/sub/Zx9QkT2mVb7LpR4sWc8NdY3h/clash?v=2"

theorem secretAt_polled {i : Nat} {s : String}
    (h : SecretAt asciiRouter subscriptionRoutes polledUrl i s) :
    i = 2 ∧ s = "Zx9QkT2mVb7LpR4sWc8NdY3h" := by
  have hpath : routerPath polledUrl = ["", "sub", "Zx9QkT2mVb7LpR4sWc8NdY3h", "clash"] := by decide
  have hsegment := h.segment
  rw [hpath] at hsegment
  obtain ⟨r, hr, ⟨t, ht, name, hname, hsecret⟩, -⟩ := h.route
  have hlt : i < 4 := by simpa using (List.getElem?_eq_some_iff.mp hsegment).1
  have hrs : split '/' r = ["", "sub", ":token"] ∨ split '/' r = ["", "sub", ":token", ":client"] := by
    rcases List.mem_cons.mp hr with rfl | hr
    · exact .inl (by decide)
    · exact .inr (List.mem_singleton.mp hr ▸ by decide)
  have hplain : ∀ t ∈ ["", "sub", ":client"], ∀ name ∈ asciiRouter.params t,
      SECRET_PARAM name = false := by decide
  have hi : i = 2 := by
    by_contra hne
    have hmem : t ∈ ["", "sub", ":client"] := by
      have hcases : i = 0 ∨ i = 1 ∨ i = 3 := by omega
      rcases hrs with hrs | hrs <;> rw [hrs] at ht <;> rcases hcases with rfl | rfl | rfl <;>
        simp at ht <;> simp [← ht]
    rw [hplain t hmem name hname] at hsecret
    cases hsecret
  subst hi
  exact ⟨rfl, (Option.some.inj hsegment).symm⟩

theorem kept_iff_polled :
    Kept asciiRouter subscriptionRoutes polledUrl ∧
      redactUrl subscriptionRoutes polledUrl = "/sub/Zx9Q***/clash?v=2" := by
  have hfirst : FirstTakes subscriptionRoutes (pathOf polledUrl) 2 := by
    have hsegments : split '/' (pathOf polledUrl)
        = ["", "sub", "Zx9QkT2mVb7LpR4sWc8NdY3h", "clash"] := by decide
    have hspelling : spelling "/sub/:token" = ["", "sub", ":token"] := by decide
    refine ⟨[], "/sub/:token", ["/sub/:token/:client"], rfl, nofun, ?_⟩
    rw [hspelling, hsegments]
    have htext (text : String) (h : text.toList.head? ≠ some ':' ∧ '*' ∉ text.toList ∧ ':' ∉ text.toList) :
        StandsFor text text := by
      rw [StandsFor, if_neg h.1]
      exact ⟨h.2.1, h.2.2, rfl⟩
    exact ⟨htext "" (by decide), htext "sub" (by decide), by decide, 'Z', by decide, by decide⟩
  -- the cut URL has no `k`, the fifth character of the token
  have hheld : HeldBack "Zx9QkT2mVb7LpR4sWc8NdY3h" (cutUrl 2 polledUrl) := fun _ hin =>
    absurd (hin.subset (a := 'k') (by decide)) (by decide)
  have hdecoded : asciiRouter.decode "Zx9QkT2mVb7LpR4sWc8NdY3h" = "Zx9QkT2mVb7LpR4sWc8NdY3h" := by
    decide
  have hsecret : SecretAt asciiRouter subscriptionRoutes polledUrl 2 "Zx9QkT2mVb7LpR4sWc8NdY3h" := by
    refine ⟨by decide, by decide, "/sub/:token", List.mem_cons_self,
      ⟨":token", by decide, "token", by decide, by decide⟩, fun j hj => ?_⟩
    have hcases : j = 0 ∨ j = 1 := by omega
    rcases hcases with rfl | rfl
    · exact ⟨"", "", by decide, by decide, .inl rfl⟩
    · exact ⟨"sub", "sub", by decide, by decide, .inl rfl⟩
  refine ⟨kept_iff.mpr ⟨fun _ _ _ => ⟨2, hfirst⟩, fun i s hs _ => ?_, fun hnone => ?_⟩, by decide⟩
  · obtain ⟨rfl, rfl⟩ := secretAt_polled hs
    exact ⟨hfirst, hheld, hdecoded.symm ▸ hheld⟩
  · exact absurd hsecret (hnone 2 _)

/-- The router reads `%73ub` as `sub`, the log does not. -/
theorem encoded_segment_logged :
    ¬ Kept asciiRouter ["/sub/:token"] "/%73ub/Zx9QkT2mVb7LpR4sWc8NdY3h" := by
  intro h
  have hsecret : SecretAt asciiRouter ["/sub/:token"] "/%73ub/Zx9QkT2mVb7LpR4sWc8NdY3h" 2
      "Zx9QkT2mVb7LpR4sWc8NdY3h" := by
    refine ⟨by decide, by decide, "/sub/:token", List.mem_singleton.mpr rfl,
      ⟨":token", by decide, "token", by decide, by decide⟩, fun j hj => ?_⟩
    have hcases : j = 0 ∨ j = 1 := by omega
    rcases hcases with rfl | rfl
    · exact ⟨"", "", by decide, by decide, .inl rfl⟩
    · exact ⟨"sub", "%73ub", by decide, by decide, .inr (by decide)⟩
  exact absurd (h.masked 2 _ hsecret).1 (by decide)

end Iceslab.LogRedact

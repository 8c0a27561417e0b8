import Iceslab.Lib.JsonSame
import Iceslab.Lib.Expiring
import Iceslab.NodePush

/-!
# The drawing's fingerprint

`render-drift.ts`: a push records the hash of the request it sent, and an hourly check builds the
request again and queues a push where the hashes differ or nothing was recorded.

* `JsValue`, `stringify`, `canonicalJson` — the values, what is sent for one, what is hashed.
* `JsonValue` — a value a request may be.
* `drawn` — the document of a value; `stringify_eq`, `canonicalJson_eq`.
* `canonicalJson_exact` — the text is one where what is sent is one.
* `checkRenderDrift`, `mem_pushed_iff` — the nodes a push is queued for.
* `drift_exact` — the text is exact, and the check with it.
-/

set_option autoImplicit false

namespace Iceslab.RenderDrift

open JsonDoc (Numbers Doc units quote bracketed memberText)

/-! ## Values -/

/-- A string by its code units. -/
abbrev JsString := JsonDoc.Units

inductive JsValue (ν : Type) where
  | undefined
  | null
  | boolean (b : Bool)
  /-- `none` is a number that JSON has no text for: an infinity, or no number -/
  | number (x : Option ν)
  | string (s : JsString)
  /-- by what its `toJSON` gives: `none` is the null of an invalid date -/
  | date (json : Option JsString)
  /-- `none` is a hole -/
  | array (items : List (Option (JsValue ν)))
  | object (entries : List (JsString × JsValue ν))

variable {ν : Type}

section Texts

variable (N : Numbers ν)

mutual

/-- `JSON.stringify`. -/
def stringify : JsValue ν → Option JsString
  | .undefined => none
  | .null => some (units "null")
  | .boolean b => some (units (if b then "true" else "false"))
  | .number x => some ((x.map N.text).getD (units "null"))
  | .string s => some (quote s)
  | .date json => some ((json.map quote).getD (units "null"))
  | .array items => some (bracketed 91 93 (stringifyItems items))
  | .object entries => some (bracketed 123 125 (stringifyEntries entries))

/-- A hole is written as the `undefined` it reads as. -/
def stringifyItems : List (Option (JsValue ν)) → List JsString
  | [] => []
  | none :: items => units "null" :: stringifyItems items
  | some v :: items => (stringify v).getD (units "null") :: stringifyItems items

def stringifyEntries : List (JsString × JsValue ν) → List JsString
  | [] => []
  | (k, v) :: entries =>
    match stringify v with
    | some text => memberText k text :: stringifyEntries entries
    | none => stringifyEntries entries

end

mutual

/-- JSON with every object's keys in order, arrays as they are. -/
def canonicalJson : JsValue ν → JsString
  -- what `toJSON` gives is a string, or the null
  | .date (some s) => quote s
  | .date none => units "null"
  | .array items => bracketed 91 93 (canonicalItems items)
  | .object entries =>
    bracketed 123 125
      (((canonicalEntries entries).insertionSort fun a b => JsonDoc.unitsLe a.1 b.1 = true).map
        fun e => memberText e.1 e.2)
  | .undefined => (stringify N .undefined).getD (units "null")
  | .null => (stringify N .null).getD (units "null")
  | .boolean b => (stringify N (.boolean b)).getD (units "null")
  | .number x => (stringify N (.number x)).getD (units "null")
  | .string s => (stringify N (.string s)).getD (units "null")

/-- `map` passes a hole over, and `join` writes nothing for it. -/
def canonicalItems : List (Option (JsValue ν)) → List JsString
  | [] => []
  | none :: items => [] :: canonicalItems items
  | some v :: items => canonicalJson v :: canonicalItems items

/-- The entries that are not `undefined`, by key. -/
def canonicalEntries : List (JsString × JsValue ν) → List (JsString × JsString)
  | [] => []
  | (_, .undefined) :: entries => canonicalEntries entries
  | (k, v) :: entries => (k, canonicalJson v) :: canonicalEntries entries

end

end Texts

/-- An array with a hole is hashed as if it were not there, and sent with a null. -/
example : canonicalJson JsonDoc.wholeNumbers (.array [none])
    = canonicalJson JsonDoc.wholeNumbers (.array []) := rfl

/-- As a request is built, by literals, `map` and `push`: no object has two entries of one key, and
an array has an item at every index, which may be `undefined`. -/
inductive JsValue.Built : JsValue ν → Prop
  | undefined : Built .undefined
  | null : Built .null
  | boolean (b : Bool) : Built (.boolean b)
  | number (x : Option ν) : Built (.number x)
  | string (s : JsString) : Built (.string s)
  | date (json : Option JsString) : Built (.date json)
  | array {items : List (Option (JsValue ν))} (hdense : none ∉ items)
      (h : ∀ v, some v ∈ items → Built v) : Built (.array items)
  | object {entries : List (JsString × JsValue ν)} (hkeys : (entries.map Prod.fst).Nodup)
      (h : ∀ e ∈ entries, Built e.2) : Built (.object entries)

/-- A built value there is a JSON text of. -/
structure JsonValue (ν : Type) where
  value : JsValue ν
  built : value.Built
  defined : value ≠ .undefined

/-! ## The document of a value -/

mutual

/-- What is sent: dates by their text, no undefined entry, nulls for what there is no text for. -/
def drawn : JsValue ν → Doc ν
  | .undefined => .null
  | .null => .null
  | .boolean b => .bool b
  | .number (some x) => .num x
  | .number none => .null
  | .string s => .str s
  | .date (some s) => .str s
  | .date none => .null
  | .array items => .arr (drawnItems items)
  | .object entries => .obj (drawnEntries entries)

def drawnItems : List (Option (JsValue ν)) → List (Doc ν)
  | [] => []
  | none :: items => .null :: drawnItems items
  | some v :: items => drawn v :: drawnItems items

def drawnEntries : List (JsString × JsValue ν) → List (JsString × Doc ν)
  | [] => []
  | (_, .undefined) :: entries => drawnEntries entries
  | (k, v) :: entries => (k, drawn v) :: drawnEntries entries

end

section Documents

variable (N : Numbers ν) {v : JsValue ν}

theorem canonicalEntries_cons (k : JsString) (h : v ≠ .undefined)
    (entries : List (JsString × JsValue ν)) :
    canonicalEntries N ((k, v) :: entries)
      = (k, canonicalJson N v) :: canonicalEntries N entries := by
  cases v with
  | undefined => exact absurd rfl h
  | _ => rfl

theorem drawnEntries_cons (k : JsString) (h : v ≠ .undefined)
    (entries : List (JsString × JsValue ν)) :
    drawnEntries ((k, v) :: entries) = (k, drawn v) :: drawnEntries entries := by
  cases v with
  | undefined => exact absurd rfl h
  | _ => rfl

theorem stringify_defined (h : v ≠ .undefined) :
    stringify N v = some ((stringify N v).getD (units "null")) := by
  cases v with
  | undefined => exact absurd rfl h
  | _ => rfl

mutual

/-- What is hashed is the document of a built value with its keys in order. -/
theorem canonicalJson_eq : ∀ v : JsValue ν, v.Built →
    canonicalJson N v = JsonDoc.text N (JsonDoc.sortKeys (drawn v))
  | .undefined, _ => rfl
  | .null, _ => rfl
  | .boolean b, _ => rfl
  | .number (some x), _ => rfl
  | .number none, _ => rfl
  | .string s, _ => rfl
  | .date (some s), _ => rfl
  | .date none, _ => rfl
  | .array items, .array hdense h => by
    rw [canonicalJson, canonicalItems_eq items hdense h, drawn, JsonDoc.sortKeys_arr,
      JsonDoc.text_arr, List.map_map]
    rfl
  | .object entries, .object _ h => by
    have hsorted := List.map_insertionSort
      (fun a b : JsString × Doc ν => JsonDoc.unitsLe a.1 b.1 = true)
      (fun a b : JsString × JsString => JsonDoc.unitsLe a.1 b.1 = true)
      (fun m => (m.1, JsonDoc.text N m.2))
      ((drawnEntries entries).map fun m => (m.1, JsonDoc.sortKeys m.2)) fun _ _ _ _ => Iff.rfl
    rw [List.map_map] at hsorted
    rw [canonicalJson, canonicalEntries_eq entries h, drawn, JsonDoc.sortKeys_obj,
      JsonDoc.text_obj]
    refine congrArg (bracketed 123 125) ?_
    refine (congrArg (List.map fun e => memberText e.1 e.2) hsorted.symm).trans ?_
    rw [List.map_map]
    rfl

theorem canonicalItems_eq : ∀ items : List (Option (JsValue ν)), none ∉ items →
    (∀ v, some v ∈ items → v.Built) →
    canonicalItems N items = (drawnItems items).map fun d => JsonDoc.text N (JsonDoc.sortKeys d)
  | [], _, _ => rfl
  | none :: items, hdense, _ => absurd List.mem_cons_self hdense
  | some v :: items, hdense, h => by
    rw [canonicalItems, drawnItems, List.map_cons, canonicalJson_eq v (h v List.mem_cons_self),
      canonicalItems_eq items (fun hn => hdense (List.mem_cons_of_mem _ hn))
        fun w hw => h w (List.mem_cons_of_mem _ hw)]

theorem canonicalEntries_eq : ∀ entries : List (JsString × JsValue ν),
    (∀ e ∈ entries, e.2.Built) → canonicalEntries N entries
      = (drawnEntries entries).map fun m => (m.1, JsonDoc.text N (JsonDoc.sortKeys m.2))
  | [], _ => rfl
  | (k, v) :: entries, h => by
    have hrest := canonicalEntries_eq entries fun e he => h e (List.mem_cons_of_mem _ he)
    by_cases hv : v = .undefined
    · rw [hv]
      exact hrest
    · rw [canonicalEntries_cons N k hv, drawnEntries_cons k hv, hrest,
        canonicalJson_eq v (h (k, v) List.mem_cons_self)]
      rfl

end

mutual

theorem stringify_getD : ∀ v : JsValue ν,
    (stringify N v).getD (units "null") = JsonDoc.text N (drawn v)
  | .undefined => rfl
  | .null => rfl
  | .boolean b => rfl
  | .number (some x) => rfl
  | .number none => rfl
  | .string s => rfl
  | .date (some s) => rfl
  | .date none => rfl
  | .array items => by
    rw [stringify, stringifyItems_eq items, drawn, JsonDoc.text_arr]
    rfl
  | .object entries => by
    rw [stringify, stringifyEntries_eq entries, drawn, JsonDoc.text_obj]
    rfl

theorem stringifyItems_eq : ∀ items : List (Option (JsValue ν)),
    stringifyItems N items = (drawnItems items).map (JsonDoc.text N)
  | [] => rfl
  | none :: items => by
    rw [stringifyItems, drawnItems, stringifyItems_eq items]
    rfl
  | some v :: items => by
    rw [stringifyItems, drawnItems, stringifyItems_eq items, stringify_getD v]
    rfl

theorem stringifyEntries_eq : ∀ entries : List (JsString × JsValue ν), stringifyEntries N entries
    = (drawnEntries entries).map fun m => memberText m.1 (JsonDoc.text N m.2)
  | [] => rfl
  | (k, v) :: entries => by
    by_cases hv : v = .undefined
    · rw [hv]
      exact stringifyEntries_eq entries
    · rw [stringifyEntries, drawnEntries_cons k hv, stringifyEntries_eq entries,
        stringify_defined N hv, stringify_getD v]
      rfl

end

/-- What is sent is the document of the value. -/
theorem stringify_eq (h : v ≠ .undefined) : stringify N v = some (JsonDoc.text N (drawn v)) := by
  rw [stringify_defined N h, stringify_getD]

end Documents

/-! ## The text is exact -/

theorem keys_drawnEntries (entries : List (JsString × JsValue ν)) :
    ((drawnEntries entries).map Prod.fst).Sublist (entries.map Prod.fst) := by
  induction entries with
  | nil => exact .slnil
  | cons e entries ih =>
    obtain ⟨k, v⟩ := e
    by_cases hv : v = .undefined
    · rw [hv]
      exact ih.cons k
    · rw [drawnEntries_cons k hv]
      exact ih.cons_cons k

mutual

theorem keyed_drawn : ∀ v : JsValue ν, v.Built → JsonDoc.Keyed (drawn v)
  | .undefined, _ => .null
  | .null, _ => .null
  | .boolean b, _ => .bool b
  | .number (some x), _ => .num x
  | .number none, _ => .null
  | .string s, _ => .str s
  | .date (some s), _ => .str s
  | .date none, _ => .null
  | .array items, .array _ h => .arr (keyed_drawnItems items h)
  | .object entries, .object hkeys h =>
    .obj (hkeys.sublist (keys_drawnEntries entries)) (keyed_drawnEntries entries h)

theorem keyed_drawnItems : ∀ items : List (Option (JsValue ν)),
    (∀ v, some v ∈ items → v.Built) → ∀ d ∈ drawnItems items, JsonDoc.Keyed d
  | [], _, d, hd => by cases hd
  | none :: items, h, d, hd => by
    rcases List.mem_cons.mp hd with rfl | hd
    · exact .null
    · exact keyed_drawnItems items (fun v hv => h v (List.mem_cons_of_mem _ hv)) d hd
  | some v :: items, h, d, hd => by
    rcases List.mem_cons.mp hd with rfl | hd
    · exact keyed_drawn v (h v List.mem_cons_self)
    · exact keyed_drawnItems items (fun v hv => h v (List.mem_cons_of_mem _ hv)) d hd

theorem keyed_drawnEntries : ∀ entries : List (JsString × JsValue ν),
    (∀ e ∈ entries, e.2.Built) → ∀ m ∈ drawnEntries entries, JsonDoc.Keyed m.2
  | [], _, m, hm => by cases hm
  | (k, v) :: entries, h, m, hm => by
    have hrest := keyed_drawnEntries entries fun e he => h e (List.mem_cons_of_mem _ he)
    by_cases hv : v = .undefined
    · rw [hv] at hm
      exact hrest m hm
    · rw [drawnEntries_cons k hv, List.mem_cons] at hm
      rcases hm with rfl | hm
      · exact keyed_drawn v (h (k, v) List.mem_cons_self)
      · exact hrest m hm

end

/-- The document of a value. -/
def JsonValue.doc (a : JsonValue ν) : Doc ν := drawn a.value

theorem JsonValue.keyed_doc (a : JsonValue ν) : JsonDoc.Keyed a.doc := keyed_drawn a.value a.built

section Exact

variable (N : Numbers ν)

/-- What `JSON.stringify` sends for the two parses to one value, up to the order of its keys. -/
def SentAlike (a b : JsonValue ν) : Prop :=
  ∃ text text' d d', stringify N a.value = some text ∧ stringify N b.value = some text' ∧
    JsonDoc.jsonParse N text = some d ∧ JsonDoc.jsonParse N text' = some d' ∧ JsonDoc.Same d d'

variable {N} {a b : JsonValue ν}

theorem sentAlike_iff : SentAlike N a b ↔ JsonDoc.Same a.doc b.doc := by
  have hsent : ∀ v : JsonValue ν, ∃ text, stringify N v.value = some text ∧
      JsonDoc.jsonParse N text = some v.doc :=
    fun v => ⟨_, stringify_eq N v.defined, JsonDoc.jsonParse_text v.doc⟩
  obtain ⟨text, htext, hread⟩ := hsent a
  obtain ⟨text', htext', hread'⟩ := hsent b
  constructor
  · rintro ⟨t, t', d, d', ht, ht', hd, hd', hsame⟩
    obtain rfl := Option.some.inj (htext.symm.trans ht)
    obtain rfl := Option.some.inj (htext'.symm.trans ht')
    obtain rfl := Option.some.inj (hread.symm.trans hd)
    obtain rfl := Option.some.inj (hread'.symm.trans hd')
    exact hsame
  · intro hsame
    exact ⟨text, text', _, _, htext, htext', hread, hread', hsame⟩

theorem canonicalJson_exact :
    canonicalJson N a.value = canonicalJson N b.value ↔ SentAlike N a b := by
  rw [canonicalJson_eq N _ a.built, canonicalJson_eq N _ b.built, sentAlike_iff]
  exact JsonDoc.text_sortKeys_eq_iff a.keyed_doc b.keyed_doc

end Exact

/-! ## The check -/

structure NodeRow where
  id : String
  name : String
  deleted : Bool
  status : NodeStatus
  appliedRevision : Nat
  desiredRevision : Nat

/-- The rows the check reads. -/
def NodeRow.checked (n : NodeRow) : Bool :=
  !n.deleted && decide (n.status = .online ∨ n.status = .degraded) &&
    decide (n.desiredRevision ≤ n.appliedRevision)

def keyOf (nodeId : String) : String := "node:" ++ nodeId ++ ":pushedSha"

inductive Note where
  | differs (node : String) (recorded : Bool)
  | skipped (node err : String)

/-- What the check has done so far: the pushes it asked for, those that were queued, its log. -/
structure Checked where
  pushed : List String
  queued : Nat
  notes : List Note

section Check

variable {σ : Type} [DecidableEq σ] (N : Numbers ν) (sha : JsString → σ)

def requestFingerprint (req : JsonValue ν) : σ := sha (canonicalJson N req.value)

/-- After a push the agent applied: what it was sent, as a sha. -/
def recordPushed (redis : Expiring String σ) (nodeId : String) (req : JsonValue ν) :
    Expiring String σ :=
  redis.set (keyOf nodeId) (requestFingerprint N sha req) none

/-- What the check calls, each of which may throw. -/
structure Calls (ν σ : Type) where
  build : String → Except String (Option (JsonValue ν))
  get : String → Except String (Option σ)
  push : String → Except String Unit

def checkNode (calls : Calls ν σ) (done : Checked) (n : NodeRow) : Checked :=
  match calls.build n.id with
  | .error err => { done with notes := done.notes ++ [.skipped n.name err] }
  | .ok none => done
  | .ok (some req) =>
    match calls.get (keyOf n.id) with
    | .error err => { done with notes := done.notes ++ [.skipped n.name err] }
    | .ok sent =>
      if sent = some (requestFingerprint N sha req) then done
      else
        match calls.push n.id with
        | .error err =>
          { done with
            pushed := done.pushed ++ [n.id]
            notes := done.notes ++ [.differs n.name sent.isSome, .skipped n.name err] }
        | .ok () =>
          { pushed := done.pushed ++ [n.id]
            queued := done.queued + 1
            notes := done.notes ++ [.differs n.name sent.isSome] }

def checkRenderDrift (calls : Calls ν σ) (nodes : List NodeRow) : Checked :=
  (nodes.filter NodeRow.checked).foldl (checkNode N sha calls) ⟨[], 0, []⟩

/-! ### The nodes a push is queued for -/

/-- The request is built, and nothing is recorded or another text's hash. -/
def Drifted (calls : Calls ν σ) (nodeId : String) : Prop :=
  ∃ req sent, calls.build nodeId = .ok (some req) ∧ calls.get (keyOf nodeId) = .ok sent ∧
    sent ≠ some (requestFingerprint N sha req)

variable {N sha} {calls : Calls ν σ} {nodes : List NodeRow} {nodeId : String}

theorem mem_pushed_checkNode {done : Checked} {n : NodeRow} :
    nodeId ∈ (checkNode N sha calls done n).pushed ↔
      nodeId ∈ done.pushed ∨ (n.id = nodeId ∧ Drifted N sha calls n.id) := by
  unfold checkNode Drifted
  cases hbuild : calls.build n.id with
  | error err => simp
  | ok built =>
    cases built with
    | none => simp
    | some req =>
      cases hget : calls.get (keyOf n.id) with
      | error err => simp
      | ok sent =>
        by_cases hsent : sent = some (requestFingerprint N sha req)
        · simp [hsent]
        · cases calls.push n.id with
          | error err => simp [hsent, eq_comm]
          | ok _ => simp [hsent, eq_comm]

theorem mem_pushed_foldl (rows : List NodeRow) (done : Checked) :
    nodeId ∈ (rows.foldl (checkNode N sha calls) done).pushed ↔
      nodeId ∈ done.pushed ∨ ∃ n ∈ rows, n.id = nodeId ∧ Drifted N sha calls n.id := by
  induction rows generalizing done with
  | nil => simp
  | cons n rows ih =>
    rw [List.foldl_cons, ih, mem_pushed_checkNode, or_assoc]
    simp only [List.mem_cons, exists_eq_or_imp]

theorem mem_pushed_iff : nodeId ∈ (checkRenderDrift N sha calls nodes).pushed ↔
    ∃ n ∈ nodes, n.checked = true ∧ n.id = nodeId ∧ Drifted N sha calls nodeId := by
  rw [checkRenderDrift, mem_pushed_foldl]
  constructor
  · rintro (hnone | ⟨n, hn, rfl, hdrift⟩)
    · cases hnone
    · obtain ⟨hmem, hchecked⟩ := List.mem_filter.mp hn
      exact ⟨n, hmem, hchecked, rfl, hdrift⟩
  · rintro ⟨n, hmem, hchecked, rfl, hdrift⟩
    exact .inr ⟨n, List.mem_filter.mpr ⟨hmem, hchecked⟩, rfl, hdrift⟩

end Check

/-! ### What is recorded -/

theorem keyOf_injective : Function.Injective keyOf := by
  intro id id' h
  have hchars := congrArg String.toList h
  simp only [keyOf, String.toList_append] at hchars
  have hid := List.append_cancel_left (List.append_cancel_right hchars)
  exact String.toList_inj.mp hid

/-- What happens to the store: a push is recorded, or a key that is no node's is written or goes. -/
inductive StoreStep (ν σ : Type) where
  | pushed (nodeId : String) (req : JsonValue ν)
  | other (key : String) (slot : Option (Slot σ)) (h : ∀ nodeId, key ≠ keyOf nodeId)

section Run

variable {σ : Type} (N : Numbers ν) (sha : JsString → σ)

def StoreStep.run (redis : Expiring String σ) : StoreStep ν σ → Expiring String σ
  | .pushed nodeId req => recordPushed N sha redis nodeId req
  | .other key slot _ => redis.put key slot

def stored (steps : List (StoreStep ν σ)) : Expiring String σ :=
  steps.foldl (StoreStep.run N sha) Expiring.empty

/-- The request a node was last sent. -/
def lastSent (nodeId : String) (steps : List (StoreStep ν σ)) : Option (JsonValue ν) :=
  steps.foldl (fun sent step =>
    match step with
    | .pushed nodeId' req => if nodeId' = nodeId then some req else sent
    | .other _ _ _ => sent) none

theorem slot_run (redis : Expiring String σ) (nodeId : String) (step : StoreStep ν σ) :
    (∃ req, step = .pushed nodeId req ∧ (StoreStep.run N sha redis step).slot (keyOf nodeId)
      = some ⟨requestFingerprint N sha req, none⟩) ∨
    ((∀ req, step ≠ .pushed nodeId req) ∧
      (StoreStep.run N sha redis step).slot (keyOf nodeId) = redis.slot (keyOf nodeId)) := by
  cases step with
  | pushed nodeId' req =>
    by_cases hid : nodeId' = nodeId
    · subst hid
      exact .inl ⟨req, rfl, Expiring.put_slot_self⟩
    · right
      refine ⟨?_, Expiring.put_slot_of_ne fun hkey => hid (keyOf_injective hkey).symm⟩
      intro req' hstep
      exact hid (StoreStep.pushed.inj hstep).1
  | other key slot h =>
    right
    refine ⟨?_, Expiring.put_slot_of_ne (h nodeId).symm⟩
    intro req hstep
    cases hstep

variable {N sha}

theorem stored_concat (steps : List (StoreStep ν σ)) (step : StoreStep ν σ) :
    stored N sha (steps ++ [step]) = StoreStep.run N sha (stored N sha steps) step :=
  List.foldl_concat ..

/-- The store holds the hash of what a node was last sent, and does not let it go. -/
theorem slot_stored (steps : List (StoreStep ν σ)) (nodeId : String) :
    (stored N sha steps).slot (keyOf nodeId)
      = (lastSent nodeId steps).map fun req => ⟨requestFingerprint N sha req, none⟩ := by
  induction steps using List.reverseRecOn with
  | nil => rfl
  | append_singleton steps step ih =>
    rw [stored_concat, lastSent, List.foldl_concat]
    rcases slot_run N sha (stored N sha steps) nodeId step with ⟨req, rfl, hslot⟩ | ⟨hother, hslot⟩
    · rw [hslot]
      simp
    · rw [hslot, ih]
      cases step with
      | pushed nodeId' req =>
        have hid : nodeId' ≠ nodeId := by
          rintro rfl
          exact hother req rfl
        simp only [if_neg hid]
        rfl
      | other key slot h => rfl

theorem get_stored (steps : List (StoreStep ν σ)) (now : Nat) (nodeId : String) :
    (stored N sha steps).get now (keyOf nodeId)
      = (lastSent nodeId steps).map (requestFingerprint N sha) := by
  rw [Expiring.get, Expiring.find, slot_stored]
  cases lastSent nodeId steps with
  | none => rfl
  | some req => rfl

end Run

/-! ## The check is exact -/

section Exact

variable {σ : Type} [DecidableEq σ] (N : Numbers ν) (sha : JsString → σ)

/-- A node whose request is built and whose key is read is queued a push exactly when the request is
not what it was last sent. -/
def ChecksExactly (steps : List (StoreStep ν σ)) (now : Nat) (calls : Calls ν σ)
    (nodes : List NodeRow) : Prop :=
  ∀ n ∈ nodes, n.checked = true → ∀ req, calls.build n.id = .ok (some req) →
    calls.get (keyOf n.id) = .ok ((stored N sha steps).get now (keyOf n.id)) →
    (n.id ∈ (checkRenderDrift N sha calls nodes).pushed ↔
      ∀ sent, lastSent n.id steps = some sent → ¬ SentAlike N req sent)

variable {N sha}

/-- A push is queued where nothing is recorded, or what is recorded has another text. -/
theorem mem_pushed_stored (hsha : Function.Injective sha) {steps : List (StoreStep ν σ)} {now : Nat}
    {calls : Calls ν σ} {nodes : List NodeRow} {n : NodeRow} (hn : n ∈ nodes)
    (hchecked : n.checked = true) {req : JsonValue ν} (hbuild : calls.build n.id = .ok (some req))
    (hget : calls.get (keyOf n.id) = .ok ((stored N sha steps).get now (keyOf n.id))) :
    n.id ∈ (checkRenderDrift N sha calls nodes).pushed ↔ ∀ sent, lastSent n.id steps = some sent →
      canonicalJson N req.value ≠ canonicalJson N sent.value := by
  rw [get_stored] at hget
  constructor
  · intro hpushed sent hsent heq
    obtain ⟨n', -, -, hid, req', recorded, hbuild', hget', hne⟩ := mem_pushed_iff.mp hpushed
    rw [hbuild, Except.ok.injEq, Option.some.injEq] at hbuild'
    rw [hget, Except.ok.injEq, hsent] at hget'
    subst hbuild'
    apply hne
    rw [← hget', requestFingerprint, heq]
    rfl
  · intro hdiffers
    refine mem_pushed_iff.mpr ⟨n, hn, hchecked, rfl, req, _, hbuild, hget, ?_⟩
    intro hsame
    obtain ⟨sent, hsent, hprint⟩ := Option.map_eq_some_iff.mp hsame
    exact hdiffers sent hsent (hsha hprint).symm

/-- **The text is exact, and the check with it.** -/
theorem drift_exact (N : Numbers ν) {sha : JsString → σ} (hsha : Function.Injective sha) :
    (∀ a b : JsonValue ν, canonicalJson N a.value = canonicalJson N b.value ↔ SentAlike N a b) ∧
    ∀ (steps : List (StoreStep ν σ)) (now : Nat) (calls : Calls ν σ) (nodes : List NodeRow),
      ChecksExactly N sha steps now calls nodes := by
  refine ⟨fun _ _ => canonicalJson_exact, ?_⟩
  intro steps now calls nodes n hn hchecked req hbuild hget
  rw [mem_pushed_stored hsha hn hchecked hbuild hget]
  exact forall_congr' fun sent => forall_congr' fun _ => not_congr canonicalJson_exact

end Exact

/-- A node that is online and not behind. -/
def onlineNode : NodeRow where
  id := "n1"
  name := "ru-entry"
  deleted := false
  status := .online
  appliedRevision := 3
  desiredRevision := 3

/-- The check of that node, when the panel draws the request for it. -/
def drawing (steps : List (StoreStep Nat JsString)) (req : JsonValue Nat) : Calls Nat JsString where
  build _ := .ok (some req)
  get key := .ok ((stored JsonDoc.wholeNumbers id steps).get 0 key)
  push _ := .ok ()

def portAndUsers : JsonValue Nat where
  value := .object [(units "port", .number (some 443)),
    (units "users", .array [some (.string [97])]), (units "flow", .undefined)]
  built := .object (by decide) (by simp [JsValue.Built.number, JsValue.Built.undefined,
    JsValue.Built.array, JsValue.Built.string])
  defined := by simp

def usersAndPort : JsonValue Nat where
  value := .object [(units "users", .array [some (.string [97])]),
    (units "port", .number (some 443))]
  built := .object (by decide) (by simp [JsValue.Built.number, JsValue.Built.array,
    JsValue.Built.string])
  defined := by simp

/-- The entries in another order, one of them undefined: no push. -/
theorem drift_exact_reordered :
    SentAlike JsonDoc.wholeNumbers portAndUsers usersAndPort ∧
    onlineNode.id ∉ (checkRenderDrift JsonDoc.wholeNumbers id
      (drawing [.pushed "n1" portAndUsers] usersAndPort) [onlineNode]).pushed := by
  have hexact := drift_exact JsonDoc.wholeNumbers Function.injective_id
  have hsent := (hexact.1 usersAndPort portAndUsers).mp rfl
  refine ⟨(hexact.1 _ _).mp rfl, fun hpushed => ?_⟩
  have hnode := hexact.2 _ 0 (drawing [.pushed "n1" portAndUsers] usersAndPort) [onlineNode]
    onlineNode List.mem_cons_self rfl usersAndPort rfl rfl
  exact hnode.mp hpushed portAndUsers rfl hsent

end Iceslab.RenderDrift

import Iceslab.Lib.Fallible
import Iceslab.Lib.GoPath
import Iceslab.Lib.Machine
import Iceslab.Lib.OrderedMap

/-!
# The geo directory of the agent

`internal/geo/store.go`: the list files the panel lays out, one call after another.  What becomes
of every file operation comes with the call; a crash ends the process with its cache and leaves the
directory as it is then.

* `validName` — the names that are laid out.
* `list`, `missing` — what is there, by a hash that is kept for a size and a modification time.
* `put` — a file through a temporary one, the `.dat` it replaces kept as `.prev`.
* `retain` — what no push names leaves.
* `geoStore` — any sequence of calls.
-/

set_option autoImplicit false

namespace Iceslab.Agent.GeoStore

/-! ## Names -/

/-- `[a-z0-9-]` -/
def slugChar (c : Char) : Bool := c.isLower || c.isDigit || c = '-'

/-- `[a-z0-9@!_-]` -/
def tagChar (c : Char) : Bool := c.isLower || c.isDigit || c ∈ ['@', '!', '_', '-']

/-- What follows `iceslab-`: neither class has a dot. -/
def ownRest (rest : List Char) : Bool :=
  match rest.splitOn '.' with
  | [slug, ext] =>
    1 ≤ slug.length ∧ slug.length ≤ 32 ∧ slug.all slugChar = true ∧ ext = "dat".toList
  | [slug, tag, ext] =>
    1 ≤ slug.length ∧ slug.length ≤ 32 ∧ slug.all slugChar = true ∧
      1 ≤ tag.length ∧ tag.length ≤ 64 ∧ tag.all tagChar = true ∧ ext = "json".toList
  | _ => false

/-- `ValidName` -/
def validName (name : String) : Bool :=
  name = "geosite.dat" ∨ name = "geoip.dat" ∨
    (GoText.hasPrefix name "iceslab-" = true ∧ ownRest (name.toList.drop 8) = true)

def prevSuffix : String := ".prev"

/-! ## The store -/

/-- `maxFileBytes` is 64 MiB. -/
def maxFileBytes : Nat := 64 * 1024 * 1024

/-- The time is in nanoseconds. -/
structure File where
  bytes : List UInt8
  modTime : Int
deriving DecidableEq

structure Hashed where
  size : Nat
  mod : Int
  sha : String
deriving DecidableEq

/-- The directory, where one that is not there yet is empty, and the cache of the process. -/
structure World where
  files : OrderedMap String File
  cache : OrderedMap String Hashed

structure GeoFileDto where
  name : String
  sha256 : String
  size : Nat
deriving DecidableEq, Repr

structure NodeGeoFile where
  name : String
  sha256 : String
deriving DecidableEq, Repr

inductive StoreError
  | notAName (name : String)
  | readDir
  | read (name : String)
  | mkdir
  | createTemp
  | copy
  | tooLarge
  | sync
  | close
  | shaMismatch (expected got : String)
  | chmod
  | renamePrev
  | rename
  | syncDir
  | remove (names : List String)
deriving DecidableEq, Repr

abbrev Call (α : Type) : Type := Fallible World StoreError α

open Fallible

namespace World

variable (w : World)

def write (name : String) (file : File) : World := { w with files := w.files.set name file }

def remove (name : String) : World :=
  { w with files := w.files.filter fun n => decide (n ≠ name) }

def rename (old new : String) : World :=
  match w.files.get? old with
  | some file => (w.remove old).write new file
  | none => w

/-- `delete(s.cache, name)` -/
def forget (name : String) : World :=
  { w with cache := w.cache.filter fun n => decide (n ≠ name) }

def remember (name : String) (h : Hashed) : World := { w with cache := w.cache.set name h }

/-- `os.ReadDir`: the entries sorted by name. -/
def entries : List (String × File) := w.files.entries.mergeSort fun a b => decide (a.1 ≤ b.1)

/-- A new process in the directory as it is. -/
def restarted : World := { w with cache := OrderedMap.empty }

end World

/-- `strings.ToLower`, of hex digits. -/
def toLower (s : String) : String := s.map Char.toLower

section Calls

variable (sha256 : List UInt8 → String)

def describe (name : String) (file : File) : GeoFileDto :=
  ⟨name, sha256 file.bytes, file.bytes.length⟩

/-! ## What is there -/

structure ListFates where
  readDir : Fate
  /-- the `lstat` of an entry -/
  info : String → Fate
  /-- opening the file and reading it through -/
  read : String → Fate

section Listing

variable (fates : ListFates)

def hashFile (name : String) (file : File) : Call String := do
  op (fates.read name) (.read name) id
  update fun w => w.remember name ⟨file.bytes.length, file.modTime, sha256 file.bytes⟩
  return sha256 file.bytes

def shaOf (name : String) (file : File) : Call String := do
  let w ← state
  match w.cache.get? name with
  | some c =>
    if c.size = file.bytes.length ∧ c.mod = file.modTime then return c.sha
    else hashFile sha256 fates name file
  | none => hashFile sha256 fates name file

/-- An entry that has no information by now is passed over. -/
def listEntries : List (String × File) → Call (List GeoFileDto)
  | [] => return []
  | (name, file) :: entries =>
    if validName name then do
      let known ← attempt (fates.info name) id
      if known then do
        let sha ← shaOf sha256 fates name file
        let out ← listEntries entries
        return ⟨name, sha, file.bytes.length⟩ :: out
      else listEntries entries
    else listEntries entries

/-- `List` -/
def list : Call (List GeoFileDto) := do
  op fates.readDir .readDir id
  let w ← state
  let out ← listEntries sha256 fates w.entries
  return out.mergeSort fun a b => decide (a.name ≤ b.name)

/-- `Missing` -/
def missing (want : List NodeGeoFile) : Call (List String) := do
  let held ← list sha256 fates
  let sha := OrderedMap.collect (·.name) (fun _ f => f.sha256) held
  return (want.filter fun f =>
    decide ((sha.get? f.name).getD "" ≠ toLower f.sha256)).map (·.name)

end Listing

/-! ## A file laid out -/

structure PutFates where
  mkdir : Fate
  createTemp : Fate
  copy : Fate
  /-- how many bytes are in the temporary file where the copy does not come to its end -/
  copied : Nat
  sync : Fate
  close : Fate
  chmod : Fate
  stat : Fate
  renamePrev : Fate
  rename : Fate
  /-- the temporary file removed on the way out -/
  cleanup : Fate
  syncDir : Fate

/-- What `Put` is called with: the name of the temporary file is the system's choice. -/
structure PutArgs where
  tmp : String
  name : String
  body : List UInt8
  wantSha : String
  now : Int

section Putting

variable (fates : PutFates) (a : PutArgs)

/-- What is read of the body: a byte past the ceiling at most. -/
def PutArgs.sent : List UInt8 := a.body.take (maxFileBytes + 1)

/-- The body into the temporary file, hashed and compared. -/
def fillTemp : Call Unit := do
  update fun w => w.write a.tmp ⟨a.body.take fates.copied, a.now⟩
  op fates.copy .copy fun w => w.write a.tmp ⟨a.sent, a.now⟩
  require (a.sent.length ≤ maxFileBytes) .tooLarge
  op fates.sync .sync id
  op fates.close .close id
  require (sha256 a.sent = toLower a.wantSha)
    (.shaMismatch (toLower a.wantSha) (sha256 a.sent))
  op fates.chmod .chmod id

/-- The `.dat` that is replaced becomes its `.prev`. -/
def moveAway : Call Unit :=
  if GoText.hasSuffix a.name ".dat" then do
    let known ← attempt fates.stat id
    let w ← state
    if known && w.files.has a.name then
      op fates.renamePrev .renamePrev fun w => w.rename a.name (a.name ++ prevSuffix)
    else return
  else return

/-- `Put` -/
def put : Call GeoFileDto := do
  require (validName a.name) (.notAName a.name)
  op fates.mkdir .mkdir id
  op fates.createTemp .createTemp fun w => w.write a.tmp ⟨[], a.now⟩
  onError (do
    fillTemp sha256 fates a
    moveAway fates a
    op fates.rename .rename fun w => w.rename a.tmp a.name) fates.cleanup fun w => w.remove a.tmp
  op fates.syncDir .syncDir id
  update fun w => w.forget a.name
  return ⟨a.name, sha256 a.sent, a.sent.length⟩

end Putting

/-! ## What stays -/

structure RetainFates where
  readDir : Fate
  info : String → Fate
  remove : String → Fate

def hour : Int := 3600 * 1000000000

/-- A geo file, or the copy of one. -/
def ours (name : String) : Bool :=
  validName name ∨
    (GoText.trimSuffix name prevSuffix ≠ name ∧
      validName (GoText.trimSuffix name prevSuffix) = true)

/-- Named by the push, or the copy of what is named. -/
def keeps (named : List String) (name : String) : Bool :=
  name ∈ named ∨
    (GoText.trimSuffix name prevSuffix ≠ name ∧ GoText.trimSuffix name prevSuffix ∈ named)

section Retaining

variable (fates : RetainFates) (named : List String) (now : Int)

/-- Whether an entry goes. -/
def goes (name : String) (file : File) : Call Bool :=
  if GoText.hasPrefix name ".put-" then do
    let known ← attempt (fates.info name) id
    return known && decide (¬ now - file.modTime < hour)
  else return ours name && !keeps named name

/-- The names whose removal failed. -/
def retainEntries : List (String × File) → Call (List String)
  | [] => return []
  | (name, file) :: entries => do
    let out ← goes fates named now name file
    if out then do
      let removed ← attempt (fates.remove name) fun w => w.remove name
      update fun w => w.forget name
      let rest ← retainEntries entries
      return if removed then rest else name :: rest
    else retainEntries entries

/-- `Retain` -/
def retain : Call Unit := do
  op fates.readDir .readDir id
  let w ← state
  let failed ← retainEntries fates named now w.entries
  require failed.isEmpty (.remove failed)

end Retaining

/-! ## Any sequence of calls -/

inductive Event where
  | list (fates : ListFates)
  | missing (fates : ListFates) (want : List NodeGeoFile)
  | put (fates : PutFates) (a : PutArgs)
  | retain (fates : RetainFates) (named : List String) (now : Int)

/-- After a call: with a crash the process starts anew. -/
def afterCall {α : Type} (call : Call α) (w : World) : World :=
  match call w with
  | (.error .crashed, w') => w'.restarted
  | (_, w') => w'

def Event.after (w : World) : Event → World
  | .list fates => afterCall (GeoStore.list sha256 fates) w
  | .missing fates want => afterCall (GeoStore.missing sha256 fates want) w
  | .put fates a => afterCall (GeoStore.put sha256 fates a) w
  | .retain fates named now => afterCall (GeoStore.retain fates named now) w

/-- `os.CreateTemp` makes a file that was not there, under the pattern's name. -/
def Event.Possible (w : World) : Event → Prop
  | .put _ a => GoText.hasPrefix a.tmp ".put-" = true ∧ w.files.get? a.tmp = none
  | _ => True

/-- The store over any sequence of calls, in a directory of any files. -/
def geoStore : Machine World Event where
  start w := w.cache = OrderedMap.empty
  step w e w' := e.Possible w ∧ w' = e.after sha256 w

end Calls

end Iceslab.Agent.GeoStore

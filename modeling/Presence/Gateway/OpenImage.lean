import Presence.Data.Run
import Presence.Gateway.Catalog

namespace Presence.Gateway.OpenImage

open Presence.Data Presence.Go

/-! # Images behind open handles

`OpenImage`, `cached`, `imageIdentity` and the part of `Release` that asks for an image's
identity, each with every look at the directory and at the cache as a step of its own.
An image is named by its hash; the file that has the name may be replaced or written at
any moment, and an open handle stays with the file that was opened.
-/

/-! ## The directory -/

structure ImageFile where
  sha : List UInt8
  content : List UInt8
  modTime : Int
  isRegular : Bool

def ImageFile.info (file : ImageFile) : FileInfo :=
  ⟨Int64.ofNat file.content.length, file.modTime, file.isRegular⟩

/-- The content that came to a path with each modification time. -/
abbrev History := List UInt8 → Int → Option (List UInt8)

def History.record (history : History) (sha : List UInt8) (modTime : Int)
    (content : List UInt8) : History :=
  Function.update history sha (Function.update (history sha) modTime (some content))

/--
Files are numbered, and stay as long as a handle may be open on them.  The history is a book
that nobody reads.
-/
structure Directory where
  names : List UInt8 → Option Nat
  files : Nat → Option ImageFile
  history : History
  named : ∀ sha id, names sha = some id → ∃ file, files id = some file ∧ file.sha = sha
  recorded : ∀ id file, files id = some file →
    history file.sha file.modTime = some file.content

theorem History.record_same (history : History) (sha : List UInt8) (modTime : Int)
    (content : List UInt8) : history.record sha modTime content sha modTime = some content := by
  rw [record, Function.update_self, Function.update_self]

theorem History.record_of_some {history : History} {sha other : List UInt8} {modTime time : Int}
    {content kept : List UInt8} (fresh : history sha modTime = none)
    (known : history other time = some kept) :
    history.record sha modTime content other time = some kept := by
  by_cases path : other = sha
  · subst path
    by_cases same : time = modTime
    · subst same
      exact absurd (fresh.symm.trans known) nofun
    · rw [record, Function.update_self, Function.update_of_ne same, known]
  · rw [record, Function.update_of_ne path, known]

namespace Directory

variable (directory : Directory)

/-- A file with new content or a new modification time, or one more file. -/
theorem recorded_put {id : Nat} {file : ImageFile}
    (fresh : directory.history file.sha file.modTime = none) (other : Nat) (kept : ImageFile)
    (found : Function.update directory.files id (some file) other = some kept) :
    directory.history.record file.sha file.modTime file.content kept.sha kept.modTime =
      some kept.content := by
  by_cases same : other = id
  · rw [same, Function.update_self] at found
    obtain rfl := Option.some.inj found
    exact History.record_same _ _ _ _
  · rw [Function.update_of_ne same] at found
    exact History.record_of_some fresh (directory.recorded other kept found)

theorem named_write {id : Nat} {file written : ImageFile} (there : directory.files id = some file)
    (home : written.sha = file.sha) (sha : List UInt8) (other : Nat)
    (found : directory.names sha = some other) :
    ∃ kept, Function.update directory.files id (some written) other = some kept ∧
      kept.sha = sha := by
  obtain ⟨kept, known, path⟩ := directory.named sha other found
  by_cases same : other = id
  · subst same
    obtain rfl := Option.some.inj (there.symm.trans known)
    exact ⟨written, Function.update_self .., home.trans path⟩
  · exact ⟨kept, by rw [Function.update_of_ne same, known], path⟩

theorem named_replace {id : Nat} {file : ImageFile} (unused : directory.files id = none)
    (sha : List UInt8) (other : Nat)
    (found : Function.update directory.names file.sha (some id) sha = some other) :
    ∃ kept, Function.update directory.files id (some file) other = some kept ∧
      kept.sha = sha := by
  by_cases path : sha = file.sha
  · rw [path, Function.update_self] at found
    obtain rfl := Option.some.inj found
    exact ⟨file, Function.update_self .., path.symm⟩
  · rw [Function.update_of_ne path] at found
    obtain ⟨kept, known, home⟩ := directory.named sha other found
    have different : other ≠ id := by
      rintro rfl
      exact absurd (unused.symm.trans known) nofun
    exact ⟨kept, by rw [Function.update_of_ne different, known], home⟩

theorem named_remove (sha other : List UInt8) (id : Nat)
    (found : Function.update directory.names sha none other = some id) :
    ∃ kept, directory.files id = some kept ∧ kept.sha = other := by
  by_cases path : other = sha
  · rw [path, Function.update_self] at found
    exact absurd found nofun
  · rw [Function.update_of_ne path] at found
    exact directory.named other id found

/-- A write to a file, under whatever name or none; the modification time is a new one. -/
def write (id : Nat) (content : List UInt8) (modTime : Int) : Option Directory :=
  match there : directory.files id with
  | none => none
  | some file =>
    if fresh : directory.history file.sha modTime = none then
      let written : ImageFile := { file with content, modTime }
      some
        { names := directory.names
          files := Function.update directory.files id (some written)
          history := directory.history.record file.sha modTime content
          named := directory.named_write there rfl
          recorded := @recorded_put directory id written fresh }
    else none

/-- Another file under a name. -/
def replace (id : Nat) (file : ImageFile) : Option Directory :=
  if unused : directory.files id = none then
    if fresh : directory.history file.sha file.modTime = none then
      some
        { names := Function.update directory.names file.sha (some id)
          files := Function.update directory.files id (some file)
          history := directory.history.record file.sha file.modTime file.content
          named := directory.named_replace unused
          recorded := directory.recorded_put fresh }
    else none
  else none

def remove (sha : List UInt8) : Directory :=
  { directory with
    names := Function.update directory.names sha none
    named := directory.named_remove sha }

end Directory

/-! ## The calls -/

inductive CallError where
  | catalog (error : CatalogError)
  | wrongSum (sha sum : List UInt8)
  | changedOpening (sha : List UInt8)

/-- What the identity of an image is asked for. -/
inductive Goal where
  | openImage
  | release (channel : List UInt8) (m : FirmwareManifest)

/-- `shown` is what stood in the file when the handle's `Stat` was answered; nobody reads it. -/
inductive Outcome where
  | image (sha : List UInt8) (handle : Nat) (info : FileInfo) (shown : List UInt8)
  | released (m : FirmwareManifest)
  | refused (error : CallError)

/-- Where a call stands, by the step that it makes next. -/
inductive Call where
  | idle
  | stat (goal : Goal) (sha : List UInt8)
  | lookup (goal : Goal) (sha : List UInt8) (info : FileInfo)
  | openToHash (goal : Goal) (sha : List UInt8) (info : FileInfo)
  | copy (goal : Goal) (sha : List UInt8) (info : FileInfo) (handle : Nat)
      (hashed : List UInt8)
  | statHashed (goal : Goal) (sha : List UInt8) (info : FileInfo) (handle : Nat)
      (hashed : List UInt8)
  | store (goal : Goal) (sha : List UInt8) (entry : HashEntry)
  | openToServe (sha : List UInt8)
  | statServed (sha : List UInt8) (handle : Nat)
  | check (sha : List UInt8) (handle : Nat) (info : FileInfo) (shown : List UInt8)
  | finished (outcome : Outcome)

def digest (content : List UInt8) : List UInt8 :=
  Auth.textBytes (encodeHex (Sha256.sum256 content))

def Call.refuse (error : CallError) : Call := .finished (.refused error)

/-- The end of a call whose `imageIdentity` has failed. -/
def Goal.failed (sha : List UInt8) : Goal → CatalogError → Call
  | .release channel _, .noImage => .refuse (.catalog (.missingImage channel sha))
  | _, error => .refuse (.catalog error)

/-- The rest of a call whose `imageIdentity` has returned. -/
def Goal.identified (sha : List UInt8) (size : Int64) (sum : List UInt8) : Goal → Call
  | .openImage => if sum ≠ sha then .refuse (.wrongSum sha sum) else .openToServe sha
  | .release _ m =>
    if size ≠ m.size ∨ sum ≠ m.sha256 then .refuse (.catalog (.mismatch m.sha256 size sum m.size))
    else .finished (.released { m with url := imagePathPrefix ++ m.sha256 })

def cached (catalog : Catalog) (sha : List UInt8) (info : FileInfo) (sum : List UInt8) : Bool :=
  (catalog.hashes sha).any fun e =>
    decide (e.size = info.size ∧ e.modTime = info.modTime ∧ e.sum = sum)

namespace Call

variable (directory : Directory) (catalog : Catalog)

/-- The next step, reading so many bytes at most where it reads. -/
def advance (count : Nat) : Call → Option (Call × Catalog)
  | idle | finished _ => none
  | stat goal sha =>
    match (directory.names sha).bind directory.files with
    | none => some (goal.failed sha .noImage, catalog)
    | some file =>
      if !file.isRegular then some (goal.failed sha (.notRegular sha), catalog)
      else some (lookup goal sha file.info, catalog)
  | lookup goal sha info =>
    match catalog.cachedIdentity sha info with
    | some e => some (goal.identified sha e.size e.sum, catalog)
    | none => some (openToHash goal sha info, catalog)
  | openToHash goal sha info =>
    match directory.names sha with
    | none => some (goal.failed sha (.os .notExist), catalog)
    | some handle => some (copy goal sha info handle [], catalog)
  | copy goal sha info handle hashed =>
    match directory.files handle with
    | none => none
    | some file =>
      if file.content.length ≤ hashed.length then
        some (statHashed goal sha info handle hashed, catalog)
      else if count = 0 then none
      else
        let chunk := (file.content.drop hashed.length).take count
        some (copy goal sha info handle (hashed ++ chunk), catalog)
  | statHashed goal sha info handle hashed =>
    match directory.files handle with
    | none => none
    | some file =>
      let after := file.info
      let n := Int64.ofNat hashed.length
      if after.size ≠ n ∨ after.modTime ≠ info.modTime then
        some (goal.failed sha (.changed sha), catalog)
      else some (store goal sha ⟨n, after.modTime, digest hashed⟩, catalog)
  | store goal sha e =>
    some (goal.identified sha e.size e.sum, ⟨Function.update catalog.hashes sha (some e)⟩)
  | openToServe sha =>
    match directory.names sha with
    | none => some (refuse (.catalog (.os .notExist)), catalog)
    | some handle => some (statServed sha handle, catalog)
  | statServed sha handle =>
    match directory.files handle with
    | none => none
    | some file => some (check sha handle file.info file.content, catalog)
  | check sha handle info shown =>
    if !cached catalog sha info sha then some (refuse (.changedOpening sha), catalog)
    else some (finished (.image sha handle info shown), catalog)

/-- The next step, where the operating system refuses it. -/
def fail (error : OsError) : Call → Option Call
  | stat goal sha =>
    match error with
    | .notExist => some (goal.failed sha .noImage)
    | error => some (goal.failed sha (.os error))
  | openToHash goal sha _ | copy goal sha .. | statHashed goal sha .. =>
    some (goal.failed sha (.os error))
  | openToServe _ | statServed .. => some (refuse (.catalog (.os error)))
  | _ => none

def openImage (sha : List UInt8) : Call :=
  if !validSha256 sha then refuse (.catalog .noImage) else stat .openImage sha

/-- `Release` with the manifest that it has read. -/
def release (channel : List UInt8) (m : FirmwareManifest) : Call :=
  match Catalog.checkManifest channel m with
  | some error => refuse (.catalog error)
  | none => stat (.release channel m) m.sha256

end Call

/-! ## The server -/

structure ImageServer where
  directory : Directory
  catalog : Catalog
  calls : Nat → Call

inductive Event where
  | write (id : Nat) (content : List UInt8) (modTime : Int)
  | replace (id : Nat) (file : ImageFile)
  | remove (sha : List UInt8)
  | openImage (call : Nat) (sha : List UInt8)
  | release (call : Nat) (channel : List UInt8) (m : FirmwareManifest)
  | advance (call count : Nat)
  | fail (call : Nat) (error : OsError)

namespace ImageServer

def setCall (server : ImageServer) (call : Nat) (next : Call) : ImageServer :=
  { server with calls := Function.update server.calls call next }

def begin (server : ImageServer) (call : Nat) (first : Call) : Option ImageServer :=
  match server.calls call with
  | .idle => some (server.setCall call first)
  | _ => none

def step (server : ImageServer) : Event → Option ImageServer
  | .write id content modTime => do
    some { server with directory := ← server.directory.write id content modTime }
  | .replace id file => do
    some { server with directory := ← server.directory.replace id file }
  | .remove sha => some { server with directory := server.directory.remove sha }
  | .openImage call sha => server.begin call (.openImage sha)
  | .release call channel m => server.begin call (.release channel m)
  | .advance call count => do
    let (next, catalog) ← (server.calls call).advance server.directory server.catalog count
    some { server.setCall call next with catalog }
  | .fail call error => do
    some (server.setCall call (← (server.calls call).fail error))

/-- `Open`: nothing is cached, and nobody has asked for anything. -/
def start (directory : Directory) : ImageServer := ⟨directory, ⟨fun _ => none⟩, fun _ => .idle⟩

end ImageServer

/-! ## What holds in between -/

/-- The entry is that of the content that its modification time stands for. -/
def Verified (history : History) (sha : List UInt8) (e : HashEntry) : Prop :=
  ∃ content, history sha e.modTime = some content ∧
    e.size = Int64.ofNat content.length ∧ e.sum = digest content

/-- The directory after others have been at work on it. -/
structure Directory.Evolves (before after : Directory) : Prop where
  grows : ∀ {sha modTime content}, before.history sha modTime = some content →
    after.history sha modTime = some content
  keeps : ∀ {id file}, before.files id = some file →
    ∃ later, after.files id = some later ∧ later.sha = file.sha ∧
      (later = file ∨ before.history file.sha later.modTime = none)

theorem Directory.evolves_write {before after : Directory} {id : Nat} {content : List UInt8}
    {modTime : Int} (written : before.write id content modTime = some after) :
    before.Evolves after := by
  rw [write] at written
  split at written
  next => exact absurd written nofun
  next file there =>
    split at written
    next fresh =>
      obtain rfl := Option.some.inj written
      refine ⟨History.record_of_some fresh, fun {other kept} known => ?_⟩
      by_cases same : other = id
      · subst same
        obtain rfl := Option.some.inj (there.symm.trans known)
        exact ⟨_, Function.update_self .., rfl, .inr fresh⟩
      · exact ⟨kept, (Function.update_of_ne same ..).trans known, rfl, .inl rfl⟩
    next => exact absurd written nofun

theorem Directory.evolves_replace {before after : Directory} {id : Nat} {file : ImageFile}
    (replaced : before.replace id file = some after) : before.Evolves after := by
  rw [replace] at replaced
  split at replaced
  next unused =>
    split at replaced
    next fresh =>
      obtain rfl := Option.some.inj replaced
      refine ⟨History.record_of_some fresh, fun {other kept} known => ?_⟩
      have different : other ≠ id := by
        rintro rfl
        exact absurd (unused.symm.trans known) nofun
      exact ⟨kept, (Function.update_of_ne different ..).trans known, rfl, .inl rfl⟩
    next => exact absurd replaced nofun
  next => exact absurd replaced nofun

theorem Directory.evolves_remove (directory : Directory) (sha : List UInt8) :
    directory.Evolves (directory.remove sha) :=
  ⟨id, fun {_ file} known => ⟨file, known, rfl, .inl rfl⟩⟩

/--
What a call relies on where it stands.  A file whose modification time is still the one that
was first looked at has not been written since, so that what was read of it is its content.
-/
def Call.Holds (directory : Directory) : Call → Prop
  | lookup _ sha info | openToHash _ sha info =>
    ∃ content, directory.history sha info.modTime = some content
  | copy _ sha info handle hashed =>
    (∃ content, directory.history sha info.modTime = some content) ∧
      ∃ file, directory.files handle = some file ∧ file.sha = sha ∧
        (file.modTime = info.modTime → hashed <+: file.content)
  | statHashed _ sha info handle hashed =>
    (∃ content, directory.history sha info.modTime = some content) ∧
      ∃ file, directory.files handle = some file ∧ file.sha = sha ∧
        (file.modTime = info.modTime → hashed = file.content)
  | store _ sha e => Verified directory.history sha e
  | statServed sha handle => ∃ file, directory.files handle = some file ∧ file.sha = sha
  | check sha _ info shown => directory.history sha info.modTime = some shown
  | finished (.image sha _ _ shown) => digest shown = sha
  | finished (.released m) => ∃ sha content modTime,
    directory.history sha modTime = some content ∧ m.size = Int64.ofNat content.length ∧
      m.sha256 = digest content
  | _ => True

theorem Verified.grows {before after : Directory} (evolves : before.Evolves after)
    {sha : List UInt8} {e : HashEntry} (verified : Verified before.history sha e) :
    Verified after.history sha e := by
  obtain ⟨content, known, size, sum⟩ := verified
  exact ⟨content, evolves.grows known, size, sum⟩

/-- Nothing that a call relies on is undone by others. -/
theorem Call.Holds.evolves {before after : Directory} (evolves : before.Evolves after)
    {call : Call} (holds : call.Holds before) : call.Holds after := by
  have handled : ∀ {sha handle} {info : FileInfo} {agrees : List UInt8 → Prop},
      (∃ content, before.history sha info.modTime = some content) →
      (∃ file, before.files handle = some file ∧ file.sha = sha ∧
        (file.modTime = info.modTime → agrees file.content)) →
      ∃ file, after.files handle = some file ∧ file.sha = sha ∧
        (file.modTime = info.modTime → agrees file.content) := by
    rintro sha handle info agrees ⟨content, known⟩ ⟨file, there, rfl, read⟩
    obtain ⟨later, found, home, rfl | fresh⟩ := evolves.keeps there
    · exact ⟨later, found, home, read⟩
    · refine ⟨later, found, home, fun same => ?_⟩
      rw [same] at fresh
      exact absurd (fresh.symm.trans known) nofun
  cases call with
  | idle | stat goal sha | openToServe sha => trivial
  | lookup goal sha info | openToHash goal sha info =>
    obtain ⟨content, known⟩ := holds
    exact ⟨content, evolves.grows known⟩
  | copy goal sha info handle hashed | statHashed goal sha info handle hashed =>
    obtain ⟨⟨content, known⟩, file⟩ := holds
    exact ⟨⟨content, evolves.grows known⟩, handled ⟨content, known⟩ file⟩
  | store goal sha e => exact holds.grows evolves
  | statServed sha handle =>
    obtain ⟨file, there, home⟩ := holds
    obtain ⟨later, found, same, -⟩ := evolves.keeps there
    exact ⟨later, found, same.trans home⟩
  | check sha handle info shown => exact evolves.grows holds
  | finished outcome =>
    cases outcome with
    | image sha handle info shown => exact holds
    | refused error => trivial
    | released m =>
      obtain ⟨sha, content, modTime, known, identity⟩ := holds
      exact ⟨sha, content, modTime, evolves.grows known, identity⟩

/-! ## One step of a call -/

/-- Every entry of the cache is right. -/
def Trusted (directory : Directory) (catalog : Catalog) : Prop :=
  ∀ sha e, catalog.hashes sha = some e → Verified directory.history sha e

theorem failed_holds (directory : Directory) (goal : Goal) (sha : List UInt8)
    (error : CatalogError) : (goal.failed sha error).Holds directory := by
  cases goal <;> cases error <;> trivial

theorem identified_holds {directory : Directory} {sha : List UInt8} {e : HashEntry}
    (verified : Verified directory.history sha e) (goal : Goal) :
    (goal.identified sha e.size e.sum).Holds directory := by
  cases goal with
  | openImage =>
    rw [Goal.identified]
    split <;> trivial
  | release channel m =>
    rw [Goal.identified]
    split
    next => trivial
    next same =>
      obtain ⟨content, known, size, sum⟩ := verified
      rw [not_or, not_not, not_not] at same
      exact ⟨sha, content, e.modTime, known, same.1.symm.trans size, same.2.symm.trans sum⟩

theorem cached_verified {directory : Directory} {catalog : Catalog}
    (trusted : Trusted directory catalog) {sha sum : List UInt8} {info : FileInfo}
    (hit : cached catalog sha info sum = true) :
    ∃ content, directory.history sha info.modTime = some content ∧ sum = digest content := by
  rw [cached, Option.any_eq_true] at hit
  obtain ⟨e, found, same⟩ := hit
  obtain ⟨-, modTime, rfl⟩ := of_decide_eq_true same
  obtain ⟨content, known, -, sum⟩ := trusted sha e found
  exact ⟨content, modTime ▸ known, sum⟩

theorem history_of_named {directory : Directory} {sha : List UInt8} {file : ImageFile}
    (found : (directory.names sha).bind directory.files = some file) :
    directory.history sha file.modTime = some file.content := by
  obtain ⟨id, named, there⟩ := Option.bind_eq_some_iff.mp found
  obtain ⟨kept, known, rfl⟩ := directory.named sha id named
  obtain rfl := Option.some.inj (known.symm.trans there)
  exact directory.recorded id kept known

/-- One more chunk of a file that has not been written since is one more piece of its content. -/
theorem prefix_chunk {hashed content : List UInt8} (begun : hashed <+: content) (count : Nat) :
    hashed ++ (content.drop hashed.length).take count <+: content := by
  obtain ⟨rest, rfl⟩ := begun
  rw [List.drop_left]
  exact (List.prefix_append_right_inj hashed).mpr (List.take_prefix count rest)

/-- A copy that has come to the end, of a file that still has its modification time. -/
theorem stored_verified {directory : Directory} {sha hashed : List UInt8} {file : ImageFile}
    {modTime : Int} {handle : Nat} (there : directory.files handle = some file)
    (home : file.sha = sha) (read : file.modTime = modTime → hashed = file.content)
    (same : file.modTime = modTime) :
    Verified directory.history sha ⟨Int64.ofNat hashed.length, file.modTime, digest hashed⟩ := by
  subst home
  refine ⟨file.content, directory.recorded handle file there, ?_, ?_⟩
  · rw [read same]
  · rw [read same]

/-- A step of a call finds what it relies on, and leaves the cache right. -/
theorem advance_holds {directory : Directory} {catalog after : Catalog} {count : Nat}
    {call next : Call} (trusted : Trusted directory catalog) (holds : call.Holds directory)
    (taken : call.advance directory catalog count = some (next, after)) :
    next.Holds directory ∧ Trusted directory after := by
  cases call with
  | idle | finished outcome => exact absurd taken nofun
  | stat goal sha =>
    rw [Call.advance] at taken
    split at taken
    next =>
      cases taken
      exact ⟨failed_holds .., trusted⟩
    next file found =>
      split at taken
      next =>
        cases taken
        exact ⟨failed_holds .., trusted⟩
      next =>
        cases taken
        exact ⟨⟨file.content, history_of_named found⟩, trusted⟩
  | lookup goal sha info =>
    rw [Call.advance] at taken
    split at taken
    next e hit =>
      cases taken
      have found := (Option.filter_eq_some_iff.mp hit).1
      exact ⟨identified_holds (trusted sha e found) goal, trusted⟩
    next =>
      cases taken
      exact ⟨holds, trusted⟩
  | openToHash goal sha info =>
    rw [Call.advance] at taken
    split at taken
    next =>
      cases taken
      exact ⟨failed_holds .., trusted⟩
    next handle named =>
      cases taken
      obtain ⟨file, there, home⟩ := directory.named sha handle named
      exact ⟨⟨holds, file, there, home, fun _ => List.nil_prefix⟩, trusted⟩
  | copy goal sha info handle hashed =>
    obtain ⟨looked, file, there, home, read⟩ := holds
    simp only [Call.advance, there] at taken
    split at taken
    next ended =>
      cases taken
      refine ⟨⟨looked, file, there, home, fun same => ?_⟩, trusted⟩
      exact (read same).eq_of_length_le ended
    next =>
      split at taken
      next => exact absurd taken nofun
      next =>
        cases taken
        exact ⟨⟨looked, file, there, home, fun same => prefix_chunk (read same) count⟩, trusted⟩
  | statHashed goal sha info handle hashed =>
    obtain ⟨-, file, there, home, read⟩ := holds
    simp only [Call.advance, there] at taken
    split at taken
    next =>
      cases taken
      exact ⟨failed_holds .., trusted⟩
    next same =>
      cases taken
      rw [not_or, not_not, not_not] at same
      exact ⟨stored_verified there home read same.2, trusted⟩
  | store goal sha e =>
    cases taken
    refine ⟨identified_holds holds goal, fun other kept found => ?_⟩
    change Function.update catalog.hashes sha (some e) other = some kept at found
    by_cases path : other = sha
    · subst path
      rw [Function.update_self] at found
      obtain rfl := Option.some.inj found
      exact holds
    · rw [Function.update_of_ne path] at found
      exact trusted other kept found
  | openToServe sha =>
    rw [Call.advance] at taken
    split at taken
    next =>
      cases taken
      exact ⟨trivial, trusted⟩
    next handle named =>
      cases taken
      exact ⟨directory.named sha handle named, trusted⟩
  | statServed sha handle =>
    obtain ⟨file, there, rfl⟩ := holds
    simp only [Call.advance, there] at taken
    cases taken
    exact ⟨directory.recorded handle file there, trusted⟩
  | check sha handle info shown =>
    rw [Call.advance] at taken
    split at taken
    next =>
      cases taken
      exact ⟨trivial, trusted⟩
    next hit =>
      cases taken
      obtain ⟨content, known, sum⟩ := cached_verified trusted (by simpa using hit)
      obtain rfl := Option.some.inj (Eq.trans (Eq.symm holds) known)
      exact ⟨sum.symm, trusted⟩

theorem fail_holds {directory : Directory} {error : OsError} {call next : Call}
    (failed : call.fail error = some next) : next.Holds directory := by
  cases call with
  | stat goal sha =>
    cases error <;> cases failed <;> exact failed_holds ..
  | openToHash goal sha info | copy goal sha info handle hashed
  | statHashed goal sha info handle hashed =>
    cases failed
    exact failed_holds ..
  | openToServe sha | statServed sha handle =>
    cases failed
    trivial
  | idle | lookup goal sha info | store goal sha e | check sha handle info shown
  | finished outcome => exact absurd failed nofun

/-! ## Every run -/

/-- What holds between the steps of any number of calls and of whoever else writes. -/
structure ImageServer.Good (server : ImageServer) : Prop where
  trusted : Trusted server.directory server.catalog
  calls : ∀ call, (server.calls call).Holds server.directory

namespace ImageServer

variable {server next : ImageServer}

theorem good_start (directory : Directory) : (start directory).Good :=
  ⟨fun _ _ found => absurd found nofun, fun _ => trivial⟩

theorem Good.evolves (good : server.Good) {directory : Directory}
    (evolves : server.directory.Evolves directory) : Good { server with directory } :=
  ⟨fun sha e found => (good.trusted sha e found).grows evolves,
    fun call => (good.calls call).evolves evolves⟩

theorem Good.setCall (good : server.Good) {call : Nat} {first : Call} {catalog : Catalog}
    (trusted : Trusted server.directory catalog) (holds : first.Holds server.directory) :
    Good { server.setCall call first with catalog } := by
  refine ⟨trusted, fun other => ?_⟩
  by_cases same : other = call
  · subst same
    simpa only [ImageServer.setCall, Function.update_self] using holds
  · simpa only [ImageServer.setCall, Function.update_of_ne same] using good.calls other

theorem Good.begin (good : server.Good) {call : Nat} {first : Call}
    (holds : first.Holds server.directory) (begun : server.begin call first = some next) :
    next.Good := by
  rw [ImageServer.begin] at begun
  split at begun
  next =>
    cases begun
    exact good.setCall good.trusted holds
  next => exact absurd begun nofun

theorem Good.step (good : server.Good) (event : Event)
    (taken : server.step event = some next) : next.Good := by
  cases event with
  | write id content modTime =>
    obtain ⟨directory, written, made⟩ := Option.bind_eq_some_iff.mp taken
    cases made
    exact good.evolves (Directory.evolves_write written)
  | replace id file =>
    obtain ⟨directory, replaced, made⟩ := Option.bind_eq_some_iff.mp taken
    cases made
    exact good.evolves (Directory.evolves_replace replaced)
  | remove sha =>
    cases taken
    exact good.evolves (server.directory.evolves_remove sha)
  | openImage call sha =>
    refine good.begin ?_ taken
    rw [Call.openImage]
    split <;> trivial
  | release call channel m =>
    refine good.begin ?_ taken
    rw [Call.release]
    split <;> trivial
  | advance call count =>
    obtain ⟨⟨first, catalog⟩, advanced, made⟩ := Option.bind_eq_some_iff.mp taken
    cases made
    obtain ⟨holds, trusted⟩ := advance_holds good.trusted (good.calls call) advanced
    exact good.setCall trusted holds
  | fail call error =>
    obtain ⟨first, failed, made⟩ := Option.bind_eq_some_iff.mp taken
    cases made
    exact good.setCall good.trusted (fail_holds failed)

/-- However the calls and the writers take turns. -/
theorem good_run {directory : Directory} {events : List Event} {final : ImageServer}
    (ran : run step (start directory) events = some final) : final.Good :=
  run_invariant (fun _ event _ good taken => good.step event taken) (good_start directory) ran

/-- A release that was offered was there, at its size and under its hash. -/
theorem released_identity {directory : Directory} {events : List Event} {final : ImageServer}
    (ran : run step (start directory) events = some final) {call : Nat} {m : FirmwareManifest}
    (released : final.calls call = .finished (.released m)) :
    ∃ sha content modTime, final.directory.history sha modTime = some content ∧
      m.size = Int64.ofNat content.length ∧ m.sha256 = digest content := by
  have holds := (good_run ran).calls call
  rwa [released] at holds

/-- A handle is returned on a file that had the bytes it was asked for. -/
theorem opened_content {directory : Directory} {events : List Event} {final : ImageServer}
    (ran : run step (start directory) events = some final) :
    (∀ call sha handle info shown,
      final.calls call = .finished (.image sha handle info shown) → digest shown = sha) ∧
    ∀ sha e, final.catalog.hashes sha = some e → Verified final.directory.history sha e ∧
      ∀ id file, final.directory.files id = some file → file.sha = sha →
        file.modTime = e.modTime →
        file.info.size = e.size ∧ digest file.content = e.sum := by
  have good := good_run ran
  refine ⟨fun call sha handle info shown returned => ?_, fun sha e found => ?_⟩
  · have holds := good.calls call
    rwa [returned] at holds
  · obtain ⟨content, known, size, sum⟩ := good.trusted sha e found
    refine ⟨⟨content, known, size, sum⟩, ?_⟩
    rintro id file there rfl same
    have recorded := final.directory.recorded id file there
    rw [same, known] at recorded
    obtain rfl := Option.some.inj recorded
    exact ⟨size.symm, sum.symm⟩

end ImageServer

/-! ## An image that is replaced between two calls -/

def emptyDirectory : Directory where
  names := fun _ => none
  files := fun _ => none
  history := fun _ _ => none
  named := nofun
  recorded := nofun

def imageName : List UInt8 := digest [7]

def openTwice : List Event :=
  [.replace 0 ⟨imageName, [7], 100, true⟩, .openImage 0 imageName, .openImage 1 imageName,
    .advance 0 0, .advance 1 0, .advance 0 0, .advance 0 0, .advance 0 4096, .advance 0 4096,
    .advance 0 0, .advance 0 0, .advance 0 0, .replace 1 ⟨imageName, [8], 101, true⟩,
    .advance 0 0, .advance 0 0, .advance 1 0, .advance 1 0, .advance 1 0, .advance 1 0]

/-- The name and the bytes of an image that was opened. -/
def Call.opened : Call → Option (List UInt8 × List UInt8)
  | finished (.image sha _ _ shown) => some (sha, shown)
  | _ => none

theorem openTwice_ran : (run ImageServer.step (.start emptyDirectory) openTwice).map
    (fun final => ((final.calls 0).opened, (final.calls 1).opened)) =
      some (some (imageName, [7]), none) := by
  decide +kernel

theorem opened_content_sample : ∃ final,
    run ImageServer.step (ImageServer.start emptyDirectory) openTwice = some final ∧
      (final.calls 0).opened = some (imageName, [7]) ∧ (final.calls 1).opened = none ∧
      digest [7] = imageName := by
  obtain ⟨final, ran, opened⟩ := Option.map_eq_some_iff.mp openTwice_ran
  obtain ⟨first, second⟩ := Prod.mk.inj opened
  refine ⟨final, ran, first, second, ?_⟩
  cases call : final.calls 0 with
  | finished outcome =>
    cases outcome with
    | image sha handle info shown =>
      rw [call] at first
      have served := (ImageServer.opened_content ran).1 0 sha handle info shown call
      change some (sha, shown) = some (imageName, [7]) at first
      obtain ⟨name, bytes⟩ := Prod.mk.inj (Option.some.inj first)
      exact (congrArg digest bytes).symm.trans (served.trans name)
    | released m | refused error => simp [call, Call.opened] at first
  | _ => simp [call, Call.opened] at first

end Presence.Gateway.OpenImage

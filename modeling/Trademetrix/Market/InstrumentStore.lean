import Trademetrix.Async.Serial
import Trademetrix.Market.InstrumentFiles

/-!
# The version directory of the mapped store

`MmapInstrumentStore` and the writer over it, step by step on the file system:
staging, writing, publishing, sealing, validating, activating and retiring. Each
step of the file system may raise before it takes effect. A directory is removed
file by file, and what cannot be removed stays.
-/

namespace Trademetrix.Market

open Async

inductive FileName
  | building | frozen | header
  | payload (p : Payload)
  deriving DecidableEq

def VersionDir.keep (d : VersionDir) (left : List FileName) : VersionDir where
  building := d.building && left.contains .building
  frozen := d.frozen && left.contains .frozen
  payload p := if left.contains (.payload p) then d.payload p else none
  header := if left.contains .header then d.header else none

/-- The store's root: its directories by name, the target of `active` and the
temporary link of this process. -/
structure Root where
  dirs : Dict String VersionDir := []
  active : Option String := none
  tmp : Option String := none

inductive FsEffect
  | mkdir (dir : String)
  | mark (dir : String)
  | create (dir : String) (p : Payload)
  | append (dir : String) (p : Payload) (bytes : List UInt8)
  | touchHeader (dir : String)
  | writeHeader (dir : String) (h : VersionHeader)
  | rename (src dst : String)
  | unmark (dir : String)
  | freeze (dir : String)
  | unlinkTmp
  | symlink (version : String)
  | replaceActive
  | removed (dir : String) (left : Option (List FileName))

def Root.onDir (r : Root) (dir : String) (f : VersionDir → VersionDir) : Root :=
  { r with dirs := r.dirs.modify dir f }

namespace VersionDir

def create (d : VersionDir) (p : Payload) : VersionDir :=
  { d with payload := Function.update d.payload p (some []) }

def append (d : VersionDir) (p : Payload) (bytes : List UInt8) : VersionDir :=
  { d with payload := Function.update d.payload p ((d.payload p).map (· ++ bytes)) }

end VersionDir

def Root.apply (e : FsEffect) (r : Root) : Root :=
  match e with
  | .mkdir dir => { r with dirs := r.dirs.set dir {} }
  | .mark dir => r.onDir dir fun d => { d with building := true }
  | .create dir p => r.onDir dir fun d => d.create p
  | .append dir p bytes => r.onDir dir fun d => d.append p bytes
  | .touchHeader dir => r.onDir dir fun d => { d with header := some .unreadable }
  | .writeHeader dir h => r.onDir dir fun d => { d with header := some (.json h) }
  | .rename src dst =>
    match r.dirs.get src with
    | none => r
    | some d => { r with dirs := (r.dirs.pop src).set dst d }
  | .unmark dir => r.onDir dir fun d => { d with building := false }
  | .freeze dir => r.onDir dir fun d => { d with frozen := true }
  | .unlinkTmp => { r with tmp := none }
  | .symlink version => { r with tmp := some version }
  | .replaceActive => { r with active := r.tmp, tmp := none }
  | .removed dir none => { r with dirs := r.dirs.pop dir }
  | .removed dir (some left) => r.onDir dir fun d => d.keep left

/-- What a call waits for: a step of the file system, which may raise, or the removal of a
directory, of which some files may be left. -/
inductive FsPoint
  | step
  | rmtree (dir : String)

def FsReply : FsPoint → Type
  | .step => Bool
  | .rmtree _ => Option (List FileName)

def undisturbed : (i : FsPoint) → FsReply i
  | .step => true
  | .rmtree _ => (none : Option (List FileName))

abbrev S := ExceptT StoreError (Proc Root FsEffect FsReply)

namespace Fs

def look : S Root := ExceptT.lift Proc.look

/-- One step of the file system, or `OSError`. -/
def step (e : FsEffect) : S Unit := ExceptT.mk do
  let done : Bool ← Proc.wait (FsPoint.step)
  if done then do
    Proc.emit e
    pure (.ok ())
  else pure (.error .osError)

/-- A step that changes nothing the store reads, such as `fsync`. -/
def sync : S Unit := ExceptT.mk do
  let done : Bool ← Proc.wait (FsPoint.step)
  pure (if done then .ok () else .error .osError)

def rmtree (dir : String) : S Unit := ExceptT.mk do
  let left : Option (List FileName) ← Proc.wait (FsPoint.rmtree dir)
  Proc.emit (.removed dir left)
  pure (.ok ())

def raise {α : Type} (e : StoreError) : S α := ExceptT.mk (pure (.error e))

def lift {α : Type} (x : Except StoreError α) : S α := ExceptT.mk (pure x)

/-- Raise `e` unless the check holds. -/
def ensure (check : Prop) [Decidable check] (e : StoreError) : S Unit :=
  lift (if check then .ok () else .error e)

end Fs

def isVersionName (name : String) : Bool :=
  match name.toList with
  | 'v' :: digits => Text.isDigit (String.ofList digits)
  | _ => false

def stagingName (version : String) : String := ".staging-" ++ version

def isStagingName (name : String) : Bool := Text.startsWith name ".staging-"

namespace Root

/-- `path.exists()` of a path in the root; `active` exists when its target does. -/
def exists_ (r : Root) (name : String) : Bool :=
  (r.dirs.get name).isSome ||
    (decide (name = "active") && r.active.any fun v => (r.dirs.get v).isSome)

def activeVersion (r : Root) : Except StoreError String :=
  match r.active with
  | none => .error .reopenRejected
  | some name =>
    if isVersionName name = false then .error .reopenRejected
    else if (r.dirs.get name).isNone then .error .reopenRejected
    else .ok name

def versions (r : Root) : List String :=
  ((r.dirs.map Prod.fst).filter isVersionName).insertionSort (· ≤ ·)

end Root

section Store

variable (schemaId : String)

def stage (version : String) : S String := do
  Fs.ensure (isVersionName version) .activationRejected
  let r ← Fs.look
  Fs.ensure (r.exists_ version = false) .activationRejected
  Fs.ensure (r.exists_ (stagingName version) = false) .activationRejected
  Fs.step (.mkdir (stagingName version))
  Fs.step (.mark (stagingName version))
  return stagingName version

/-- `_fsync` of a file, which has to be there. -/
def syncFile (dir : String) (p : Payload) : S Unit := do
  let r ← Fs.look
  Fs.ensure ((r.dirs.get dir).any fun d => (d.payload p).isSome) .osError
  Fs.sync

def syncHeader (dir : String) : S Unit := do
  let r ← Fs.look
  Fs.ensure ((r.dirs.get dir).any fun d => d.header.isSome) .osError
  Fs.sync

def unmark (dir : String) : S Unit := do
  let r ← Fs.look
  if (r.dirs.get dir).any fun d => d.building then Fs.step (.unmark dir) else pure ()

def seal_ (dir : String) : S Unit := do
  unmark dir
  Payload.all.forM (syncFile dir)
  syncHeader dir
  Fs.step (.freeze dir)
  Fs.sync

/-- `publish` of the staging directory of `staged` as `version`. -/
def publish (staged version : String) : S Unit := do
  let r ← Fs.look
  Fs.ensure (r.exists_ version = false) .activationRejected
  Fs.ensure ((r.dirs.get (stagingName staged)).isSome) .osError
  Fs.ensure (version ≠ "active" ∨ r.active = none) .osError
  Fs.step (.rename (stagingName staged) version)
  Fs.sync

/-- What `validate_candidate` makes of a directory. `except ReopenRejected` names nothing, so
one that does not validate raises `NameError`. -/
def judge (version : String) (dir : Option VersionDir) : Except StoreError VersionHeader :=
  match dir with
  | none => .error .activationRejected
  | some d =>
    if isVersionName version = false ∨ d.building ∨ d.frozen = false then .error .activationRejected
    else match validate schemaId d with
      | .ok h => .ok h
      | .error .reopenRejected => .error .nameError
      | .error e => .error e

def validateCandidate (version : String) : S VersionHeader := do
  let r ← Fs.look
  Fs.lift (judge schemaId version (r.dirs.get version))

def unlinkTmp : S Unit := do
  let r ← Fs.look
  if r.tmp.isSome then Fs.step .unlinkTmp else pure ()

def activate (version : String) : S String := do
  let _ ← validateCandidate schemaId version
  unlinkTmp
  Fs.step (.symlink version)
  let r ← Fs.look
  Fs.ensure ((r.dirs.get "active").isNone) .osError
  Fs.step .replaceActive
  Fs.sync
  let r ← Fs.look
  Fs.lift r.activeVersion

def retired (keep : ℤ) : S (List String) := do
  let r ← Fs.look
  let active ← Fs.lift r.activeVersion
  let others := ((r.versions.filter fun v => v ≠ active).insertionSort (· ≤ ·)).reverse
  let victims := others.drop (keep - 1).toNat
  victims.forM Fs.rmtree
  let r ← Fs.look
  ((r.dirs.map Prod.fst).filter isStagingName).forM Fs.rmtree
  return victims

/-- The loop of `encode_version` over the contracts, from a slot on. -/
def writeContracts (dir : String) : ℕ → List DhanContract → Encoding → S Encoding
  | _, [], e => return e
  | slot, c :: cs, e => do
    Fs.step (.append dir .strings (utf8 c.tradingSymbol))
    let (bytes, e) ← Fs.lift (e.add slot c)
    Fs.step (.append dir .records bytes)
    writeContracts dir (slot + 1) cs e

def writeIndex (dir : String) (p : Payload) (bytes : List UInt8) : S Unit := do
  Fs.step (.create dir p)
  Fs.step (.append dir p (magic ++ bytes))

def measure (dir : String) (p : Payload) : S (ℕ × ℕ) := do
  syncFile dir p
  let r ← Fs.look
  let file := ((r.dirs.get dir).bind fun d => d.payload p).getD []
  let crc ← Fs.lift (crcOfPayload file)
  return (file.length, crc)

def encodeVersion (version : String) (contracts : List DhanContract) (source : Source) :
    S String := do
  let dir ← stage version
  Fs.step (.create dir .records)
  Fs.step (.create dir .strings)
  Fs.step (.append dir .records magic)
  Fs.step (.append dir .strings magic)
  let e ← writeContracts dir 0 contracts {}
  writeIndex dir .sec e.sec
  writeIndex dir .opt e.opt
  writeIndex dir .sym e.sym
  let records ← measure dir .records
  let strings ← measure dir .strings
  let sec ← measure dir .sec
  let opt ← measure dir .opt
  let sym ← measure dir .sym
  let measured : Payload → ℕ × ℕ
    | .records => records | .strings => strings | .sec => sec | .opt => opt | .sym => sym
  Fs.step (.touchHeader dir)
  Fs.step (.writeHeader dir (writeHeader schemaId contracts.length e.tables
    (fun p => (measured p).1) (fun p => (measured p).2) source))
  publish version version
  seal_ version
  return version

/-- `build_from_contracts`, which activates what it has built. -/
def buildFromContracts (version : String) (contracts : List DhanContract) (source : Source) :
    S String := do
  let _ ← encodeVersion schemaId version contracts source
  let _ ← validateCandidate schemaId version
  activate schemaId version

def openActive : S MmapStore := do
  let r ← Fs.look
  let version ← Fs.lift r.activeVersion
  let d := (r.dirs.get version).getD {}
  let h ← Fs.lift (validate schemaId d)
  Fs.lift (MmapStore.open_ d h)

inductive StoreCall
  | stage (version : String)
  | encodeVersion (version : String) (contracts : List DhanContract) (source : Source)
  | publish (staged version : String)
  | seal_ (dir : String)
  | activate (version : String)
  | retired (keep : ℤ)

def StoreCall.code : StoreCall → Proc Root FsEffect FsReply Unit
  | .stage version => Functor.discard (Market.stage version).run
  | .encodeVersion version contracts source =>
    Functor.discard (Market.encodeVersion schemaId version contracts source).run
  | .publish staged version => Functor.discard (Market.publish staged version).run
  | .seal_ dir => Functor.discard (Market.seal_ dir).run
  | .activate version => Functor.discard (Market.activate schemaId version).run
  | .retired keep => Functor.discard (Market.retired keep).run

end Store

end Trademetrix.Market

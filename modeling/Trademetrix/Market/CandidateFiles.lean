import Trademetrix.Market.BuiltVersion
import Trademetrix.Market.InstrumentStore

/-!
# Candidates with anything in their files

`validate`, `validate_candidate` and `activate` on a version directory whatever
it holds: a header that is missing, no text, no JSON or any JSON value, read the
way Python reads it, and payload files that are missing, no files or any bytes.
-/

namespace Trademetrix.Market

/-- What `json.loads` returns; a float that is not finite is `none`. -/
inductive Json
  | null
  | bool (b : Bool)
  | int (n : ℤ)
  | float (x : Option ℚ)
  | str (s : String)
  | list (xs : List Json)
  | dict (entries : List (String × Json))

/-- What `validate` raises. `decodeError` is a `UnicodeDecodeError`, and `decoderLimit` what
`json.loads` raises of a value that it does not read, a `RecursionError` or a `ValueError`. -/
inductive FileError
  | reopenRejected | attributeError | decodeError | decoderLimit | osError
  deriving DecidableEq

namespace Json

/-- `bool(v)`. -/
def truthy : Json → Bool
  | .null => false
  | .bool b => b
  | .int n => n ≠ 0
  | .float x => x ≠ some 0
  | .str s => s ≠ ""
  | .list xs => !xs.isEmpty
  | .dict entries => !entries.isEmpty

/-- `v or {}`. -/
def orEmpty (v : Json) : Json := if v.truthy then v else .dict []

def get (v : Json) (key : String) : Except FileError Json :=
  match v with
  | .dict entries => .ok ((Dict.get entries key).getD .null)
  | _ => .error .attributeError

/-- `((v.get(k) or {}).get(l) or {}).get(m)`, for the keys of a path. -/
def getAt (v : Json) : List String → Except FileError Json
  | [] => .ok v
  | [key] => v.get key
  | key :: path => do
    let w ← v.get key
    w.orEmpty.getAt path

def entry (v : Json) : List String → Option Json
  | [] => some v
  | key :: path =>
    match v with
    | .dict entries => (Dict.get entries key).bind fun w => w.entry path
    | _ => none

/-- The value as an instance of `int`. -/
def asInt : Json → Option ℤ
  | .bool b => some (if b then 1 else 0)
  | .int n => some n
  | _ => none

/-- `v == k`. -/
def eqInt (v : Json) (k : ℤ) : Bool :=
  match v with
  | .float x => x = some (k : ℚ)
  | v => v.asInt = some k

/-- `v == text`. -/
def eqStr (v : Json) (text : String) : Bool :=
  match v with
  | .str s => s = text
  | _ => false

theorem entry_orEmpty (v : Json) (key : String) (path : List String) :
    v.orEmpty.entry (key :: path) = v.entry (key :: path) := by
  unfold orEmpty
  split
  · rfl
  · rename_i hfalsy
    cases v with
    | dict entries =>
      have hentries : entries = [] := by simpa [truthy] using hfalsy
      rw [hentries]
    | _ => rfl

theorem getAt_passes {check : Json → Bool} (hnull : check .null = false) {path : List String}
    (hpath : path ≠ []) (v : Json) :
    (∃ w, v.getAt path = .ok w ∧ check w = true) ↔ ∃ w ∈ v.entry path, check w = true := by
  induction path generalizing v with
  | nil => contradiction
  | cons key path ih =>
    cases v with
    | dict entries =>
      cases path with
      | nil => cases hget : Dict.get entries key <;> simp [getAt, get, entry, hget, hnull]
      | cons key' path =>
        rw [getAt, get, ok_bind, ih (List.cons_ne_nil _ _), entry_orEmpty]
        · cases hget : Dict.get entries key <;> simp [entry, hget]
        · exact nofun
    | _ => cases path <;> simp [getAt, get, entry]

theorem entry_of_get {v w : Json} {key : String} (hw : v.get key = .ok w) (key' : String)
    (path : List String) : v.entry (key :: key' :: path) = w.entry (key' :: path) := by
  cases v with
  | dict entries =>
    rw [← Except.ok.inj hw]
    cases hget : Dict.get entries key <;> simp [entry, hget]
  | _ => exact absurd hw nofun

theorem exists_get {v w : Json} {key : String} {path : List String}
    (hw : w ∈ v.entry (key :: path)) (key' : String) : ∃ u, v.get key' = .ok u := by
  cases v with
  | dict entries => exact ⟨_, rfl⟩
  | _ => exact absurd hw nofun

end Json

inductive HeaderEntry
  | missing
  | unreadable
  | notText
  | notJson
  | beyondDecoder
  | json (v : Json)

/-- `noFile` can be looked at but not opened, a directory for example. -/
inductive PayloadEntry
  | missing
  | noFile (size : ℕ)
  | bytes (bs : List UInt8)

structure Candidate where
  building : Bool := false
  frozen : Bool := false
  header : HeaderEntry := .missing
  payload : Payload → PayloadEntry := fun _ => .missing

def Payload.key : Payload → String
  | .records => "records"
  | .strings => "strings"
  | .sec => "sec"
  | .opt => "opt"
  | .sym => "sym"

namespace PayloadEntry

/-- `st_size`. -/
def size : PayloadEntry → ℕ
  | .missing => 0
  | .noFile n => n
  | .bytes bs => bs.length

def content : PayloadEntry → List UInt8
  | .bytes bs => bs
  | _ => []

end PayloadEntry

namespace Candidate

def require (check : Bool) : Except FileError Unit :=
  if check then .ok () else .error .reopenRejected

def readHeader : HeaderEntry → Except FileError Json
  | .missing => .error .reopenRejected
  | .unreadable => .error .reopenRejected
  | .notText => .error .decodeError
  | .notJson => .error .reopenRejected
  | .beyondDecoder => .error .decoderLimit
  | .json v => .ok v

def requireAt (hdr : Json) (path : List String) (check : Json → Bool) : Except FileError Unit := do
  let v ← hdr.getAt path
  require (check v)

variable (c : Candidate)

def requireFile (sizes : Json) (p : Payload) : Except FileError Unit :=
  match c.payload p with
  | .missing => .error .reopenRejected
  | .noFile n => do
    let want ← sizes.get p.key
    require (want matches .null || want.eqInt n)
    .error .osError
  | .bytes bs => do
    let want ← sizes.get p.key
    require (want matches .null || want.eqInt bs.length)
    require (bs.take magic.length = magic)

/-- `st_size - len(MAGIC)`, of a file that has passed `requireFile`. -/
def payloadSize (p : Payload) : ℕ := (c.payload p).size - magic.length

def requireEntries (p : Payload) (s : Schema) (count : ℤ) : Except FileError Unit := do
  require (c.payloadSize p % s.size = 0)
  require ((c.payloadSize p / s.size : ℕ) = count)

def requireCrc (stored : List (String × Json)) (p : Payload) : Except FileError Unit :=
  match Dict.get stored p.key with
  | some (.int want) => do
    require (decide (0 ≤ want) && decide (want ≤ 0xFFFFFFFF))
    require ((c.payload p).content.take magic.length = magic)
    require ((crc32 ((c.payload p).content.drop magic.length) : ℤ) = want)
  | _ => .error .reopenRejected

def requireCrcs (stored : Json) : Except FileError Unit :=
  match stored with
  | .dict entries => Payload.all.forM (c.requireCrc entries)
  | _ => .error .reopenRejected

def validate (schemaId : String) : Except FileError Json := do
  let hdr ← readHeader c.header
  requireAt hdr ["magic"] fun v => v.eqStr magicText
  requireAt hdr ["format_version"] fun v => v.eqInt formatVersion
  requireAt hdr ["schema_id"] fun v => v.eqStr schemaId
  requireAt hdr ["record_schema", "size"] fun v => v.eqInt record.size
  requireAt hdr ["index_schemas", "SEC_INDEX", "size"] fun v => v.eqInt secIndex.size
  requireAt hdr ["index_schemas", "SYM_INDEX", "size"] fun v => v.eqInt symIndex.size
  requireAt hdr ["index_schemas", "OPT_INDEX", "size"] fun v => v.eqInt optIndex.size
  let count ← hdr.get "record_count"
  require (count.asInt.any fun n => 0 < n)
  let count := count.asInt.getD 0
  let sizes ← hdr.get "file_sizes"
  Payload.all.forM (c.requireFile sizes.orEmpty)
  c.requireEntries .sec secIndex count
  c.requireEntries .opt optIndex count
  c.requireEntries .sym symIndex count
  require ((c.payloadSize .records : ℤ) = count * record.size)
  requireAt hdr ["integrity", "algorithm"] fun v => v.eqStr crcAlgorithm
  let stored ← hdr.get "payload_crc32"
  c.requireCrcs stored
  return hdr

section Intact

variable (schemaId : String)

structure Intact (hdr : Json) : Prop where
  header : c.header = .json hdr
  magic : ∃ v ∈ hdr.entry ["magic"], v.eqStr magicText
  version : ∃ v ∈ hdr.entry ["format_version"], v.eqInt formatVersion
  schema : ∃ v ∈ hdr.entry ["schema_id"], v.eqStr schemaId
  recordSize : ∃ v ∈ hdr.entry ["record_schema", "size"], v.eqInt record.size
  secSize : ∃ v ∈ hdr.entry ["index_schemas", "SEC_INDEX", "size"], v.eqInt secIndex.size
  symSize : ∃ v ∈ hdr.entry ["index_schemas", "SYM_INDEX", "size"], v.eqInt symIndex.size
  optSize : ∃ v ∈ hdr.entry ["index_schemas", "OPT_INDEX", "size"], v.eqInt optIndex.size
  algorithm : ∃ v ∈ hdr.entry ["integrity", "algorithm"], v.eqStr crcAlgorithm
  count : ∃ v, hdr.get "record_count" = .ok v ∧ ∃ n ∈ v.asInt, 0 < n ∧
    (c.payloadSize .records : ℤ) = n * record.size ∧
    (c.payloadSize .sec : ℤ) = n * secIndex.size ∧
    (c.payloadSize .opt : ℤ) = n * optIndex.size ∧
    (c.payloadSize .sym : ℤ) = n * symIndex.size
  files (p : Payload) : ∃ bs, c.payload p = .bytes bs ∧ bs.take Market.magic.length = Market.magic ∧
    hdr.entry ["payload_crc32", p.key] = some (.int (crc32 (bs.drop Market.magic.length))) ∧
    ∃ want, hdr.getAt ["file_sizes", p.key] = .ok want ∧
      (want = .null ∨ want.eqInt bs.length)

theorem require_eq_ok {check : Bool} : require check = .ok () ↔ check = true := by
  cases check <;> simp [require]

theorem requireAt_eq_ok {hdr : Json} {path : List String} {check : Json → Bool}
    (hnull : check .null = false) (hpath : path ≠ []) :
    requireAt hdr path check = .ok () ↔ ∃ v ∈ hdr.entry path, check v = true := by
  rw [← Json.getAt_passes hnull hpath]
  simp [requireAt, bind_eq_ok, require_eq_ok]

variable {c}

theorem requireFile_eq_ok {sizes : Json} {p : Payload} :
    c.requireFile sizes p = .ok () ↔
      ∃ bs, c.payload p = .bytes bs ∧ bs.take Market.magic.length = Market.magic ∧
        ∃ want, sizes.get p.key = .ok want ∧ (want = .null ∨ want.eqInt bs.length) := by
  have hnull (want : Json) : (want matches .null) = true ↔ want = .null := by cases want <;> simp
  unfold requireFile
  cases hp : c.payload p with
  | missing => simp
  | noFile n => simp [bind_eq_ok]
  | bytes bs =>
    simp only [bind_eq_ok (α := Json), unit_bind_eq_ok, require_eq_ok, Bool.or_eq_true, hnull,
      decide_eq_true_eq, PayloadEntry.bytes.injEq, exists_eq_left']
    exact ⟨fun ⟨want, hwant, hsize, hmagic⟩ => ⟨hmagic, want, hwant, hsize⟩,
      fun ⟨hmagic, want, hwant, hsize⟩ => ⟨want, hwant, hsize, hmagic⟩⟩

theorem requireEntries_eq_ok {p : Payload} {s : Schema} {count : ℤ} (hs : 0 < s.size) :
    c.requireEntries p s count = .ok () ↔ (c.payloadSize p : ℤ) = count * s.size := by
  simp only [requireEntries, unit_bind_eq_ok, require_eq_ok, decide_eq_true_eq]
  constructor
  · rintro ⟨hrest, rfl⟩
    exact_mod_cast (Nat.div_mul_cancel (Nat.dvd_of_mod_eq_zero hrest)).symm
  · intro h
    lift count to ℕ using by nlinarith
    have hsize : c.payloadSize p = count * s.size := by exact_mod_cast h
    rw [hsize]
    exact ⟨Nat.mul_mod_left _ _, by rw [Nat.mul_div_cancel _ hs]⟩

theorem forM_payloads_eq_ok {f : Payload → Except FileError Unit} :
    Payload.all.forM f = .ok () ↔ ∀ p, f p = .ok () :=
  forM_eq_ok.trans ⟨fun h p => h p (by cases p <;> decide), fun h p _ => h p⟩

theorem requireCrc_eq_ok {stored : List (String × Json)} {p : Payload}
    (hfile : (c.payload p).content.take Market.magic.length = Market.magic) :
    c.requireCrc stored p = .ok () ↔
      Dict.get stored p.key =
        some (.int (crc32 ((c.payload p).content.drop Market.magic.length))) := by
  have hbound : crc32 ((c.payload p).content.drop Market.magic.length) < 2 ^ 32 :=
    UInt32.toNat_lt _
  unfold requireCrc
  split
  · rename_i want hwant
    simp only [unit_bind_eq_ok, require_eq_ok, Bool.and_eq_true, decide_eq_true_eq, hwant,
      Option.some.injEq, Json.int.injEq, hfile, true_and]
    omega
  · rename_i hother
    simp only [reduceCtorEq, false_iff]
    exact hother _

theorem requireCrcs_eq_ok {stored : Json}
    (hfile : ∀ p, (c.payload p).content.take Market.magic.length = Market.magic) :
    c.requireCrcs stored = .ok () ↔ ∀ p : Payload,
      stored.entry [p.key] =
        some (.int (crc32 ((c.payload p).content.drop Market.magic.length))) := by
  cases stored with
  | dict entries =>
    refine forM_payloads_eq_ok.trans (forall_congr' fun p => ?_)
    rw [requireCrc_eq_ok (hfile p)]
    simp [Json.entry]
  | _ => exact iff_of_false nofun fun h => by simpa [Json.entry] using h .records

theorem requireStr_eq_ok {hdr : Json} {key text : String} {path : List String} :
    requireAt hdr (key :: path) (fun v => v.eqStr text) = .ok () ↔
      ∃ v ∈ hdr.entry (key :: path), v.eqStr text = true :=
  requireAt_eq_ok rfl (List.cons_ne_nil _ _)

theorem requireInt_eq_ok {hdr : Json} {key : String} {n : ℤ} {path : List String} :
    requireAt hdr (key :: path) (fun v => v.eqInt n) = .ok () ↔
      ∃ v ∈ hdr.entry (key :: path), v.eqInt n = true :=
  requireAt_eq_ok rfl (List.cons_ne_nil _ _)

theorem readHeader_eq_ok {entry : HeaderEntry} {hdr : Json} :
    readHeader entry = .ok hdr ↔ entry = .json hdr := by
  cases entry <;> simp [readHeader]

theorem validate_eq_ok (hdr : Json) :
    c.validate schemaId = .ok hdr ↔ c.Intact schemaId hdr := by
  have hrec : 0 < record.size := by decide
  have hsec : 0 < secIndex.size := by decide
  have hsym : 0 < symIndex.size := by decide
  have hopt : 0 < optIndex.size := by decide
  simp only [validate, bind_eq_ok (α := Json), unit_bind_eq_ok, requireStr_eq_ok, requireInt_eq_ok,
    readHeader_eq_ok, require_eq_ok, forM_payloads_eq_ok, requireFile_eq_ok, requireEntries_eq_ok hsec,
    requireEntries_eq_ok hopt, requireEntries_eq_ok hsym, decide_eq_true_eq, pure_eq_ok]
  constructor
  · rintro ⟨_, hheader, hmagic, hversion, hschema, hrecord, hsecSize, hsymSize, hoptSize, v, hv, hpos,
      sizes, hsizes, hfiles, hsecs, hopts, hsyms, hrecords, halgorithm, stored, hstored, hcrcs, hhdr⟩
    rw [← Except.ok.inj hhdr]
    obtain ⟨n, hn, hnpos⟩ : ∃ n, v.asInt = some n ∧ 0 < n := by
      simpa [Option.any_eq_true] using hpos
    simp only [hn, Option.getD_some] at hsecs hopts hsyms hrecords
    have hprefix (p : Payload) :
        (c.payload p).content.take Market.magic.length = Market.magic := by
      obtain ⟨bs, hbs, htake, -⟩ := hfiles p
      rwa [hbs]
    refine ⟨hheader, hmagic, hversion, hschema, hrecord, hsecSize, hsymSize, hoptSize, halgorithm,
      ⟨v, hv, n, hn, hnpos, hrecords, hsecs, hopts, hsyms⟩, fun p => ?_⟩
    obtain ⟨bs, hbs, htake, want, hwant, hsize⟩ := hfiles p
    have hcrc := (requireCrcs_eq_ok hprefix).mp hcrcs p
    rw [hbs, ← Json.entry_of_get hstored] at hcrc
    exact ⟨bs, hbs, htake, hcrc, want, (ok_then hsizes).trans hwant, hsize⟩
  · intro h
    obtain ⟨v, hv, n, hn, hnpos, hrecords, hsecs, hopts, hsyms⟩ := h.count
    rw [Option.mem_def] at hn
    obtain ⟨w, hw, -⟩ := h.magic
    obtain ⟨sizes, hsizes⟩ := Json.exists_get hw "file_sizes"
    obtain ⟨stored, hstored⟩ := Json.exists_get hw "payload_crc32"
    refine ⟨hdr, h.header, h.magic, h.version, h.schema, h.recordSize, h.secSize, h.symSize,
      h.optSize, v, hv, by simpa [hn] using hnpos, sizes, hsizes, fun p => ?_, by rwa [hn],
      by rwa [hn], by rwa [hn], by rwa [hn], h.algorithm, stored, hstored, ?_, rfl⟩
    · obtain ⟨bs, hbs, htake, -, want, hwant, hsize⟩ := h.files p
      exact ⟨bs, hbs, htake, want, (ok_then hsizes).symm.trans hwant, hsize⟩
    · have hprefix (p : Payload) :
          (c.payload p).content.take Market.magic.length = Market.magic := by
        obtain ⟨bs, hbs, htake, -⟩ := h.files p
        rwa [hbs]
      refine (requireCrcs_eq_ok hprefix).mpr fun p => ?_
      obtain ⟨bs, hbs, -, hcrc, -⟩ := h.files p
      rw [← Json.entry_of_get hstored, hcrc, hbs]
      rfl

end Intact

end Candidate

section Store

variable (schemaId : String)

/-- The checks of `validate_candidate` before it validates. -/
def Candidate.Refused (version : String) (dir : Option Candidate) : Prop :=
  isVersionName version = false ∨ dir = none ∨ ∃ c ∈ dir, c.building = true ∨ c.frozen = false

/-- `except ReopenRejected` is looked up when an exception comes to it, and is no name: whatever
`validate` raises, `NameError` is raised. -/
def validateAny (version : String) (dir : Option Candidate) : Except StoreError Json :=
  match dir with
  | none => .error .activationRejected
  | some c =>
    if isVersionName version = false ∨ c.building = true ∨ c.frozen = false then
      .error .activationRejected
    else match c.validate schemaId with
      | .ok hdr => .ok hdr
      | .error _ => .error .nameError

/-- The root with its directories, the target of `active` and the temporary link. -/
structure CandidateRoot where
  dirs : Dict String Candidate := []
  active : Option String := none
  tmp : Option String := none

structure LinkSteps where
  unlink : Bool := true
  symlink : Bool := true
  replace : Bool := true
  sync : Bool := true

namespace CandidateRoot

def activeVersion (r : CandidateRoot) : Except StoreError String :=
  match r.active with
  | none => .error .reopenRejected
  | some name =>
    if isVersionName name = false ∨ (r.dirs.get name).isNone then .error .reopenRejected
    else .ok name

/-- `activate` of a version that validates. -/
def relink (r : CandidateRoot) (version : String) (steps : LinkSteps) :
    Except StoreError String × CandidateRoot :=
  if r.tmp.isSome && !steps.unlink then (.error .osError, r)
  else if !steps.symlink then (.error .osError, { r with tmp := none })
  -- the link is there; it does not replace a directory
  else if !steps.replace || (r.dirs.get "active").isSome then
    (.error .osError, { r with tmp := some version })
  else
    let r' : CandidateRoot := { r with active := some version, tmp := none }
    (if steps.sync then r'.activeVersion else .error .osError, r')

def activate (r : CandidateRoot) (version : String) (steps : LinkSteps) :
    Except StoreError String × CandidateRoot :=
  match validateAny schemaId version (r.dirs.get version) with
  | .error e => (.error e, r)
  | .ok _ => r.relink version steps

/-- Validation returns a header or raises the rejection, and activation puts exactly the version
in force or raises and leaves in force what was. -/
structure Settles (r : CandidateRoot) (version : String) (steps : LinkSteps) : Prop where
  validated : ∀ e, validateAny schemaId version (r.dirs.get version) = .error e →
    e = .activationRejected
  activated : match r.activate schemaId version steps with
    | (.ok w, r') => w = version ∧ r'.activeVersion = .ok version
    | (.error _, r') => r'.activeVersion = r.activeVersion

def Stopped (r : CandidateRoot) (steps : LinkSteps) : Prop :=
  (r.tmp.isSome ∧ steps.unlink = false) ∨ steps.symlink = false ∨ steps.replace = false ∨
    (r.dirs.get "active").isSome

variable {r : CandidateRoot} {version : String} {steps : LinkSteps}

theorem validateAny_refused {dir : Option Candidate} (h : Candidate.Refused version dir) :
    validateAny schemaId version dir = .error .activationRejected := by
  cases dir with
  | none => rfl
  | some c => exact if_pos (by simpa [Candidate.Refused] using h)

theorem validateAny_of_not_refused {dir : Option Candidate}
    (h : ¬ Candidate.Refused version dir) : ∃ c, dir = some c ∧ isVersionName version = true ∧
      validateAny schemaId version dir =
        (c.validate schemaId).mapError fun _ => StoreError.nameError := by
  cases dir with
  | none => exact absurd (.inr (.inl rfl)) h
  | some c =>
    refine ⟨c, rfl, by simpa using fun hname => h (.inl hname), ?_⟩
    refine (if_neg (by simpa [Candidate.Refused] using h)).trans ?_
    cases c.validate schemaId <;> rfl

theorem activeVersion_of_active (hname : isVersionName version = true)
    (hdir : (r.dirs.get version).isSome) (hactive : r.active = some version) :
    r.activeVersion = .ok version := by
  obtain ⟨c, hc⟩ := Option.isSome_iff_exists.mp hdir
  rw [activeVersion, hactive]
  exact if_neg (by simp [hname, hc])

theorem active_of_activeVersion (h : r.activeVersion = .ok version) : r.active = some version := by
  unfold activeVersion at h
  split at h
  · cases h
  · split at h
    · cases h
    · rw [← Except.ok.inj h]
      assumption

theorem relink_settles (hname : isVersionName version = true)
    (hdir : (r.dirs.get version).isSome) :
    (match r.relink version steps with
      | (.ok w, r') => w = version ∧ r'.activeVersion = .ok version
      | (.error _, r') => r'.activeVersion = r.activeVersion) ↔
      steps.sync = true ∨ r.active = some version ∨ r.Stopped steps := by
  have hnew : CandidateRoot.activeVersion { r with active := some version, tmp := none } =
      .ok version := activeVersion_of_active hname hdir rfl
  have hold : Except.ok version = r.activeVersion ↔ r.active = some version :=
    ⟨fun h => active_of_activeVersion h.symm, fun h => (activeVersion_of_active hname hdir h).symm⟩
  by_cases hstopped : r.Stopped steps
  · refine iff_of_true ?_ (.inr (.inr hstopped))
    unfold relink
    split_ifs with hunlink hsymlink hreplace
    · rfl
    · rfl
    · rfl
    · simp_all [Stopped]
    · simp_all [Stopped]
  · have hreplaced : r.relink version steps =
        (if steps.sync then .ok version else .error .osError,
          { r with active := some version, tmp := none }) := by
      simp only [Stopped, not_or, not_and, Bool.not_eq_false] at hstopped
      obtain ⟨hunlink, hsymlink, hreplace, hfree⟩ := hstopped
      rw [relink, if_neg (by simpa using hunlink), if_neg (by simp [hsymlink]),
        if_neg (by simpa [hreplace] using hfree)]
      simp only [hnew]
    rw [hreplaced]
    cases hsync : steps.sync
    · simp [hnew, hold, hstopped]
    · simp [hnew]

theorem activate_ok {hdr : Json}
    (hvalid : validateAny schemaId version (r.dirs.get version) = .ok hdr) :
    r.activate schemaId version steps = r.relink version steps := by
  rw [activate, hvalid]

theorem activate_error {e : StoreError}
    (hvalid : validateAny schemaId version (r.dirs.get version) = .error e) :
    r.activate schemaId version steps = (.error e, r) := by
  rw [activate, hvalid]

theorem candidate_settles_iff (r : CandidateRoot) (version : String) (steps : LinkSteps) :
    Settles schemaId r version steps ↔
      Candidate.Refused version (r.dirs.get version) ∨
        (∃ c ∈ r.dirs.get version, ∃ hdr, c.Intact schemaId hdr) ∧
          (steps.sync = true ∨ r.active = some version ∨ r.Stopped steps) := by
  by_cases hrefused : Candidate.Refused version (r.dirs.get version)
  · have herror := validateAny_refused schemaId hrefused
    refine iff_of_true ⟨fun e he => ?_, ?_⟩ (.inl hrefused)
    · exact (Except.error.inj (herror.symm.trans he)).symm
    · rw [activate_error schemaId herror]
  · obtain ⟨c, hdir, hname, hvalidate⟩ := validateAny_of_not_refused schemaId hrefused
    have hsome : (r.dirs.get version).isSome := by simp [hdir]
    cases hfiles : c.validate schemaId with
    | error e =>
      rw [hfiles] at hvalidate
      refine iff_of_false (fun h => by simpa using h.validated _ hvalidate) ?_
      rintro (h | ⟨⟨d, hd, hdr, hintact⟩, -⟩)
      · exact hrefused h
      · obtain rfl := Option.some.inj (hdir.symm.trans hd)
        exact error_ne_ok _ _ (hfiles.symm.trans ((Candidate.validate_eq_ok schemaId hdr).mpr hintact))
    | ok hdr =>
      rw [hfiles] at hvalidate
      have hintact : ∃ c ∈ r.dirs.get version, ∃ hdr, c.Intact schemaId hdr :=
        ⟨c, hdir, hdr, (Candidate.validate_eq_ok schemaId hdr).mp hfiles⟩
      rw [or_iff_right hrefused, and_iff_right hintact,
        ← relink_settles hname hsome, ← activate_ok schemaId hvalidate]
      exact ⟨fun h => h.activated,
        fun h => ⟨fun e he => absurd (hvalidate.symm.trans he) (ok_ne_error _ _), h⟩⟩

/-- A sealed directory whose header is gone: `NameError`. -/
theorem not_settles_headless :
    ¬ Settles "" { dirs := [("v0001", { frozen := true })] } "v0001" {} := by
  intro h
  have hraised : validateAny "" "v0001" (some { frozen := true }) = .error .nameError := by rfl
  exact absurd (h.validated _ hraised) (by decide)

end CandidateRoot

end Store

end Trademetrix.Market

import Trademetrix.Market.CandidateFiles

/-!
# The directories of the writer as candidates

On a version directory the writer may have left, `validate` and `activate` of
the store are those on the candidate with the same files.
-/

namespace Trademetrix.Market

open Async

section Built

/-- The entries of a header that `validate` reads. -/
def VersionHeader.toJson (h : VersionHeader) : Json :=
  .dict [
    ("magic", .str h.magic),
    ("format_version", .int h.formatVersion),
    ("schema_id", .str h.schemaId),
    ("record_schema", .dict [("size", .int h.recordSize)]),
    ("index_schemas", .dict [
      ("SEC_INDEX", .dict [("size", .int (h.indexSizes .sec))]),
      ("SYM_INDEX", .dict [("size", .int (h.indexSizes .sym))]),
      ("OPT_INDEX", .dict [("size", .int (h.indexSizes .opt))])]),
    ("record_count", .int h.recordCount),
    ("file_sizes", .dict (Payload.all.map fun p => (p.key, .int (h.fileSizes p)))),
    ("integrity", .dict [("algorithm", .str h.algorithm)]),
    ("payload_crc32", .dict (Payload.all.map fun p => (p.key, .int (h.payloadCrc32 p))))]

def HeaderEntry.ofFile : Option HeaderFile → HeaderEntry
  | none => .missing
  | some .unreadable => .notJson
  | some (.json h) => .json h.toJson

def PayloadEntry.ofFile : Option (List UInt8) → PayloadEntry
  | none => .missing
  | some bs => .bytes bs

def VersionDir.candidate (d : VersionDir) : Candidate where
  building := d.building
  frozen := d.frozen
  header := .ofFile d.header
  payload p := .ofFile (d.payload p)

variable (schemaId : String) (d : VersionDir)

def Candidate.Agree {α β : Type} (f : α → β) (x : Except StoreError α) (y : Except FileError β) :
    Prop :=
  (∃ a, x = .ok a ∧ y = .ok (f a)) ∨ x = .error .reopenRejected ∧ y = .error .reopenRejected

namespace Candidate

variable {α β : Type} {f : α → β}

theorem agree_bind {x : Except StoreError Unit} {y : Except FileError Unit}
    {g : Unit → Except StoreError α} {k : Unit → Except FileError β} (h : Agree id x y)
    (hrest : Agree f (g ()) (k ())) : Agree f (x >>= g) (y >>= k) := by
  obtain ⟨_, rfl, rfl⟩ | ⟨rfl, rfl⟩ := h
  · exact hrest
  · exact .inr ⟨rfl, rfl⟩

theorem agree_forM {xs : List Payload} {g : Payload → Except StoreError Unit}
    {k : Payload → Except FileError Unit} (h : ∀ p, Agree id (g p) (k p)) :
    Agree id (xs.forM g) (xs.forM k) := by
  induction xs with
  | nil => exact .inl ⟨(), rfl, rfl⟩
  | cons p xs ih => exact agree_bind (h p) ih

theorem agree_ensure {check : Prop} [Decidable check] {b : Bool} (h : b = true ↔ check) :
    Agree id (ensure check) (require b) := by
  unfold ensure require
  by_cases hc : check
  · exact .inl ⟨(), if_pos hc, if_pos (h.mpr hc)⟩
  · exact .inr ⟨if_neg hc, if_neg (hc ∘ h.mp)⟩

theorem agree_text {hdr : Json} {path : List String} {text want : String}
    (hv : hdr.getAt path = .ok (.str text)) :
    Agree id (ensure (text = want)) (requireAt hdr path fun v => v.eqStr want) := by
  rw [requireAt, ok_then hv]
  exact agree_ensure (by simp [Json.eqStr])

theorem agree_size {hdr : Json} {path : List String} {n want : ℕ}
    (hv : hdr.getAt path = .ok (.int n)) :
    Agree id (ensure (n = want)) (requireAt hdr path fun v => v.eqInt want) := by
  rw [requireAt, ok_then hv]
  exact agree_ensure (by simp [Json.eqInt, Json.asInt])

theorem require_and (a b : Bool) : (require a >>= fun _ => require b) = require (a && b) := by
  cases a <;> rfl

theorem get_payloads (n : Payload → ℕ) (p : Payload) :
    Dict.get (Payload.all.map fun p => (p.key, Json.int (n p))) p.key = some (.int (n p)) := by
  cases p <;> rfl

theorem agree_file (h : VersionHeader) (p : Payload) :
    Agree id (validateFile d h p) (d.candidate.requireFile (.dict (Payload.all.map fun p =>
      (p.key, .int (h.fileSizes p)))) p) := by
  unfold validateFile requireFile
  rw [show d.candidate.payload p = .ofFile (d.payload p) from rfl]
  cases d.payload p with
  | none => exact .inr ⟨rfl, rfl⟩
  | some bs =>
    simp only [PayloadEntry.ofFile, Json.get, get_payloads, Option.getD_some, ok_bind, Bool.false_or]
    refine agree_bind (agree_ensure ?_) (agree_ensure (by simp))
    simp [Json.eqInt, Json.asInt, eq_comm]

theorem content_candidate (p : Payload) :
    (d.candidate.payload p).content = (d.payload p).getD [] := by
  rw [show d.candidate.payload p = .ofFile (d.payload p) from rfl]
  cases d.payload p <;> rfl

theorem payloadSize_candidate (p : Payload) : d.candidate.payloadSize p = payloadLength d p := by
  unfold payloadSize payloadLength
  rw [show d.candidate.payload p = .ofFile (d.payload p) from rfl]
  cases d.payload p <;> rfl

theorem agree_index (h : VersionHeader) (p : Payload) (s : Schema) :
    Agree id (validateIndex d h p s) (d.candidate.requireEntries p s h.recordCount) := by
  unfold validateIndex requireEntries
  rw [payloadSize_candidate]
  exact agree_bind (agree_ensure (by simp)) (agree_ensure (by rw [decide_eq_true_eq, Nat.cast_inj]))

theorem agree_crc (h : VersionHeader) (p : Payload) :
    Agree id (validateCrc d h p) (d.candidate.requireCrc (Payload.all.map fun p =>
      (p.key, .int (h.payloadCrc32 p))) p) := by
  have hbound : crc32 (((d.payload p).getD []).drop Market.magic.length) < 2 ^ 32 :=
    UInt32.toNat_lt _
  have hcheck : validateCrc d h p =
      ensure (((d.payload p).getD []).take Market.magic.length = Market.magic ∧
        crc32 (((d.payload p).getD []).drop Market.magic.length) = h.payloadCrc32 p) := by
    unfold validateCrc crcOfPayload ensure
    split_ifs <;> simp_all
  rw [hcheck, requireCrc, get_payloads, content_candidate]
  simp only [require_and]
  refine agree_ensure ?_
  simp only [Bool.and_eq_true, decide_eq_true_eq]
  constructor
  · rintro ⟨-, hmagic, hcrc⟩
    exact ⟨hmagic, by omega⟩
  · rintro ⟨hmagic, hcrc⟩
    exact ⟨by omega, hmagic, by omega⟩

theorem agree_validate :
    Agree VersionHeader.toJson (Market.validate schemaId d) (d.candidate.validate schemaId) := by
  unfold Market.validate validate Market.readHeader
  rw [show d.candidate.header = .ofFile d.header from rfl]
  cases d.header with
  | none => exact .inr ⟨rfl, rfl⟩
  | some file =>
    cases file with
    | unreadable => exact .inr ⟨rfl, rfl⟩
    | json h =>
      have hpos : (some (h.recordCount : ℤ)).any (fun n => decide (0 < n)) = true ↔
          0 < h.recordCount := by simp
      have hrecords : decide ((d.candidate.payloadSize .records : ℤ) =
          (h.recordCount : ℤ) * record.size) = true ↔
          payloadLength d .records = h.recordCount * record.size := by
        rw [payloadSize_candidate, decide_eq_true_eq]
        exact_mod_cast Iff.rfl
      refine agree_bind (agree_text rfl) ?_
      refine agree_bind (agree_size rfl) ?_
      refine agree_bind (agree_text rfl) ?_
      refine agree_bind (agree_size rfl) ?_
      refine agree_bind (agree_size rfl) ?_
      refine agree_bind (agree_size rfl) ?_
      refine agree_bind (agree_size rfl) ?_
      refine agree_bind (agree_ensure hpos) ?_
      refine agree_bind (agree_forM (agree_file d h)) ?_
      refine agree_bind (agree_index d h .sec secIndex) ?_
      refine agree_bind (agree_index d h .opt optIndex) ?_
      refine agree_bind (agree_index d h .sym symIndex) ?_
      refine agree_bind (agree_ensure hrecords) ?_
      refine agree_bind (agree_text rfl) ?_
      refine agree_bind (agree_forM (agree_crc d h)) ?_
      exact .inl ⟨h, rfl, rfl⟩

end Candidate

theorem validateAny_candidate (version : String) (dir : Option VersionDir) :
    validateAny schemaId version (dir.map VersionDir.candidate) =
      (judge schemaId version dir).map VersionHeader.toJson := by
  cases dir with
  | none => rfl
  | some d =>
    rw [Option.map_some, validateAny, judge]
    by_cases h : isVersionName version = false ∨ d.building = true ∨ d.frozen = false
    · rw [if_pos h]
      exact if_pos h
    · rw [if_neg h]
      refine (if_neg h).trans ?_
      obtain ⟨hdr, hok, hok'⟩ | ⟨herror, herror'⟩ := Candidate.agree_validate schemaId d
      · rw [hok, hok']
        rfl
      · rw [herror, herror']
        rfl

end Built

section Activation

/-- Every complete run of a call alone ends as `post` says. -/
abbrev Finishes {α : Type} (post : Except StoreError α → Root → Prop) (p : S α) (r : Root) : Prop :=
  p.run.Alone Root.apply (fun _ _ => True) post r

variable {α β : Type} {post : Except StoreError β → Root → Prop} {r : Root}

theorem finishes_look {f : Root → S β} (h : Finishes post (f r) r) :
    Finishes post (Fs.look >>= f) r := h

theorem finishes_lift {x : Except StoreError α} {f : α → S β}
    (herror : ∀ e, x = .error e → post (.error e) r) (hok : ∀ a, x = .ok a → Finishes post (f a) r) :
    Finishes post (Fs.lift x >>= f) r := by
  cases x with
  | error e => exact herror e rfl
  | ok a => exact hok a rfl

theorem finishes_step {e : FsEffect} {f : Unit → S β} (herror : post (.error .osError) r)
    (hok : Finishes post (f ()) (r.apply e)) : Finishes post (Fs.step e >>= f) r := by
  rintro _ rfl done -
  cases done with
  | false => exact herror
  | true => exact ⟨trivial, hok⟩

theorem finishes_sync {f : Unit → S β} (herror : post (.error .osError) r)
    (hok : Finishes post (f ()) r) : Finishes post (Fs.sync >>= f) r := by
  rintro _ rfl done -
  cases done with
  | false => exact herror
  | true => exact hok

def Root.candidates (r : Root) : CandidateRoot where
  dirs := r.dirs.map fun p => (p.1, p.2.candidate)
  active := r.active
  tmp := r.tmp

variable (schemaId : String)

theorem get_candidates (r : Root) (v : String) :
    r.candidates.dirs.get v = (r.dirs.get v).map VersionDir.candidate :=
  Dict.get_map r.dirs (fun _ d => d.candidate) v

theorem activeVersion_candidates (r : Root) : r.candidates.activeVersion = r.activeVersion := by
  unfold CandidateRoot.activeVersion Root.activeVersion
  rw [show r.candidates.active = r.active from rfl]
  cases r.active with
  | none => rfl
  | some name =>
    simp only [get_candidates, Option.isNone_map]
    split_ifs <;> simp_all

theorem finishes_then {p : S α} {f : α → S β} {mid : Except StoreError α → Root → Prop}
    (hp : Finishes mid p r) (herror : ∀ e t, mid (.error e) t → post (.error e) t)
    (hok : ∀ a t, mid (.ok a) t → Finishes post (f a) t) : Finishes post (p >>= f) r := by
  refine (Proc.within_bind p.run _ r).mpr (hp.mono fun x t hx => ?_)
  cases x with
  | error e => exact herror e t hx
  | ok a => exact hok a t hx

theorem finishes_unlinkTmp :
    Finishes (fun x t => x = .ok () ∧ t = { r with tmp := none } ∨
      r.tmp.isSome ∧ x = .error .osError ∧ t = r) unlinkTmp r := by
  refine finishes_look ?_
  by_cases htmp : r.tmp.isSome
  · rw [if_pos htmp]
    rintro _ rfl done -
    cases done with
    | false => exact .inr ⟨htmp, rfl, rfl⟩
    | true => exact ⟨trivial, .inl ⟨rfl, rfl⟩⟩
  · rw [if_neg htmp]
    exact .inl ⟨rfl, by rw [← Option.not_isSome_iff_eq_none.mp htmp]⟩

theorem finishes_relink (r : Root) (v : String) :
    Finishes (fun x t => ∃ steps, r.candidates.relink v steps = (x, t.candidates)) (do
      unlinkTmp
      Fs.step (.symlink v)
      let r ← Fs.look
      Fs.ensure ((r.dirs.get "active").isNone) .osError
      Fs.step .replaceActive
      Fs.sync
      let r ← Fs.look
      Fs.lift r.activeVersion) r := by
  have hfree : (r.candidates.dirs.get "active").isSome = (r.dirs.get "active").isSome := by
    rw [get_candidates, Option.isSome_map]
  refine finishes_then finishes_unlinkTmp ?_ ?_
  · rintro e _ (⟨hx, -⟩ | ⟨htmp, hx, rfl⟩)
    · cases hx
    · cases hx
      exact ⟨{ unlink := false }, if_pos (by simpa [Root.candidates] using htmp)⟩
  rintro _ _ (⟨-, rfl⟩ | ⟨-, hx, -⟩)
  swap
  · cases hx
  refine finishes_step ⟨{ symlink := false }, ?_⟩ (finishes_look (finishes_lift ?_ fun _ hactive => ?_))
  · simp [CandidateRoot.relink, Root.candidates]
  · intro e he
    split_ifs at he with hactive
    rw [← Except.error.inj he]
    refine ⟨{}, ?_⟩
    simp_all [CandidateRoot.relink, Root.candidates, Root.apply]
  have hnone : (r.candidates.dirs.get "active").isSome = false := by
    split_ifs at hactive with hnone
    rw [hfree]
    simpa [Root.apply] using hnone
  refine finishes_step ⟨{ replace := false }, ?_⟩ (finishes_sync ⟨{ sync := false }, ?_⟩
    (show _ from ⟨{}, ?_⟩))
  · simp [CandidateRoot.relink, Root.candidates, Root.apply]
  · simp only [CandidateRoot.relink, Bool.not_true, Bool.and_false, Bool.false_or, hnone]
    rfl
  · rw [← activeVersion_candidates]
    simp only [CandidateRoot.relink, Bool.not_true, Bool.and_false, Bool.false_or, hnone]
    rfl

/-- Alone, with every step of the file system coming off or not, the call is the step on the
candidates. -/
theorem finishes_activate (r : Root) (v : String) :
    Finishes (fun x t => ∃ steps, r.candidates.activate schemaId v steps = (x, t.candidates))
      (activate schemaId v) r := by
  have hjudge : validateAny schemaId v (r.candidates.dirs.get v) =
      (judge schemaId v (r.dirs.get v)).map VersionHeader.toJson := by
    rw [get_candidates, validateAny_candidate]
  have hread : Finishes (fun x t => x = judge schemaId v (r.dirs.get v) ∧ t = r)
      (validateCandidate schemaId v) r := ⟨rfl, rfl⟩
  refine finishes_then hread ?_ ?_
  · rintro e _ ⟨herror, rfl⟩
    rw [← herror] at hjudge
    exact ⟨{}, CandidateRoot.activate_error schemaId hjudge⟩
  · rintro h _ ⟨hok, rfl⟩
    rw [← hok] at hjudge
    simp only [CandidateRoot.activate_ok schemaId hjudge]
    exact finishes_relink _ v

end Activation

end Trademetrix.Market

import Trademetrix.Market.InstrumentStore

/-!
# The active version

Only staging directories are written, renamed or removed while the link is not
looked at, and the link is moved to a directory that has just been validated. So
it names a sealed and valid version in every state, also where a call was cut.
-/

namespace Trademetrix.Market

open Async Proc

variable {schemaId : String} {r t : Root}

structure Servable (schemaId version : String) (r : Root) (d : VersionDir) : Prop where
  named : isVersionName version = true
  there : r.dirs.get version = some d
  built : d.building = false
  sealed : d.frozen = true
  valid : ∃ h, validate schemaId d = .ok h

def Root.Serves (r : Root) (schemaId version : String) : Prop := ∃ d, Servable schemaId version r d

def Root.ActiveSound (schemaId : String) (r : Root) : Prop :=
  ∀ v, r.active = some v → r.Serves schemaId v

def KeepsActive (r : Root) : FsEffect → Prop
  | .removed dir _ => r.active ≠ some dir
  | _ => True

def StoreGuarantee (schemaId : String) (r : Root) : FsEffect → Prop
  | .mkdir dir | .mark dir | .create dir _ | .append dir _ _ | .touchHeader dir
  | .writeHeader dir _ => isStagingName dir = true
  | .rename src dst => isStagingName src = true ∧ r.dirs.get dst = none
  | .unmark dir => ∃ d, r.dirs.get dir = some d ∧ d.building = true
  | .freeze _ | .unlinkTmp | .symlink _ => True
  | .replaceActive => ∃ v, r.tmp = some v ∧ r.Serves schemaId v
  | .removed dir _ => isStagingName dir = true ∨ ∃ v, r.active = some v ∧ v ≠ dir

theorem isStagingName_stagingName (version : String) : isStagingName (stagingName version) = true := by
  rw [isStagingName, Text.startsWith_iff, stagingName, String.toList_append]
  exact List.prefix_append _ _

theorem versionName_ne_staging {v dir : String} (hv : isVersionName v = true)
    (hdir : isStagingName dir = true) : v ≠ dir := by
  rintro rfl
  rw [isStagingName, Text.startsWith_iff] at hdir
  rw [isVersionName] at hv
  obtain ⟨rest, hrest⟩ := hdir
  rw [← hrest] at hv
  cases hv

theorem get_onDir (r : Root) (dir q : String) (f : VersionDir → VersionDir) :
    (r.onDir dir f).dirs.get q = if q = dir then (r.dirs.get dir).map f else r.dirs.get q :=
  Dict.get_modify r.dirs dir q f

theorem Root.Serves.of_get {v : String} (h : r.Serves schemaId v)
    (hget : t.dirs.get v = r.dirs.get v) : t.Serves schemaId v := by
  obtain ⟨d, hd⟩ := h
  exact ⟨d, { hd with there := hget.trans hd.there }⟩

theorem Root.Serves.of_onDir {v dir : String} {f : VersionDir → VersionDir}
    (h : r.Serves schemaId v) (hne : v ≠ dir) :
    (r.onDir dir f).Serves schemaId v :=
  h.of_get (by rw [get_onDir, if_neg hne])

theorem Root.Serves.step {v : String} {e : FsEffect} (h : r.Serves schemaId v)
    (hg : StoreGuarantee schemaId r e) (hactive : r.active = some v) :
    (r.apply e).Serves schemaId v := by
  obtain ⟨d, hd⟩ := id h
  have hstaging : ∀ {dir}, isStagingName dir = true → v ≠ dir :=
    versionName_ne_staging hd.named
  cases e with
  | mkdir dir => exact h.of_get (by simp [Root.apply, Dict.get_set, hstaging hg])
  | mark dir | create dir _ | append dir _ _ | touchHeader dir | writeHeader dir _ =>
    exact h.of_onDir (hstaging hg)
  | rename src dst =>
    obtain ⟨hsrc, hdst⟩ := hg
    have hne : v ≠ dst := by
      rintro rfl
      rw [hd.there] at hdst
      cases hdst
    refine h.of_get ?_
    simp only [Root.apply]
    split
    · rfl
    · rw [Dict.get_set, if_neg hne, Dict.get_pop, if_neg (hstaging hsrc)]
  | unmark dir =>
    obtain ⟨d', hd', hbuilding⟩ := hg
    refine h.of_onDir ?_
    rintro rfl
    rw [hd.there] at hd'
    cases hd'
    rw [hd.built] at hbuilding
    cases hbuilding
  | freeze dir =>
    by_cases hne : v = dir
    · subst hne
      -- the marker is written again over itself
      have hsame : { d with frozen := true } = d := by rw [← hd.sealed]
      refine ⟨d, { hd with there := ?_ }⟩
      rw [Root.apply, get_onDir, if_pos rfl, hd.there, Option.map_some, hsame]
    · exact h.of_onDir hne
  | unlinkTmp | symlink _ | replaceActive => exact h.of_get rfl
  | removed dir left =>
    have hne : v ≠ dir := by
      rcases hg with hg | ⟨u, hu, hne⟩
      · exact hstaging hg
      · rw [hactive] at hu
        cases hu
        exact hne
    cases left with
    | none => exact h.of_get (by rw [Root.apply, Dict.get_pop, if_neg hne])
    | some left => exact h.of_onDir hne

theorem activeSound_step {e : FsEffect} (h : r.ActiveSound schemaId)
    (hg : StoreGuarantee schemaId r e) : (r.apply e).ActiveSound schemaId := by
  intro v hv
  cases e with
  | replaceActive =>
    obtain ⟨u, hu, hserve⟩ := hg
    have hvu : u = v := Option.some.inj (hu ▸ hv)
    exact hvu ▸ hserve.of_get rfl
  | rename src dst =>
    have hv' : r.active = some v := by
      simp only [Root.apply] at hv
      split at hv <;> exact hv
    exact (h v hv').step hg hv'
  | removed dir left => cases left <;> exact (h v hv).step hg hv
  | _ => exact (h v hv).step hg hv

theorem keepsActive_of_guarantee {e : FsEffect} (h : r.ActiveSound schemaId)
    (hg : StoreGuarantee schemaId r e) : KeepsActive r e := by
  cases e with
  | removed dir left =>
    intro hdir
    rcases hg with hg | ⟨v, hv, hne⟩
    · obtain ⟨d, hd⟩ := h dir hdir
      exact versionName_ne_staging hd.named hg rfl
    · rw [hdir] at hv
      exact hne (Option.some.inj hv).symm
  | _ => trivial

section Texts

/-- A method from `r` carries out what `guar` allows and returns in `post`. -/
abbrev Store (guar : Root → FsEffect → Prop) {α : Type} (post : α → Root → Prop) (p : S α)
    (r : Root) : Prop :=
  Tries Root.apply guar post p r

variable {α : Type} {post : α → Root → Prop} {guar : Root → FsEffect → Prop}

def OnStaging : FsEffect → Prop
  | .mkdir dir | .mark dir | .create dir _ | .append dir _ _ | .touchHeader dir
  | .writeHeader dir _ => isStagingName dir = true
  | _ => False

structure AllowsBuilds (guar : Root → FsEffect → Prop) : Prop where
  draft {r : Root} {e : FsEffect} : OnStaging e → guar r e
  rename {r : Root} {staged version : String} :
    r.dirs.get version = none → guar r (.rename (stagingName staged) version)
  unmark {r : Root} {dir : String} :
    (∃ d, r.dirs.get dir = some d ∧ d.building = true) → guar r (.unmark dir)
  freeze {r : Root} {dir : String} : guar r (.freeze dir)

structure AllowsLink (guar : Root → FsEffect → Prop) (schemaId version : String) : Prop where
  unlink {r : Root} : guar r .unlinkTmp
  symlink {r : Root} : guar r (.symlink version)
  replace {r : Root} : r.tmp = some version → r.Serves schemaId version → guar r .replaceActive

theorem allowsLink_guarantee (version : String) :
    AllowsLink (StoreGuarantee schemaId) schemaId version where
  unlink := trivial
  symlink := trivial
  replace htmp hserves := ⟨version, htmp, hserves⟩

theorem allowsBuilds_guarantee : AllowsBuilds (StoreGuarantee schemaId) where
  draft {_ e} h := by cases e <;> first | exact h | exact h.elim
  rename h := ⟨isStagingName_stagingName _, h⟩
  unmark h := h
  freeze := trivial

theorem store_look {f : Root → S α} (h : Store guar post (f r) r) :
    Store guar post (Fs.look >>= f) r := by
  have hlook : Store guar (fun a t => a = r ∧ t = r) Fs.look r :=
    fun a ha => Except.ok.inj ha ▸ ⟨rfl, rfl⟩
  refine Tries.bind hlook fun a t hat => ?_
  obtain ⟨rfl, rfl⟩ := hat
  exact h

theorem store_step {e : FsEffect} (hg : guar r e) :
    Store guar (fun _ t => t = r.apply e) (Fs.step e) r := by
  refine Alone.of_wait fun done => ?_
  cases done with
  | false => exact nofun
  | true => exact Alone.of_emit hg fun _ _ => rfl

theorem store_sync : Store guar (fun _ t => t = r) Fs.sync r :=
  Alone.of_wait fun _ _ _ => rfl

theorem store_rmtree {dir : String} (hg : ∀ left, guar r (.removed dir left)) :
    Store guar (fun _ t => ∃ left, t = r.apply (.removed dir left)) (Fs.rmtree dir) r :=
  Alone.of_wait fun left => Alone.of_emit (hg left) fun _ _ => ⟨left, rfl⟩

theorem store_lift (x : Except StoreError α) :
    Store guar (fun a t => t = r ∧ x = .ok a) (Fs.lift x) r :=
  fun _ ha => ⟨rfl, ha⟩

theorem store_ensure (check : Prop) [Decidable check] (e : StoreError) :
    Store guar (fun _ t => t = r ∧ check) (Fs.ensure check e) r := by
  refine (store_lift _).mono fun _ t ht => ⟨ht.1, ?_⟩
  by_contra hno
  simp [hno] at ht

theorem store_check {check : Prop} [Decidable check] {e : StoreError} {p : S α}
    (h : check → Store guar post p r) :
    Store guar post (Fs.ensure check e >>= fun _ => p) r := by
  refine Tries.bind (store_ensure check e) fun _ t ht => ?_
  obtain ⟨rfl, hcheck⟩ := ht
  exact h hcheck

theorem store_then {e : FsEffect} {p : S α} (hg : guar r e)
    (h : Store guar post p (r.apply e)) :
    Store guar post (Fs.step e >>= fun _ => p) r :=
  Tries.bind (store_step hg) fun _ _ ht => ht ▸ h

theorem store_synced {p : S α} (h : Store guar post p r) :
    Store guar post (Fs.sync >>= fun _ => p) r :=
  Tries.bind store_sync fun _ _ ht => ht ▸ h

theorem stage_spec (hb : AllowsBuilds guar) (version : String) :
    Store guar (fun dir _ => isStagingName dir = true) (stage version) r := by
  have hname := isStagingName_stagingName version
  refine store_check fun _ => store_look (store_check fun _ => store_check fun _ => ?_)
  exact store_then (hb.draft hname) (store_then (hb.draft hname) (Tries.pure hname))

theorem syncFile_spec (dir : String) (p : Payload) :
    Store guar (fun _ t => t = r) (syncFile dir p) r :=
  store_look (store_check fun _ => store_sync)

theorem unmark_spec (hb : AllowsBuilds guar) (dir : String) :
    Store guar (fun _ _ => True) (unmark dir) r := by
  refine store_look ?_
  split
  · next hbuilding =>
    rw [Option.any_eq_true] at hbuilding
    exact (store_step (e := .unmark dir) (hb.unmark hbuilding)).mono fun _ _ _ => trivial
  · exact Tries.pure trivial

theorem seal_spec (hb : AllowsBuilds guar) (dir : String) :
    Store guar (fun _ _ => True) (seal_ dir) r := by
  refine Tries.bind (unmark_spec hb dir) fun _ t _ => ?_
  refine Tries.bind (Tries.forM (fun p _ u _ => (syncFile_spec dir p).mono fun _ _ _ => trivial)
    trivial) fun _ t _ => ?_
  refine Tries.bind (store_look (store_check fun _ => store_sync)) fun _ u _ => ?_
  exact store_then hb.freeze (store_sync.mono fun _ _ _ => trivial)

theorem publish_spec (hb : AllowsBuilds guar) (staged version : String) :
    Store guar (fun _ _ => True) (publish staged version) r := by
  refine store_look (store_check fun hnew => store_check fun _ => store_check fun _ => ?_)
  have hnone : r.dirs.get version = none := by
    simp only [Root.exists_, Bool.or_eq_false_iff, Option.isSome_eq_false_iff,
      Option.isNone_iff_eq_none] at hnew
    exact hnew.1
  refine store_then (hb.rename hnone) ?_
  exact store_sync.mono fun _ _ _ => trivial

theorem judge_servable {version : String} {h : VersionHeader}
    (hj : judge schemaId version (r.dirs.get version) = .ok h) : r.Serves schemaId version := by
  cases hd : r.dirs.get version with
  | none =>
    rw [hd] at hj
    cases hj
  | some d =>
    simp only [hd, judge] at hj
    split at hj
    · cases hj
    · next hmarks =>
      simp only [not_or, Bool.not_eq_false, Bool.not_eq_true] at hmarks
      obtain ⟨hnamed, hbuilt, hsealed⟩ := hmarks
      split at hj
      · next h' hvalid => exact ⟨d, hnamed, hd, hbuilt, hsealed, h', hvalid⟩
      · cases hj
      · cases hj

theorem validateCandidate_spec (version : String) :
    Store guar (fun _ t => t = r ∧ r.Serves schemaId version)
      (validateCandidate schemaId version) r :=
  store_look ((store_lift _).mono fun _ _ ht => ⟨ht.1, judge_servable ht.2⟩)

theorem unlinkTmp_spec (hg : guar r .unlinkTmp) :
    Store guar (fun _ t => t.dirs = r.dirs) unlinkTmp r := by
  refine store_look ?_
  split
  · exact (store_step hg).mono fun _ _ ht => ht ▸ rfl
  · exact Tries.pure rfl

theorem activate_spec {version : String} (hl : AllowsLink guar schemaId version) :
    Store guar (fun _ _ => True) (activate schemaId version) r := by
  refine Tries.bind (validateCandidate_spec version) fun _ t ht => ?_
  obtain ⟨rfl, hserves⟩ := ht
  refine Tries.bind (unlinkTmp_spec hl.unlink) fun _ u hu => ?_
  have hserves : (u.apply (.symlink version)).Serves schemaId version :=
    hserves.of_get (congrArg (Dict.get · version) hu)
  refine store_then hl.symlink (store_look (store_check fun _ => ?_))
  refine store_then (hl.replace rfl hserves) (store_synced (store_look ?_))
  exact (store_lift _).mono fun _ _ _ => trivial

theorem activeVersion_active {v : String} (h : r.activeVersion = .ok v) :
    r.active = some v ∧ isVersionName v = true := by
  unfold Root.activeVersion at h
  split at h
  · cases h
  · next name hname =>
    split_ifs at h with hversion
    cases h
    exact ⟨hname, by simpa using hversion⟩

theorem removed_active (dir : String) (left : Option (List FileName)) :
    (r.apply (.removed dir left)).active = r.active := by
  cases left <;> rfl

theorem rmtrees_spec {v : String} {dirs : List String} (hv : r.active = some v)
    (hne : ∀ dir ∈ dirs, v ≠ dir) :
    Store (StoreGuarantee schemaId) (fun _ t => t.active = some v) (dirs.forM Fs.rmtree) r := by
  refine Tries.forM (fun dir hdir t ht => ?_) hv
  refine (store_rmtree fun _ => .inr ⟨v, ht, hne dir hdir⟩).mono ?_
  rintro _ _ ⟨left, rfl⟩
  rw [removed_active, ht]

theorem retired_spec (keep : ℤ) :
    Store (StoreGuarantee schemaId) (fun _ _ => True) (retired keep) r := by
  refine store_look (Tries.bind (store_lift _) fun v t ht => ?_)
  obtain ⟨rfl, hactive⟩ := ht
  obtain ⟨hlink, hnamed⟩ := activeVersion_active hactive
  refine Tries.bind (rmtrees_spec hlink fun dir hdir => ?_) fun _ u hu => ?_
  · have hother := List.mem_reverse.mp (List.mem_of_mem_drop hdir)
    rw [List.mem_insertionSort, List.mem_filter] at hother
    intro he
    exact absurd hother.2 (by simp [he])
  · refine store_look (Tries.bind (rmtrees_spec hu fun dir hdir => ?_) fun _ _ _ => ?_)
    · exact versionName_ne_staging hnamed (List.mem_filter.mp hdir).2
    · exact Tries.pure trivial

theorem writeContracts_spec (hb : AllowsBuilds guar) {dir : String} (hdir : isStagingName dir = true) (slot : ℕ)
    (cs : List DhanContract) (e : Encoding) :
    Store guar (fun _ _ => True) (writeContracts dir slot cs e) r := by
  induction cs generalizing slot e r with
  | nil => exact Tries.pure trivial
  | cons c cs ih =>
    rw [writeContracts]
    generalize e.add slot c = added
    refine store_then (hb.draft hdir) (Tries.bind (store_lift _) fun added t _ => ?_)
    exact store_then (hb.draft hdir) (ih (slot + 1) added.2)

theorem writeIndex_spec (hb : AllowsBuilds guar) {dir : String} (hdir : isStagingName dir = true)
    (p : Payload) (bytes : List UInt8) :
    Store guar (fun _ _ => True) (writeIndex dir p bytes) r :=
  store_then (hb.draft hdir)
    ((store_step (e := .append dir p _) (hb.draft hdir)).mono fun _ _ _ => trivial)

theorem measure_spec (dir : String) (p : Payload) :
    Store guar (fun _ _ => True) (measure dir p) r := by
  refine Tries.bind (syncFile_spec dir p) fun _ t _ => store_look ?_
  exact Tries.bind (store_lift _) fun _ _ _ => Tries.pure trivial

theorem encodeVersion_spec (hb : AllowsBuilds guar) (version : String)
    (contracts : List DhanContract) (source : Source) :
    Store guar (fun _ _ => True) (encodeVersion schemaId version contracts source) r := by
  refine Tries.bind (stage_spec hb version) fun dir t hdir => ?_
  iterate 4 refine store_then (hb.draft hdir) ?_
  refine Tries.bind (writeContracts_spec hb hdir 0 contracts {}) fun e u _ => ?_
  refine Tries.bind (writeIndex_spec hb hdir .sec e.sec) fun _ _ _ => ?_
  refine Tries.bind (writeIndex_spec hb hdir .opt e.opt) fun _ _ _ => ?_
  refine Tries.bind (writeIndex_spec hb hdir .sym e.sym) fun _ _ _ => ?_
  refine Tries.bind (measure_spec dir .records) fun _ _ _ => ?_
  refine Tries.bind (measure_spec dir .strings) fun _ _ _ => ?_
  refine Tries.bind (measure_spec dir .sec) fun _ _ _ => ?_
  refine Tries.bind (measure_spec dir .opt) fun _ _ _ => ?_
  refine Tries.bind (measure_spec dir .sym) fun _ _ _ => ?_
  iterate 2 refine store_then (hb.draft hdir) ?_
  refine Tries.bind (publish_spec hb version version) fun _ _ _ => ?_
  exact Tries.bind (seal_spec hb version) fun _ _ _ => Tries.pure trivial

theorem code_granted (c : StoreCall) (r : Root) :
    (c.code schemaId).Alone Root.apply (StoreGuarantee schemaId) (fun _ _ => True) r := by
  have hb : AllowsBuilds (StoreGuarantee schemaId) := allowsBuilds_guarantee
  cases c with
  | stage version => exact Alone.discard (stage_spec hb version)
  | encodeVersion version contracts source =>
    exact Alone.discard (encodeVersion_spec hb version contracts source)
  | publish staged version => exact Alone.discard (publish_spec hb staged version)
  | seal_ dir => exact Alone.discard (seal_spec hb dir)
  | activate version => exact Alone.discard (activate_spec (allowsLink_guarantee version))
  | retired keep => exact Alone.discard (retired_spec keep)

end Texts

/-- Whatever calls are made on a store and wherever each of them is cut, the active link
names, in every state on the way, a sealed directory that validates, and no removal is of
the directory it names. -/
theorem activeLink_sound {es : List FsEffect} (h : r.ActiveSound schemaId)
    (hrun : Lives Root.apply (StoreCall.code schemaId) r es t) :
    Always Root.apply (Root.ActiveSound schemaId) r es ∧ Legal Root.apply KeepsActive r es := by
  obtain ⟨hlegal, -⟩ := hrun.legal code_granted
  have hstep : ∀ s e, s.ActiveSound schemaId → StoreGuarantee schemaId s e →
      (Root.apply e s).ActiveSound schemaId := fun _ _ hs hg => activeSound_step hs hg
  refine ⟨hlegal.always hstep h, ?_⟩
  exact (hlegal.with_invariant hstep h).mono fun _ _ hr => keepsActive_of_guarantee hr.1 hr.2

set_option maxRecDepth 100000 in
/-- A version is encoded in an empty root and activated. -/
theorem activeLink_sound_activated :
    ∃ es t, Lives Root.apply (StoreCall.code "schema") {} es t ∧ t.active = some "v1" ∧
      Always Root.apply (Root.ActiveSound "schema") {} es ∧ Legal Root.apply KeepsActive {} es := by
  have hlives : ∃ es, Lives Root.apply (StoreCall.code "schema") {} es _ :=
    lives_finishAll (StoreCall.code "schema") undisturbed {}
      [.encodeVersion "v1" [niftyCall] ⟨"master", 0⟩, .activate "v1"]
  obtain ⟨es, hrun⟩ := hlives
  exact ⟨es, _, hrun, by decide +kernel, activeLink_sound nofun hrun⟩

end Trademetrix.Market

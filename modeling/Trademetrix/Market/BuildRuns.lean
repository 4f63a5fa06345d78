import Trademetrix.Market.ActiveVersion
import Trademetrix.Market.DhanRefresh
import Trademetrix.Market.VersionLookups

/-!
# What the writer's calls come to

`encode_version`, `activate`, `open_active` and `_encode_as_mmap` evaluated on a
root, with the effects that a build may have carried out when it is cut.
-/

namespace Trademetrix.Market

open Async Proc

variable {schemaId v : String} {r s t : Root}

/-- The effects of building version `v`: its staging directory is written while the version is
not there, and the version is unmarked and sealed while it is not sealed. -/
def BuildStep (finished : VersionDir) (v : String) (r : Root) : FsEffect → Prop
  | .mkdir dir => dir = stagingName v ∧ r.dirs.get v = none
  | .mark dir | .create dir _ | .append dir _ _ | .touchHeader dir | .writeHeader dir _ =>
    dir = stagingName v ∧ (r.dirs.get dir).isSome ∧ r.dirs.get v = none
  | .rename src dst => src = stagingName v ∧ dst = v ∧ r.dirs.get v = none ∧
      ∃ d, r.dirs.get src = some d ∧ d.frozen = false
  | .unmark dir => dir = v ∧ ∃ d, r.dirs.get v = some d ∧ d.frozen = false
  | .freeze dir => dir = v ∧ r.dirs.get v = some finished ∧ finished.frozen = false
  | _ => False

namespace Root

def withDir (r : Root) (name : String) (d : VersionDir) : Root :=
  { r with dirs := r.dirs.set name d }

@[simp] theorem get_withDir (name q : String) (d : VersionDir) :
    (r.withDir name d).dirs.get q = if q = name then some d else r.dirs.get q :=
  Dict.get_set r.dirs name q d

theorem onDir_withDir (name : String) (d : VersionDir) (f : VersionDir → VersionDir) :
    (r.withDir name d).onDir name f = r.withDir name (f d) := by
  have hget : (r.dirs.set name d).get name = some d := by
    rw [Dict.get_set, if_pos rfl]
  simp only [onDir, withDir, Dict.modify, hget, Dict.set_set]

theorem rename_withDir {src dst : String} (d : VersionDir) (h : r.dirs.get src = none) :
    (r.withDir src d).apply (.rename src dst) = r.withDir dst d := by
  have hget : (r.dirs.set src d).get src = some d := by
    rw [Dict.get_set, if_pos rfl]
  simp only [apply, withDir, hget, Dict.pop_set_of_none h]

end Root

section Rules

variable {α β : Type} {guar : Root → FsEffect → Prop}

/-- A call on a root comes to this end when nothing in the file system fails. -/
abbrev Comes (guar : Root → FsEffect → Prop) (p : S α) (r : Root) (x : Except StoreError α)
    (t : Root) : Prop :=
  Does Root.apply undisturbed guar p r x t

variable {x : Except StoreError β} {p : S β}

theorem comes_look {f : Root → S β} (h : Comes guar (f r) r x t) :
    Comes guar (Fs.look >>= f) r x t := by
  refine Does.bind (a := r) ⟨?_, rfl⟩ h
  exact fun a ha => ⟨congrArg _ (Except.ok.inj ha), rfl⟩

theorem comes_stepped {e : FsEffect} (hg : guar r e) :
    Comes guar (Fs.step e) r (.ok ()) (r.apply e) := by
  refine ⟨Alone.of_wait fun done => ?_, rfl⟩
  cases done with
  | false => exact nofun
  | true => exact Alone.of_emit hg fun _ _ => ⟨rfl, rfl⟩

theorem comes_step {e : FsEffect} (hg : guar r e) (h : Comes guar p (r.apply e) x t) :
    Comes guar (Fs.step e >>= fun _ => p) r x t :=
  Does.bind (comes_stepped hg) h

theorem comes_synced : Comes guar Fs.sync r (.ok ()) r :=
  ⟨Alone.of_wait fun _ _ _ => ⟨rfl, rfl⟩, rfl⟩

theorem comes_sync (h : Comes guar p r x t) : Comes guar (Fs.sync >>= fun _ => p) r x t :=
  Does.bind comes_synced h

theorem comes_lift (y : Except StoreError α) : Comes guar (Fs.lift y) r y r :=
  ⟨fun _ ha => ⟨ha, rfl⟩, rfl⟩

theorem comes_ok {y : Except StoreError α} {a : α} {f : α → S β} (hy : y = .ok a)
    (h : Comes guar (f a) r x t) : Comes guar (Fs.lift y >>= f) r x t := by
  subst hy
  exact Does.bind (comes_lift _) h

theorem comes_error {y : Except StoreError α} {e : StoreError} {f : α → S β} (hy : y = .error e) :
    Comes guar (Fs.lift y >>= f) r (.error e) r := by
  subst hy
  exact Does.raises (comes_lift _)

theorem comes_check {check : Prop} [Decidable check] {e : StoreError} (hc : check)
    (h : Comes guar p r x t) : Comes guar (Fs.ensure check e >>= fun _ => p) r x t :=
  comes_ok (if_pos hc) h

theorem comes_refused {check : Prop} [Decidable check] {e : StoreError} (hc : ¬check) :
    Comes guar (Fs.ensure check e >>= fun _ => p) r (.error e) r :=
  comes_error (if_neg hc)

end Rules

namespace VersionDir

variable {d : VersionDir} {p q : Payload} {bs cs : List UInt8}

def put (d : VersionDir) (p : Payload) (bs : List UInt8) : VersionDir :=
  { d with payload := Function.update d.payload p (some bs) }

@[simp] theorem payload_put : (d.put p bs).payload q = if q = p then some bs else d.payload q := by
  by_cases hq : q = p
  · subst hq
    simp [put]
  · simp [put, hq]

theorem put_put : (d.put p bs).put p cs = d.put p cs := by
  simp only [put, Function.update_idem]

theorem put_comm (h : p ≠ q) : (d.put p bs).put q cs = (d.put q cs).put p bs := by
  simp only [put, Function.update_comm h]

theorem put_over {ds : List UInt8} (h : p ≠ q) :
    ((d.put p bs).put q cs).put p ds = (d.put p ds).put q cs := by
  rw [put_comm h, put_put, put_comm h.symm]

theorem put_self (h : d.payload p = some bs) : d.put p bs = d := by
  rw [put, ← h, Function.update_eq_self]

theorem append_eq_put (h : d.payload p = some bs) : d.append p cs = d.put p (bs ++ cs) := by
  simp only [append, put, h, Option.map_some]

theorem append_create : (d.create p).append p bs = d.put p bs := by
  simp [append, create, put]

end VersionDir

structure Free (v : String) (r : Root) : Prop where
  named : isVersionName v = true
  absent : r.dirs.get v = none

section Writing

variable {finished d : VersionDir} {α : Type} {x : Except StoreError α} {p : S α}

theorem Free.ne_staging (h : Free v r) : v ≠ stagingName v :=
  versionName_ne_staging h.named (isStagingName_stagingName v)

theorem Free.withDir (h : Free v r) (d : VersionDir) : Free v (r.withDir (stagingName v) d) :=
  ⟨h.named, by rw [Root.get_withDir, if_neg h.ne_staging, h.absent]⟩

theorem comes_draft {e : FsEffect} {f : VersionDir → VersionDir} (hfree : Free v r)
    (he : ∀ s : Root, s.apply e = s.onDir (stagingName v) f)
    (hg : ∀ s : Root, (s.dirs.get (stagingName v)).isSome → s.dirs.get v = none →
      BuildStep finished v s e)
    (h : Comes (BuildStep finished v) p (r.withDir (stagingName v) (f d)) x t) :
    Comes (BuildStep finished v) (Fs.step e >>= fun _ => p) (r.withDir (stagingName v) d) x t := by
  refine comes_step (hg _ ?_ (hfree.withDir d).absent) ?_
  · rw [Root.get_withDir, if_pos rfl]
    rfl
  · rw [he, Root.onDir_withDir]
    exact h

def symbols (cs : List DhanContract) : List UInt8 := (cs.map fun c => utf8 c.tradingSymbol).flatten

theorem comes_writeContracts (hfree : Free v r) {slot : ℕ} {cs : List DhanContract}
    {e e' : Encoding} {bytes recs strs : List UInt8} (hrecs : d.payload .records = some recs)
    (hstrs : d.payload .strings = some strs) (h : encodeFrom slot cs e = .ok (bytes, e')) :
    Comes (BuildStep finished v) (writeContracts (stagingName v) slot cs e)
      (r.withDir (stagingName v) d) (.ok e')
      (r.withDir (stagingName v)
        ((d.put .strings (strs ++ symbols cs)).put .records (recs ++ bytes))) := by
  induction cs generalizing slot e d bytes recs strs with
  | nil =>
    cases h
    simp only [symbols, List.map_nil, List.flatten_nil, List.append_nil]
    rw [VersionDir.put_self hstrs, VersionDir.put_self hrecs]
    exact Does.pure e'
  | cons c cs ih =>
    simp only [encodeFrom, bind_eq_ok, pure, Except.pure, Except.ok.injEq, Prod.mk.injEq,
      Prod.exists] at h
    obtain ⟨first, e₁, hadd, rest, e₂, hrest, rfl, rfl⟩ := h
    refine comes_draft hfree (fun _ => rfl) (fun _ h h' => ⟨rfl, h, h'⟩) ?_
    refine comes_ok hadd ?_
    refine comes_draft hfree (fun _ => rfl) (fun _ h h' => ⟨rfl, h, h'⟩) ?_
    rw [VersionDir.append_eq_put hstrs]
    have hrecs' : (d.put .strings (strs ++ utf8 c.tradingSymbol)).payload .records = some recs := by
      simp [hrecs]
    rw [VersionDir.append_eq_put hrecs']
    have hstrs' : ((d.put .strings (strs ++ utf8 c.tradingSymbol)).put .records
        (recs ++ first)).payload .strings = some (strs ++ utf8 c.tradingSymbol) := by
      simp
    have hgo := ih VersionDir.payload_put hstrs' hrest
    rw [VersionDir.put_over (by decide), VersionDir.put_over (by decide)] at hgo
    simpa [symbols, List.append_assoc] using hgo

theorem comes_writeContracts_error (hfree : Free v r) {slot : ℕ} {cs : List DhanContract}
    {e : Encoding} {err : StoreError} (h : encodeFrom slot cs e = .error err) :
    ∃ d', Comes (BuildStep finished v) (writeContracts (stagingName v) slot cs e)
      (r.withDir (stagingName v) d) (.error err) (r.withDir (stagingName v) d') := by
  induction cs generalizing slot e d with
  | nil => cases h
  | cons c cs ih =>
    cases hadd : e.add slot c with
    | error err' =>
      have herr : err' = err := by
        rw [encodeFrom, hadd] at h
        exact Except.error.inj h
      refine ⟨d.append .strings (utf8 c.tradingSymbol),
        comes_draft hfree (fun _ => rfl) (fun _ h h' => ⟨rfl, h, h'⟩) ?_⟩
      exact comes_error (herr ▸ hadd)
    | ok added =>
      have hrest : encodeFrom (slot + 1) cs added.2 = .error err := by
        rw [encodeFrom, hadd] at h
        cases hgo : encodeFrom (slot + 1) cs added.2 with
        | ok out =>
          simp only [ok_bind, hgo] at h
          cases h
        | error err' =>
          simp only [ok_bind, hgo, error_bind] at h
          exact congrArg _ (Except.error.inj h)
      obtain ⟨d', hd'⟩ := ih (d := (d.append .strings (utf8 c.tradingSymbol)).append .records added.1)
        hrest
      refine ⟨d', comes_draft hfree (fun _ => rfl) (fun _ h h' => ⟨rfl, h, h'⟩) ?_⟩
      refine comes_ok hadd ?_
      exact comes_draft hfree (fun _ => rfl) (fun _ h h' => ⟨rfl, h, h'⟩) hd'

theorem comes_writeIndex (hfree : Free v r) (q : Payload) (bytes : List UInt8) :
    Comes (BuildStep finished v) (writeIndex (stagingName v) q bytes) (r.withDir (stagingName v) d)
      (.ok ()) (r.withDir (stagingName v) (d.put q (magic ++ bytes))) := by
  refine comes_draft hfree (fun _ => rfl) (fun _ h h' => ⟨rfl, h, h'⟩) ?_
  have hthere : ((r.withDir (stagingName v) (d.create q)).dirs.get (stagingName v)).isSome := by
    simp
  have hlast : Comes (BuildStep finished v) (Fs.step (.append (stagingName v) q (magic ++ bytes)))
      (r.withDir (stagingName v) (d.create q)) (.ok ()) _ :=
    comes_stepped ⟨rfl, hthere, (hfree.withDir _).absent⟩
  rw [Root.apply, Root.onDir_withDir, VersionDir.append_create] at hlast
  exact hlast

theorem comes_measure {name : String} {q : Payload} (bytes : List UInt8)
    {guar : Root → FsEffect → Prop} (hget : r.dirs.get name = some d)
    (hfile : d.payload q = some (magic ++ bytes)) :
    Comes guar (measure name q) r (.ok ((magic ++ bytes).length, crc32 bytes)) r := by
  have hthere : ((r.dirs.get name).any fun d => (d.payload q).isSome) = true := by
    simp [hget, hfile]
  have hbytes : ((r.dirs.get name).bind fun d => d.payload q).getD [] = magic ++ bytes := by
    simp [hget, hfile]
  have hcrc : crcOfPayload (((r.dirs.get name).bind fun d => d.payload q).getD []) =
      .ok (crc32 bytes) := by
    rw [hbytes, crcOfPayload, List.take_left, List.drop_left, if_pos rfl]
  refine Does.bind (comes_look (comes_check hthere comes_synced)) (comes_look ?_)
  refine comes_ok hcrc ?_
  rw [hbytes]
  exact Does.pure _

end Writing

section Encoding

variable {recs : List UInt8} {e : Encoding} {n : ℕ} {source : Source} {cs : List DhanContract}
  {d finished : VersionDir}

abbrev laidDir (schemaId : String) (recs : List UInt8) (e : Encoding) (cs : List DhanContract)
    (source : Source) (building frozen : Bool) : VersionDir :=
  builtDir schemaId recs (symbols cs) e cs.length source building frozen

theorem exists_of_get {name : String} (hactive : name ≠ "active") :
    r.exists_ name = (r.dirs.get name).isSome := by
  simp [Root.exists_, hactive]

theorem versionName_ne_active (h : isVersionName v = true) : v ≠ "active" := by
  rintro rfl
  revert h
  decide

theorem stagingName_ne_active : stagingName v ≠ "active" := by
  intro h
  have hstart := congrArg String.toList h
  rw [stagingName, String.toList_append] at hstart
  cases hstart

theorem comes_stage (hfree : Free v r) (hst : r.dirs.get (stagingName v) = none) :
    Comes (BuildStep finished v) (stage v) r (.ok (stagingName v))
      (r.withDir (stagingName v) { building := true }) := by
  have hnew : r.exists_ v = false := by
    rw [exists_of_get (versionName_ne_active hfree.named), hfree.absent]
    rfl
  have hclear : r.exists_ (stagingName v) = false := by
    rw [exists_of_get stagingName_ne_active, hst]
    rfl
  refine comes_check hfree.named (comes_look (comes_check hnew (comes_check hclear ?_)))
  refine Does.bind (comes_stepped ⟨rfl, hfree.absent⟩) ?_
  exact comes_draft hfree (fun _ => rfl) (fun _ h h' => ⟨rfl, h, h'⟩) (Does.pure _)

theorem comes_stage_refused (guar : Root → FsEffect → Prop) (hfree : Free v r)
    (hst : (r.dirs.get (stagingName v)).isSome) :
    Comes guar (stage v) r (.error .activationRejected) r := by
  have hnew : r.exists_ v = false := by
    rw [exists_of_get (versionName_ne_active hfree.named), hfree.absent]
    rfl
  refine comes_check hfree.named (comes_look (comes_check hnew (comes_refused ?_)))
  rw [exists_of_get stagingName_ne_active, hst]
  decide

theorem comes_publish (hfree : Free v r) (hd : d.frozen = false) :
    Comes (BuildStep finished v) (publish v v) (r.withDir (stagingName v) d) (.ok ())
      ((r.withDir (stagingName v) d).apply (.rename (stagingName v) v)) := by
  have hfree' := hfree.withDir d
  have hnew : (r.withDir (stagingName v) d).exists_ v = false := by
    rw [exists_of_get (versionName_ne_active hfree.named), hfree'.absent]
    rfl
  have hget : (r.withDir (stagingName v) d).dirs.get (stagingName v) = some d := by
    rw [Root.get_withDir, if_pos rfl]
  refine comes_look (comes_check hnew (comes_check ?_ (comes_check ?_ ?_)))
  · rw [hget]
    rfl
  · exact .inl (versionName_ne_active hfree.named)
  · refine Does.bind (comes_stepped ⟨rfl, rfl, hfree'.absent, d, hget, hd⟩) comes_synced

theorem comes_syncFile {name : String} {p : Payload} {guar : Root → FsEffect → Prop}
    (hget : r.dirs.get name = some d) (hfile : (d.payload p).isSome) :
    Comes guar (syncFile name p) r (.ok ()) r :=
  comes_look (comes_check (by rw [hget]; exact hfile) comes_synced)

theorem comes_syncFiles {name : String} {guar : Root → FsEffect → Prop}
    (hget : r.dirs.get name = some d) (hfiles : ∀ p, (d.payload p).isSome) (ps : List Payload) :
    Comes guar (ps.forM (syncFile name)) r (.ok ()) r := by
  induction ps with
  | nil => exact Does.pure ()
  | cons p ps ih => exact Does.bind (comes_syncFile hget (hfiles p)) ih

theorem comes_seal :
    Comes (BuildStep (laidDir schemaId recs e cs source false false) v) (seal_ v)
      (r.withDir v (laidDir schemaId recs e cs source true false)) (.ok ())
      (r.withDir v (laidDir schemaId recs e cs source false true)) := by
  have hmarked : (r.withDir v (laidDir schemaId recs e cs source true false)).dirs.get v =
      some (laidDir schemaId recs e cs source true false) := by
    rw [Root.get_withDir, if_pos rfl]
  have hclean : (r.withDir v (laidDir schemaId recs e cs source false false)).dirs.get v =
      some (laidDir schemaId recs e cs source false false) := by
    rw [Root.get_withDir, if_pos rfl]
  have hunmark : Comes (BuildStep (laidDir schemaId recs e cs source false false) v) (unmark v)
      (r.withDir v (laidDir schemaId recs e cs source true false)) (.ok ())
      (r.withDir v (laidDir schemaId recs e cs source false false)) := by
    refine comes_look ?_
    rw [hmarked]
    have hstep : Comes (BuildStep (laidDir schemaId recs e cs source false false) v)
        (Fs.step (.unmark v)) (r.withDir v (laidDir schemaId recs e cs source true false)) (.ok ()) _ :=
      comes_stepped ⟨rfl, _, hmarked, rfl⟩
    rw [Root.apply, Root.onDir_withDir] at hstep
    exact hstep
  refine Does.bind hunmark (Does.bind (comes_syncFiles hclean (fun _ => rfl) _) ?_)
  refine Does.bind (comes_look (comes_check (by rw [hclean]; rfl) comes_synced)) ?_
  have hfreeze : Comes (BuildStep (laidDir schemaId recs e cs source false false) v)
      (Fs.step (.freeze v)) (r.withDir v (laidDir schemaId recs e cs source false false)) (.ok ()) _ :=
    comes_stepped ⟨rfl, hclean, rfl⟩
  rw [Root.apply, Root.onDir_withDir] at hfreeze
  exact Does.bind hfreeze comes_synced

theorem eq_laidDir (hbuilding : d.building = true) (hfrozen : d.frozen = false)
    (hpayload : ∀ p, d.payload p = some (fileOf recs (symbols cs) e p))
    (hheader : d.header =
      some (.json (builtHeader schemaId recs (symbols cs) e cs.length source))) :
    d = laidDir schemaId recs e cs source true false := by
  cases d with
  | mk building frozen payload header =>
    cases hbuilding
    cases hfrozen
    cases hheader
    cases (funext hpayload : payload = _)
    rfl

theorem comes_of_dir {α : Type} {guar : Root → FsEffect → Prop} {p : S α} {x : Except StoreError α}
    {name : String} {d' : VersionDir} (hd : d = d') (h : Comes guar p (r.withDir name d') x t) :
    Comes guar p (r.withDir name d) x t :=
  hd ▸ h

theorem comes_encodeVersion (schemaId : String) (source : Source) (hfree : Free v r) (hst : r.dirs.get (stagingName v) = none)
    (henc : encodeFrom 0 cs {} = .ok (recs, e)) :
    Comes (BuildStep (laidDir schemaId recs e cs source false false) v)
      (encodeVersion schemaId v cs source) r (.ok v)
      (r.withDir v (laidDir schemaId recs e cs source false true)) := by
  refine Does.bind (comes_stage hfree hst) ?_
  iterate 4 refine comes_draft hfree (fun _ => rfl) (fun _ h h' => ⟨rfl, h, h'⟩) ?_
  refine Does.bind (comes_writeContracts hfree rfl rfl henc) ?_
  refine Does.bind (comes_writeIndex hfree .sec e.sec) ?_
  refine Does.bind (comes_writeIndex hfree .opt e.opt) ?_
  refine Does.bind (comes_writeIndex hfree .sym e.sym) ?_
  have hget : ∀ d, (r.withDir (stagingName v) d).dirs.get (stagingName v) = some d := by
    intro d
    rw [Root.get_withDir, if_pos rfl]
  refine Does.bind (comes_measure recs (hget _) (by simp)) ?_
  refine Does.bind (comes_measure (symbols cs) (hget _) (by simp)) ?_
  refine Does.bind (comes_measure e.sec (hget _) (by simp)) ?_
  refine Does.bind (comes_measure e.opt (hget _) (by simp)) ?_
  refine Does.bind (comes_measure e.sym (hget _) (by simp)) ?_
  iterate 2 refine comes_draft hfree (fun _ => rfl) (fun _ h h' => ⟨rfl, h, h'⟩) ?_
  refine comes_of_dir (?_ : _ = laidDir schemaId recs e cs source true false) ?_
  · refine eq_laidDir rfl rfl (fun p => ?_) ?_
    · cases p <;> simp [fileOf, written, VersionDir.create, VersionDir.append, VersionDir.put]
    · simp only [builtHeader, Option.some.injEq, HeaderFile.json.injEq]
      congr 1 <;> (funext p; cases p <;> rfl)
  · refine Does.bind (comes_publish hfree rfl) ?_
    rw [Root.rename_withDir _ hst]
    exact Does.bind comes_seal (Does.pure v)

theorem comes_encodeVersion_error (schemaId : String) (finished : VersionDir) (source : Source)
    (hfree : Free v r) (hst : r.dirs.get (stagingName v) = none)
    {err : StoreError} (henc : encodeFrom 0 cs {} = .error err) :
    ∃ d, Comes (BuildStep finished v) (encodeVersion schemaId v cs source) r (.error err)
      (r.withDir (stagingName v) d) := by
  let begun : VersionDir := ((({ building := true } : VersionDir).create .records).create
    .strings |>.append .records magic).append .strings magic
  have hdir : ∃ d, Comes (BuildStep finished v) (writeContracts (stagingName v) 0 cs {})
      (r.withDir (stagingName v) begun) (.error err) (r.withDir (stagingName v) d) :=
    comes_writeContracts_error hfree henc
  obtain ⟨d, hd⟩ := hdir
  refine ⟨d, Does.bind (comes_stage hfree hst) ?_⟩
  iterate 4 refine comes_draft hfree (fun _ => rfl) (fun _ h h' => ⟨rfl, h, h'⟩) ?_
  exact Does.raises hd

end Encoding

section Serving

variable {recs : List UInt8} {e : Encoding} {source : Source} {cs : List DhanContract}
  {d : VersionDir} {h : VersionHeader}

abbrev Ends {α : Type} (p : S α) (r : Root) (x : Except StoreError α) (t : Root) : Prop :=
  Comes (fun _ _ => True) p r x t

theorem Comes.relaxed {α : Type} {guar : Root → FsEffect → Prop} {p : S α}
    {x : Except StoreError α} (hp : Comes guar p r x t) : Ends p r x t :=
  Does.relax hp fun _ _ _ => trivial

theorem ends_validateCandidate (hj : judge schemaId v (r.dirs.get v) = .ok h) :
    Ends (validateCandidate schemaId v) r (.ok h) r := by
  refine comes_look ?_
  rw [hj]
  exact comes_lift _

theorem ends_activate_refused {err : StoreError}
    (hj : judge schemaId v (r.dirs.get v) = .error err) :
    Ends (activate schemaId v) r (.error err) r := by
  refine Does.raises (comes_look ?_)
  rw [hj]
  exact comes_lift _

theorem ends_unlinkTmp : Ends unlinkTmp r (.ok ()) { r with tmp := none } := by
  refine comes_look ?_
  split
  · exact comes_stepped trivial
  · next hnone =>
    have hsame : { r with tmp := none } = r := by
      cases htmp : r.tmp with
      | none => rw [← htmp]
      | some _ => simp [htmp] at hnone
    rw [hsame]
    exact Does.pure ()

theorem ends_activate (hj : judge schemaId v (r.dirs.get v) = .ok h)
    (hactive : r.dirs.get "active" = none) :
    Ends (activate schemaId v) r (.ok v) { r with active := some v, tmp := none } := by
  obtain ⟨d, hd⟩ := judge_servable hj
  refine Does.bind (ends_validateCandidate hj) (Does.bind ends_unlinkTmp ?_)
  refine Does.bind (comes_stepped trivial) (comes_look (comes_check ?_ ?_))
  · simp [Root.apply, hactive]
  refine Does.bind (comes_stepped trivial) (comes_sync (comes_look ?_))
  have hv : ({ r with active := some v, tmp := none } : Root).activeVersion = .ok v := by
    simp [Root.activeVersion, hd.named, hd.there]
  change Ends (Fs.lift ({ r with active := some v, tmp := none } : Root).activeVersion) _ _ _
  rw [hv]
  exact comes_lift _

theorem ends_activate_blocked (hj : judge schemaId v (r.dirs.get v) = .ok h)
    (hactive : (r.dirs.get "active").isSome) :
    Ends (activate schemaId v) r (.error .osError) { r with tmp := some v } := by
  refine Does.bind (ends_validateCandidate hj) (Does.bind ends_unlinkTmp ?_)
  refine Does.bind (comes_stepped trivial) (comes_look (comes_refused ?_))
  simpa [Root.apply, Option.isSome_iff_ne_none] using hactive

theorem ends_openActive {d : VersionDir} {m : MmapStore} (hv : isVersionName v = true)
    (hlink : r.active = some v) (hget : r.dirs.get v = some d)
    (hvalid : validate schemaId d = .ok h) (hopen : MmapStore.open_ d h = .ok m) :
    Ends (openActive schemaId) r (.ok m) r := by
  have hactive : r.activeVersion = .ok v := by
    simp [Root.activeVersion, hlink, hv, hget]
  refine comes_look (comes_ok hactive ?_)
  rw [hget, Option.getD_some]
  refine comes_ok hvalid ?_
  rw [hopen]
  exact comes_lift _

theorem pool_of_laid {recs : List UInt8} {e e₀ : Encoding} {slot : ℕ} {ps : List Placed}
    (hl : Laid slot cs e₀ recs e ps) : pool ps = symbols cs := by
  rw [pool, symbols, ← hl.contracts, List.map_map]
  rfl

theorem validate_laidDir (hcs : cs ≠ []) (henc : encodeFrom 0 cs {} = .ok (recs, e))
    (building frozen : Bool) :
    validate schemaId (laidDir schemaId recs e cs source building frozen) =
      .ok (builtHeader schemaId recs (symbols cs) e cs.length source) := by
  obtain ⟨ps, hl⟩ := laid_of_encodeFrom henc
  exact validate_builtDir (measured_of_laid hl hcs)

theorem open_laidDir (schemaId : String) (source : Source) (henc : encodeFrom 0 cs {} = .ok (recs, e)) (building frozen : Bool) :
    ∃ ps, Laid 0 cs {} recs e ps ∧
      MmapStore.open_ (laidDir schemaId recs e cs source building frozen)
        (builtHeader schemaId recs (symbols cs) e cs.length source) =
        .ok (openedStore e.tables recs ps) := by
  obtain ⟨ps, hl⟩ := laid_of_encodeFrom henc
  refine ⟨ps, hl, ?_⟩
  rw [laidDir, ← pool_of_laid hl]
  exact open_builtDir hl

theorem judge_laidDir (hv : isVersionName v = true) (hcs : cs ≠ [])
    (henc : encodeFrom 0 cs {} = .ok (recs, e))
    (hget : r.dirs.get v = some (laidDir schemaId recs e cs source false true)) :
    judge schemaId v (r.dirs.get v) =
      .ok (builtHeader schemaId recs (symbols cs) e cs.length source) := by
  have hmarks : ¬ (isVersionName v = false ∨
      (laidDir schemaId recs e cs source false true).building ∨
      (laidDir schemaId recs e cs source false true).frozen = false) := by
    simp [hv, laidDir, builtDir]
  simp only [judge, hget, if_neg hmarks, validate_laidDir hcs henc]

theorem judge_unsealed (schemaId : String) (hget : r.dirs.get v = some d) (hd : d.frozen = false) :
    judge schemaId v (r.dirs.get v) = .error .activationRejected := by
  simp [judge, hget, hd]

end Serving

section Candidates

variable {sha256 : String → String} {d : Contracts} {url : String} {installedAt : ℚ}
  {recs : List UInt8} {e : Encoding} {source : Source} {cs : List DhanContract} {h : VersionHeader}
  {x : Except StoreError String} {err : StoreError}

theorem isVersionName_versionOf : isVersionName (d.versionOf sha256) = true := by
  have hlist : ∀ n : ℕ, ("v" ++ toString n).toList = 'v' :: (toString n).toList := by
    intro n
    rw [String.toList_append]
    rfl
  simp only [isVersionName, Contracts.versionOf, hlist, String.ofList_toList]
  exact Text.isDigit_toString _

theorem exists_of_get_some {dir : VersionDir} (hv : isVersionName v = true)
    (hget : r.dirs.get v = some dir) : r.exists_ v = true := by
  rw [exists_of_get (versionName_ne_active hv), hget]
  rfl

theorem Free.not_exists (hfree : Free v r) : r.exists_ v = false := by
  rw [exists_of_get (versionName_ne_active hfree.named), hfree.absent]
  rfl

theorem ends_provide_there (cs : List DhanContract) (source : Source) (hthere : s.exists_ v = true)
    (h : Ends (activate schemaId v) s x t) :
    Ends (provideVersion schemaId v cs source) s x t := by
  refine comes_look ?_
  rw [if_pos hthere]
  exact h

theorem ends_provide_new (hfree : Free v s) (h : Ends (buildFromContracts schemaId v cs source) s x t) :
    Ends (provideVersion schemaId v cs source) s x t := by
  refine comes_look ?_
  rw [if_neg (by simp [hfree.not_exists])]
  exact h

theorem ends_encode {m : MmapStore}
    (hprovide : Ends (provideVersion schemaId (d.versionOf sha256) d.all ⟨url, installedAt⟩) s
      (.ok v) t) (hopen : Ends (openActive schemaId) t (.ok m) t) :
    Ends (encodeAsMmap schemaId sha256 d installedAt url) s
      (.ok { backend := .mmap m, installedAt := installedAt, sourceUrl := url }) t :=
  Does.bind hprovide (Does.bind hopen (Does.pure _))

theorem ends_encode_raised
    (hprovide : Ends (provideVersion schemaId (d.versionOf sha256) d.all ⟨url, installedAt⟩) s
      (.error err) t) : Ends (encodeAsMmap schemaId sha256 d installedAt url) s (.error err) t :=
  Does.raises hprovide

variable (schemaId) (installedAt) (url)

theorem ends_encode_sealed (hname : d.versionOf sha256 = v) (hcs : cs ≠ [])
    (henc : encodeFrom 0 cs {} = .ok (recs, e))
    (hget : s.dirs.get v = some (laidDir schemaId recs e cs source false true))
    (hactive : s.dirs.get "active" = none) :
    ∃ ps, Laid 0 cs {} recs e ps ∧
      Ends (encodeAsMmap schemaId sha256 d installedAt url) s
        (.ok (openedDataset e.tables recs ps installedAt url))
        { s with active := some v, tmp := none } := by
  subst hname
  have hv : isVersionName (d.versionOf sha256) = true := isVersionName_versionOf
  have hj := judge_laidDir hv hcs henc hget
  obtain ⟨ps, hl, hopen⟩ := open_laidDir schemaId source henc false true
  have hprovide := ends_provide_there d.all ⟨url, installedAt⟩
    (exists_of_get_some hv hget) (ends_activate hj hactive)
  refine ⟨ps, hl, ends_encode hprovide ?_⟩
  exact ends_openActive hv rfl hget (validate_laidDir hcs henc false true) hopen

theorem ends_encode_sealed_blocked (hname : d.versionOf sha256 = v) (hcs : cs ≠ [])
    (henc : encodeFrom 0 cs {} = .ok (recs, e))
    (hget : s.dirs.get v = some (laidDir schemaId recs e cs source false true))
    (hactive : (s.dirs.get "active").isSome) :
    Ends (encodeAsMmap schemaId sha256 d installedAt url) s (.error .osError)
      { s with tmp := some v } := by
  subst hname
  have hv : isVersionName (d.versionOf sha256) = true := isVersionName_versionOf
  refine ends_encode_raised (ends_provide_there _ _ (exists_of_get_some hv hget) ?_)
  exact ends_activate_blocked (judge_laidDir hv hcs henc hget) hactive

theorem ends_encode_refused {dir : VersionDir} (hname : d.versionOf sha256 = v)
    (hget : s.dirs.get v = some dir) (hj : judge schemaId v (s.dirs.get v) = .error err) :
    Ends (encodeAsMmap schemaId sha256 d installedAt url) s (.error err) s := by
  subst hname
  refine ends_encode_raised (ends_provide_there _ _ (exists_of_get_some isVersionName_versionOf hget) ?_)
  exact ends_activate_refused hj

theorem ends_encode_staged (hname : d.versionOf sha256 = v) (hnone : s.dirs.get v = none)
    (hst : (s.dirs.get (stagingName v)).isSome) :
    Ends (encodeAsMmap schemaId sha256 d installedAt url) s (.error .activationRejected) s := by
  subst hname
  have hfree : Free (d.versionOf sha256) s := ⟨isVersionName_versionOf, hnone⟩
  refine ends_encode_raised (ends_provide_new hfree (Does.raises (Does.raises ?_)))
  exact comes_stage_refused _ hfree hst

theorem ends_encode_unencodable (hname : d.versionOf sha256 = v) (hnone : s.dirs.get v = none)
    (hst : s.dirs.get (stagingName v) = none) (henc : encodeFrom 0 d.all {} = .error err) :
    ∃ t, Ends (encodeAsMmap schemaId sha256 d installedAt url) s (.error err) t := by
  subst hname
  have hfree : Free (d.versionOf sha256) s := ⟨isVersionName_versionOf, hnone⟩
  obtain ⟨dir, hdir⟩ := comes_encodeVersion_error schemaId {} ⟨url, installedAt⟩ hfree hst henc
  exact ⟨_, ends_encode_raised (ends_provide_new hfree (Does.raises (Comes.relaxed hdir)))⟩

section Building

variable (hname : d.versionOf sha256 = v) (hnone : s.dirs.get v = none)
  (hst : s.dirs.get (stagingName v) = none) (hcs : d.all ≠ [])
  (henc : encodeFrom 0 d.all {} = .ok (recs, e))

include hname hnone hst hcs henc

theorem ends_provide_built
    (h : Ends (activate schemaId v)
      (s.withDir v (laidDir schemaId recs e d.all ⟨url, installedAt⟩ false true)) x t) :
    Ends (provideVersion schemaId (d.versionOf sha256) d.all ⟨url, installedAt⟩) s x t := by
  subst hname
  have hfree : Free (d.versionOf sha256) s := ⟨isVersionName_versionOf, hnone⟩
  have hbuilt := Comes.relaxed (comes_encodeVersion schemaId ⟨url, installedAt⟩ hfree hst henc)
  have hget := Root.get_withDir (r := s) (d.versionOf sha256) (d.versionOf sha256)
    (laidDir schemaId recs e d.all ⟨url, installedAt⟩ false true)
  rw [if_pos rfl] at hget
  have hj := judge_laidDir hfree.named hcs henc hget
  exact ends_provide_new hfree (Does.bind hbuilt (Does.bind (ends_validateCandidate hj) h))

theorem ends_encode_new (hactive : s.dirs.get "active" = none) :
    ∃ ps, Laid 0 d.all {} recs e ps ∧
      Ends (encodeAsMmap schemaId sha256 d installedAt url) s
        (.ok (openedDataset e.tables recs ps installedAt url))
        { s.withDir v (laidDir schemaId recs e d.all ⟨url, installedAt⟩ false true) with
          active := some v, tmp := none } := by
  have hv : isVersionName v = true := hname ▸ isVersionName_versionOf
  have hget := Root.get_withDir (r := s) v v
    (laidDir schemaId recs e d.all ⟨url, installedAt⟩ false true)
  rw [if_pos rfl] at hget
  have hclear := Root.get_withDir (r := s) v "active"
    (laidDir schemaId recs e d.all ⟨url, installedAt⟩ false true)
  rw [if_neg (versionName_ne_active hv).symm, hactive] at hclear
  obtain ⟨ps, hl, hopen⟩ := open_laidDir schemaId ⟨url, installedAt⟩ henc false true
  have hprovide := ends_provide_built schemaId url installedAt hname hnone hst hcs henc
    (ends_activate (judge_laidDir hv hcs henc hget) hclear)
  refine ⟨ps, hl, ends_encode hprovide ?_⟩
  exact ends_openActive hv rfl hget (validate_laidDir hcs henc false true) hopen

theorem ends_encode_new_blocked (hactive : (s.dirs.get "active").isSome) :
    ∃ t, Ends (encodeAsMmap schemaId sha256 d installedAt url) s (.error .osError) t := by
  have hv : isVersionName v = true := hname ▸ isVersionName_versionOf
  have hget := Root.get_withDir (r := s) v v
    (laidDir schemaId recs e d.all ⟨url, installedAt⟩ false true)
  rw [if_pos rfl] at hget
  have hthere := Root.get_withDir (r := s) v "active"
    (laidDir schemaId recs e d.all ⟨url, installedAt⟩ false true)
  rw [if_neg (versionName_ne_active hv).symm] at hthere
  rw [← hthere] at hactive
  have hprovide := ends_provide_built schemaId url installedAt hname hnone hst hcs henc
    (ends_activate_blocked (judge_laidDir hv hcs henc hget) hactive)
  exact ⟨_, ends_encode_raised hprovide⟩

end Building

end Candidates

end Trademetrix.Market

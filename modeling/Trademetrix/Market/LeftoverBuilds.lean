import Trademetrix.Market.BuildRuns

/-!
# What an interrupted build leaves

A build of a version that is cut, or raises, has carried out no step, or leaves
its staging directory, a version without its seal, or the sealed version. Only
the first and the last let a later refresh of the same master through.
-/

namespace Trademetrix.Market

open Async Proc

variable {schemaId v : String} {r s t : Root} {recs : List UInt8} {e : Encoding} {source : Source}
  {cs : List DhanContract} {finished : VersionDir} {es : List FsEffect}

/-- What a build of `v` from `r` has left after some steps. -/
inductive Left (finished : VersionDir) (v : String) (r : Root) : List FsEffect → Root → Prop
  | untouched : Left finished v r [] r
  | staged {past : List FsEffect} {s : Root} (hpast : past ≠ []) (hseal : .freeze v ∉ past)
      (hst : (s.dirs.get (stagingName v)).isSome) (hnone : s.dirs.get v = none) :
      Left finished v r past s
  | unsealed {past : List FsEffect} {s : Root} {d : VersionDir} (hpast : past ≠ [])
      (hseal : .freeze v ∉ past) (hget : s.dirs.get v = some d) (hd : d.frozen = false) :
      Left finished v r past s
  | sealed {past : List FsEffect} {s : Root} (hseal : .freeze v ∈ past)
      (hfinished : finished.frozen = false) (hget : s.dirs.get v = some { finished with frozen := true }) : Left finished v r past s

namespace Left

variable {past : List FsEffect}

theorem not_sealed (h : Left finished v r past s)
    (hs : ∀ d, s.dirs.get v = some d → d.frozen = false) : .freeze v ∉ past := by
  cases h with
  | untouched => exact List.not_mem_nil
  | staged _ hseal => exact hseal
  | unsealed _ hseal => exact hseal
  | sealed _ _ hget => cases hs _ hget

theorem draft {f : VersionDir → VersionDir} {ef : FsEffect} (h : Left finished v r past s)
    (hne : v ≠ stagingName v) (hef : ef ≠ .freeze v)
    (happly : s.apply ef = s.onDir (stagingName v) f) (hst : (s.dirs.get (stagingName v)).isSome)
    (hnone : s.dirs.get v = none) : Left finished v r (past ++ [ef]) (s.apply ef) := by
  have hseal : .freeze v ∉ past := h.not_sealed fun d hd => by rw [hnone] at hd; cases hd
  refine .staged (by simp) (by simp [hseal, hef.symm]) ?_ ?_
  · rw [happly, get_onDir, if_pos rfl, Option.isSome_map, hst]
  · rw [happly, get_onDir, if_neg hne, hnone]

theorem step {ef : FsEffect} (h : Left finished v r past s) (hne : v ≠ stagingName v)
    (hg : BuildStep finished v s ef) : Left finished v r (past ++ [ef]) (s.apply ef) := by
  cases ef with
  | mkdir dir =>
    obtain ⟨rfl, hnone⟩ := hg
    have hseal : .freeze v ∉ past := h.not_sealed fun d hd => by rw [hnone] at hd; cases hd
    refine .staged (by simp) (by simp [hseal]) ?_ ?_
    · simp [Root.apply, Dict.get_set]
    · simp [Root.apply, Dict.get_set, hne, hnone]
  | mark dir | create dir p | append dir p bytes | touchHeader dir | writeHeader dir hd =>
    obtain ⟨rfl, hst, hnone⟩ := hg
    exact h.draft hne (by rintro ⟨⟩) rfl hst hnone
  | rename src dst =>
    obtain ⟨rfl, rfl, hnone, d, hd, hfrozen⟩ := hg
    have hseal : .freeze dst ∉ past := h.not_sealed fun d hd => by rw [hnone] at hd; cases hd
    refine .unsealed (by simp) (by simp [hseal]) (?_ : _ = some d) hfrozen
    simp [Root.apply, hd, Dict.get_set]
  | unmark dir =>
    obtain ⟨rfl, d, hd, hfrozen⟩ := hg
    have hseal : .freeze dir ∉ past := by
      refine h.not_sealed fun d' hd' => ?_
      rw [hd] at hd'
      cases hd'
      exact hfrozen
    refine .unsealed (by simp) (by simp [hseal]) (?_ : _ = some { d with building := false }) hfrozen
    rw [Root.apply, get_onDir, if_pos rfl, hd]
    rfl
  | freeze dir =>
    obtain ⟨rfl, hget, hfinished⟩ := hg
    refine .sealed (by simp) hfinished ?_
    rw [Root.apply, get_onDir, if_pos rfl, hget]
    rfl
  | unlinkTmp | symlink _ | replaceActive | removed _ _ => exact hg.elim

end Left

theorem BuildStep.active {ef : FsEffect} (hg : BuildStep finished v s ef) (hv : v ≠ "active") :
    (s.apply ef).dirs.get "active" = s.dirs.get "active" := by
  have hst := stagingName_ne_active (v := v)
  cases ef with
  | mkdir dir =>
    obtain ⟨rfl, -⟩ := hg
    simp [Root.apply, Dict.get_set, hst.symm]
  | mark dir | create dir p | append dir p bytes | touchHeader dir | writeHeader dir hd =>
    obtain ⟨rfl, -⟩ := hg
    rw [Root.apply, get_onDir, if_neg hst.symm]
  | rename src dst =>
    obtain ⟨rfl, rfl, -, d, hd, -⟩ := hg
    simp [Root.apply, hd, Dict.get_set, Dict.get_pop, hst.symm, hv.symm]
  | unmark dir =>
    obtain ⟨rfl, -⟩ := hg
    rw [Root.apply, get_onDir, if_neg hv.symm]
  | freeze dir =>
    obtain ⟨rfl, -⟩ := hg
    rw [Root.apply, get_onDir, if_neg hv.symm]
  | unlinkTmp | symlink _ | replaceActive | removed _ _ => exact hg.elim

theorem left_of_goes (hfree : Free v r) {o : Option (Except StoreError String)}
    {x : Except StoreError String}
    (hcome : Comes (BuildStep finished v) (encodeVersion schemaId v cs source) r x t)
    (hgo : Goes Root.apply (encodeVersion schemaId v cs source).run r es s o) :
    Left finished v r es s ∧ s.dirs.get "active" = r.dirs.get "active" := by
  have hlegal := hcome.goes hgo
  have hstart : Left finished v r [] r ∧ r.dirs.get "active" = r.dirs.get "active" :=
    ⟨.untouched, rfl⟩
  rw [hgo.state]
  refine hlegal.history (I := fun past s => Left finished v r past s ∧
    s.dirs.get "active" = r.dirs.get "active") ?_ hstart
  intro past s ef hs hg
  exact ⟨hs.1.step hfree.ne_staging hg,
    (hg.active (versionName_ne_active hfree.named)).trans hs.2⟩

theorem comes_build (schemaId : String) (source : Source) (hfree : Free v r)
    (hst : r.dirs.get (stagingName v) = none) :
    ∃ finished x t, Comes (BuildStep finished v) (encodeVersion schemaId v cs source) r x t ∧
      (finished.frozen = false → ∃ recs e, encodeFrom 0 cs {} = .ok (recs, e) ∧
        finished = laidDir schemaId recs e cs source false false) := by
  cases henc : encodeFrom 0 cs {} with
  | error err =>
    obtain ⟨d, hd⟩ := comes_encodeVersion_error schemaId { frozen := true } source hfree hst henc
    exact ⟨_, _, _, hd, nofun⟩
  | ok out =>
    exact ⟨_, _, _, comes_encodeVersion schemaId source hfree hst henc, fun _ => ⟨_, _, rfl, rfl⟩⟩

section Later

variable {sha256 : String → String} {d d' : Contracts} {url : String} {installedAt : ℚ}

theorem encodeFrom_parsedAt (later : ℚ) (slot : ℕ) (e : Encoding) :
    encodeFrom slot (cs.map fun c => c.parsedAt later) e = encodeFrom slot cs e := by
  induction cs generalizing slot e with
  | nil => rfl
  | cons c cs ih =>
    have hintern : ∀ t, internContract t (c.parsedAt later) = internContract t c := fun _ => rfl
    have hunder : underlyingIdOf (c.parsedAt later) = underlyingIdOf c := rfl
    have hrecord : ∀ t i j k l, recordOf t (c.parsedAt later) i j k l = recordOf t c i j k l :=
      fun _ _ _ _ _ => rfl
    have hid : (c.parsedAt later).securityId = c.securityId := rfl
    have hsymbol : (c.parsedAt later).tradingSymbol = c.tradingSymbol := rfl
    have hadd : e.add slot (c.parsedAt later) = e.add slot c := by
      simp only [Encoding.add, hintern, hunder, hid, Placed.record, Placed.secRow, Placed.optRow,
        Placed.symRow, Placed.symbol, hrecord, hsymbol]
    simp only [List.map_cons, encodeFrom, hadd, ih]

def Encodes (schemaId : String) (sha256 : String → String) (d : Contracts) (installedAt : ℚ)
    (url : String) (s : Root) : Prop :=
  ∃ m t, (encodeAsMmap schemaId sha256 d installedAt url).run.finish Root.apply undisturbed s =
    (.ok m, t)

theorem not_encodes {x : StoreError} {t : Root}
    (h : Ends (encodeAsMmap schemaId sha256 d installedAt url) s (.error x) t) :
    ¬ Encodes schemaId sha256 d installedAt url s := by
  rintro ⟨m, u, hm⟩
  cases h.ends.symm.trans hm

theorem encodes_sealed (hname : d.versionOf sha256 = v) (hcs : cs ≠ [])
    (henc : encodeFrom 0 cs {} = .ok (recs, e))
    (hget : s.dirs.get v = some (laidDir schemaId recs e cs source false true)) :
    Encodes schemaId sha256 d installedAt url s ↔ s.dirs.get "active" = none := by
  constructor
  · intro h
    by_contra hactive
    have hblocked := Option.isSome_iff_ne_none.mpr hactive
    exact not_encodes (ends_encode_sealed_blocked _ _ _ hname hcs henc hget hblocked) h
  · intro hactive
    obtain ⟨ps, -, hends⟩ := ends_encode_sealed _ _ _ hname hcs henc hget hactive
    exact ⟨_, _, hends.ends⟩

theorem not_encodes_unsealed {dir : VersionDir} (hname : d.versionOf sha256 = v)
    (hget : s.dirs.get v = some dir) (hd : dir.frozen = false) :
    ¬ Encodes schemaId sha256 d installedAt url s :=
  not_encodes (ends_encode_refused _ _ _ hname hget (judge_unsealed schemaId hget hd))

theorem encodes_free (hname : d.versionOf sha256 = v) (hnone : s.dirs.get v = none)
    (hst : s.dirs.get (stagingName v) = none) (hcs : d.all ≠ []) :
    Encodes schemaId sha256 d installedAt url s ↔
      (∃ out, encodeFrom 0 d.all {} = .ok out) ∧ s.dirs.get "active" = none := by
  cases henc : encodeFrom 0 d.all {} with
  | error err =>
    obtain ⟨t, hends⟩ := ends_encode_unencodable _ _ _ hname hnone hst henc
    refine iff_of_false (not_encodes hends) ?_
    rintro ⟨⟨out, hout⟩, -⟩
    cases hout
  | ok out =>
    obtain ⟨recs, e⟩ := out
    constructor
    · intro h
      refine ⟨⟨_, rfl⟩, ?_⟩
      by_contra hactive
      have hblocked := Option.isSome_iff_ne_none.mpr hactive
      obtain ⟨t, hends⟩ := ends_encode_new_blocked _ _ _ hname hnone hst hcs henc hblocked
      exact not_encodes hends h
    · rintro ⟨-, hactive⟩
      obtain ⟨ps, -, hends⟩ := ends_encode_new _ _ _ hname hnone hst hcs henc hactive
      exact ⟨_, _, hends.ends⟩

theorem versionOf_later (sha256 : String → String) {later : ℚ}
    (h : d'.contracts = d.contracts.map fun x => (x.1, x.2.parsedAt later)) :
    d'.versionOf sha256 = d.versionOf sha256 ∧ d'.all = d.all.map fun c => c.parsedAt later := by
  constructor
  · simp [Contracts.versionOf, Contracts.keyText, h, Function.comp_def]
  · simp [Contracts.all, Dict.values, h, Function.comp_def]

end Later

section Retry

variable (u : RefreshSetup)

def Retries (later : ℚ) (text : MasterText) (s : Root) : Prop :=
  ∃ d t, (candidateOf u later (some text)).finish Root.apply undisturbed s = (.ok d, t)

theorem retries_iff {later : ℚ} {text : MasterText} {d : Contracts} (hmmap : u.useMmap = true)
    (hparse : parse u.readings later text = .ok d) :
    Retries u later text s ↔ Encodes u.schemaId u.sha256 d later u.url s := by
  have hcode : candidateOf u later (some text) =
      (encodeAsMmap u.schemaId u.sha256 d later u.url).run >>= fun x =>
        (pure (RefreshError.lift x) : Proc Root FsEffect FsReply _) := by
    simp only [candidateOf, hparse, hmmap, if_true]
  unfold Retries Encodes
  rw [hcode, finish_bind]
  constructor
  · rintro ⟨a, t, h⟩
    cases hx : (encodeAsMmap u.schemaId u.sha256 d later u.url).run.finish Root.apply undisturbed s with
    | mk x y =>
      rw [hx] at h
      cases x with
      | ok m => exact ⟨m, y, rfl⟩
      | error err => cases h
  · rintro ⟨m, t, h⟩
    rw [h]
    exact ⟨m, t, rfl⟩

/-- The build was cut before its first step, where a build could begin, or after the seal. -/
def CleanCut (d : Contracts) (v : String) (r : Root) (es : List FsEffect) : Prop :=
  r.dirs.get "active" = none ∧
    (.freeze v ∈ es ∨
      es = [] ∧ r.dirs.get (stagingName v) = none ∧ ∃ out, encodeFrom 0 d.all {} = .ok out)

/-- Wherever the build of a master's version is cut or raises, a later refresh of the master
succeeds exactly after a clean cut. -/
theorem retries_iff_cleanCut (hmmap : u.useMmap = true) {now : ℚ} (later : ℚ) {text : MasterText}
    {d : Contracts} (hparse : parse u.readings now text = .ok d) {source : Source}
    (hnew : r.exists_ (d.versionOf u.sha256) = false) {o : Option (Except StoreError String)}
    (hgo : Goes Root.apply (encodeVersion u.schemaId (d.versionOf u.sha256) d.all source).run
      r es s o) :
    Retries u later text s ↔ CleanCut d (d.versionOf u.sha256) r es := by
  obtain ⟨hsome, d', hparse', hlater⟩ := parse_later u.readings now later hparse
  obtain ⟨hversion, hall⟩ := versionOf_later u.sha256 hlater
  have hv : isVersionName (d.versionOf u.sha256) = true := isVersionName_versionOf
  have hfree : Free (d.versionOf u.sha256) r := by
    refine ⟨hv, ?_⟩
    rw [exists_of_get (versionName_ne_active hv)] at hnew
    simpa using hnew
  have hcs : d.all ≠ [] := by
    simpa [Contracts.all, Dict.values] using hsome
  have hcs' : d'.all ≠ [] := by simpa [hall] using hcs
  rw [retries_iff u hmmap hparse']
  generalize d.versionOf u.sha256 = v at *
  cases hst : r.dirs.get (stagingName v) with
  | some dir =>
    have hrefused : Comes (fun _ _ => False) (encodeVersion u.schemaId v d.all source) r _ r :=
      Does.raises (comes_stage_refused _ hfree (by rw [hst]; rfl))
    have hnone : es = [] := by
      cases es with
      | nil => rfl
      | cons ef es => exact (hrefused.goes hgo).1.elim
    subst hnone
    rw [hgo.state]
    refine iff_of_false (not_encodes (ends_encode_staged _ _ _ hversion hfree.absent ?_)) ?_
    · rw [replay_nil, hst]
      rfl
    · simp [CleanCut, hst]
  | none =>
    obtain ⟨finished, x, t, hcome, hfinished⟩ := comes_build u.schemaId source hfree hst
    obtain ⟨hleft, hactive⟩ := left_of_goes hfree hcome hgo
    cases hleft with
    | untouched =>
      rw [encodes_free hversion hfree.absent hst hcs', hall, encodeFrom_parsedAt]
      simp [CleanCut, hst, and_comm]
    | staged hpast hseal hst' hnone =>
      refine iff_of_false (not_encodes (ends_encode_staged _ _ _ hversion hnone hst')) ?_
      simp [CleanCut, hpast, hseal]
    | unsealed hpast hseal hget hd =>
      refine iff_of_false (not_encodes_unsealed hversion hget hd) ?_
      simp [CleanCut, hpast, hseal]
    | sealed hseal hfrozen hget =>
      obtain ⟨recs, e, henc, rfl⟩ := hfinished hfrozen
      rw [encodes_sealed hversion hcs henc hget, hactive]
      simp [CleanCut, hseal]

theorem niftyMaster_parses (now : ℚ) : ∃ d, parse niftySetup.readings now niftyMaster = .ok d := by
  have hzero : (parse niftySetup.readings 0 niftyMaster).isOk = true := by decide +kernel
  cases hparse : parse niftySetup.readings 0 niftyMaster with
  | error e => rw [hparse] at hzero; cases hzero
  | ok d =>
    obtain ⟨-, d', hd', -⟩ := parse_later niftySetup.readings 0 now hparse
    exact ⟨d', hd'⟩

/-- Before anything is carried out a retry is as good as the first try. -/
theorem retries_iff_cleanCut_untouched :
    ∃ d, parse niftySetup.readings 0 niftyMaster = .ok d ∧
      (Retries niftySetup 60 niftyMaster {} ↔ CleanCut d (d.versionOf niftySetup.sha256) {} []) := by
  obtain ⟨d, hd⟩ := niftyMaster_parses 0
  exact ⟨d, hd, retries_iff_cleanCut niftySetup rfl 60 hd rfl
    (.cut (encodeVersion niftySetup.schemaId _ d.all ⟨"master", 0⟩).run {})⟩

set_option maxRecDepth 100000 in
/-- A crash after the first step: the staging directory is there, and every refresh of the
master is refused. -/
theorem crash_blocks_retry :
    ∃ d es s, parse niftySetup.readings 0 niftyMaster = .ok d ∧
      Goes Root.apply (encodeVersion niftySetup.schemaId (d.versionOf niftySetup.sha256) d.all
        ⟨"master", 0⟩).run {} es s none ∧
      s.dirs.map Prod.fst = [".staging-v287414909746676"] ∧
      ∀ later, ¬ Retries niftySetup later niftyMaster s := by
  obtain ⟨d, hd⟩ := niftyMaster_parses 0
  have hname : "v" ++ toString ((Text.parseHex (String.ofList
      ((niftySetup.sha256 "").toList.take 16))).getD 0 % 10 ^ 15) = "v287414909746676" := by
    decide
  have hversion : ∀ d : Contracts, d.versionOf niftySetup.sha256 = "v287414909746676" :=
    fun _ => hname
  have hgo : Goes Root.apply (encodeVersion niftySetup.schemaId "v287414909746676" d.all
      ⟨"master", 0⟩).run {} _ _ none := goes_upTo undisturbed 1 _ _
  have hdirs : (upTo Root.apply undisturbed 1 (encodeVersion niftySetup.schemaId
      "v287414909746676" d.all ⟨"master", 0⟩).run {}).2.dirs =
      [(".staging-v287414909746676", {})] := rfl
  rw [← hversion d] at hgo
  refine ⟨d, _, _, hd, hgo, ?_, ?_⟩
  · rw [hversion d, hdirs]
    rfl
  intro later
  obtain ⟨d', hd'⟩ := niftyMaster_parses later
  rw [retries_iff niftySetup rfl hd']
  refine not_encodes (ends_encode_staged _ _ _ (hversion d') ?_ ?_)
  · rw [hversion d, hdirs]
    rfl
  · rw [hversion d, hdirs]
    rfl

end Retry

end Trademetrix.Market

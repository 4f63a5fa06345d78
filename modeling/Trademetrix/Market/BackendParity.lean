import Mathlib.Data.Fintype.EquivFin
import Trademetrix.Market.BuildRuns

/-!
# The two backends beside each other

One master behind the dictionaries and behind the mapped store. Of an exchange
the master does not list, and of a security id that is no number, the mapped
store raises where the dictionaries answer that there is none.
-/

namespace Trademetrix.Market

open Async Proc

section Building

variable {schemaId v : String} {cs : List DhanContract} {source : Source} {r s : Root}
  {es : List FsEffect} {version : String}

theorem encodeVersion_returns
    (hgo : Goes Root.apply (encodeVersion schemaId v cs source).run r es s (some (.ok version))) :
    ∃ recs e, encodeFrom 0 cs {} = .ok (recs, e) ∧
      s = r.withDir v (laidDir schemaId recs e cs source false true) := by
  cases hv : isVersionName v with
  | false =>
    have hrefused : Ends (encodeVersion schemaId v cs source) r (.error .activationRejected) r :=
      Does.raises (comes_refused (by simp [hv]))
    cases (hrefused.returns hgo).1
  | true =>
    cases hget : r.dirs.get v with
    | some dir =>
      have hthere := exists_of_get_some hv hget
      have hrefused : Ends (encodeVersion schemaId v cs source) r (.error .activationRejected) r :=
        Does.raises (comes_check hv (comes_look (comes_refused (by simp [hthere]))))
      cases (hrefused.returns hgo).1
    | none =>
      have hfree : Free v r := ⟨hv, hget⟩
      cases hst : r.dirs.get (stagingName v) with
      | some dir =>
        have hrefused : Ends (encodeVersion schemaId v cs source) r (.error .activationRejected) r :=
          Does.raises (comes_stage_refused _ hfree (by rw [hst]; rfl))
        cases (hrefused.returns hgo).1
      | none =>
        cases henc : encodeFrom 0 cs {} with
        | error err =>
          obtain ⟨dir, hends⟩ := comes_encodeVersion_error schemaId {} source hfree hst henc
          cases (hends.returns hgo).1
        | ok out =>
          obtain ⟨recs, e⟩ := out
          have hends := comes_encodeVersion schemaId source hfree hst henc
          exact ⟨recs, e, rfl, (hends.returns hgo).2⟩

end Building

structure Encoded (readings : Readings) (schemaId : String) (now : ℚ) (text : MasterText)
    (d : Contracts) (m : MmapStore) : Prop where
  parsed : parse readings now text = .ok d
  built : ∃ v source r es s version dir h,
    Goes Root.apply (encodeVersion schemaId v d.all source).run r es s (some (.ok version)) ∧
      s.dirs.get v = some dir ∧ validate schemaId dir = .ok h ∧ MmapStore.open_ dir h = .ok m

def encodeOnce (readings : Readings) (schemaId : String) (now : ℚ) (text : MasterText) :
    Option (Contracts × MmapStore) :=
  match parse readings now text with
  | .error _ => none
  | .ok d =>
    match (encodeVersion schemaId "v1" d.all ⟨"", now⟩).run.finish Root.apply undisturbed {} with
    | (.error _, _) => none
    | (.ok _, s) =>
      match (validate schemaId ((s.dirs.get "v1").getD {})).bind fun h =>
        MmapStore.open_ ((s.dirs.get "v1").getD {}) h with
      | .error _ => none
      | .ok m => if (s.dirs.get "v1").isSome then some (d, m) else none

theorem encoded_of_encodeOnce {readings : Readings} {schemaId : String} {now : ℚ}
    {text : MasterText} {d : Contracts} {m : MmapStore}
    (h : encodeOnce readings schemaId now text = some (d, m)) :
    Encoded readings schemaId now text d m := by
  unfold encodeOnce at h
  split at h
  · cases h
  · next d' hparse =>
    split at h
    · cases h
    · next version s hfinish =>
      split at h
      · cases h
      · next m' hopen =>
        split at h
        · next hthere =>
          cases h
          obtain ⟨dir, hdir⟩ := Option.isSome_iff_exists.mp hthere
          obtain ⟨es, hgo⟩ := goes_finish undisturbed
            (encodeVersion schemaId "v1" d.all ⟨"", now⟩).run ({} : Root)
          rw [hfinish] at hgo
          rw [hdir, Option.getD_some] at hopen
          obtain ⟨header, hvalid, hopen⟩ := bind_eq_ok.mp hopen
          exact ⟨hparse, "v1", _, _, es, s, version, dir, header, hgo, hdir, hvalid, hopen⟩
        · cases h

def DhanContract.compared (c : DhanContract) : DhanContract :=
  { c with displaySymbol := "", sourceUpdatedAt := 0 }

structure Dataset.Agree (a b : Dataset) : Prop where
  contractFor : ∀ exchange segment id,
    (a.contractFor exchange segment id).map (Option.map DhanContract.compared) =
      (b.contractFor exchange segment id).map (Option.map DhanContract.compared)
  contractsForSecurityId : ∀ id,
    (a.contractsForSecurityId id).map (List.map DhanContract.compared) =
      (b.contractsForSecurityId id).map (List.map DhanContract.compared)
  contractForSegmentAndId : ∀ segment id,
    (a.contractForSegmentAndId segment id).map (Option.map DhanContract.compared) =
      (b.contractForSegmentAndId segment id).map (Option.map DhanContract.compared)
  contractForSymbol : ∀ symbol,
    (a.contractForSymbol symbol).map (Option.map DhanContract.compared) =
      (b.contractForSymbol symbol).map (Option.map DhanContract.compared)
  findOption : ∀ underlying expiry strike optionType,
    (a.findOption underlying expiry strike optionType).map (Option.map DhanContract.compared) =
      (b.findOption underlying expiry strike optionType).map (Option.map DhanContract.compared)
  rowsForUnderlying : ∀ underlying,
    (a.rowsForUnderlying underlying).map (List.map DhanContract.compared) =
      (b.rowsForUnderlying underlying).map (List.map DhanContract.compared)

structure DhanProvider.Agree (p q : DhanProvider) : Prop where
  resolveBySecurityId : ∀ now id segment forLive,
    p.resolveBySecurityId now id segment forLive = q.resolveBySecurityId now id segment forLive
  resolveByTradingSymbol : ∀ now symbol forLive,
    p.resolveByTradingSymbol now symbol forLive = q.resolveByTradingSymbol now symbol forLive
  resolveIndexOptionLotSize : ∀ now underlying forLive,
    p.resolveIndexOptionLotSize now underlying forLive =
      q.resolveIndexOptionLotSize now underlying forLive
  expiries : ∀ now cutoff underlying option,
    p.expiries now cutoff underlying option = q.expiries now cutoff underlying option
  strikes : ∀ now underlying expiry optionType,
    p.strikes now underlying expiry optionType = q.strikes now underlying expiry optionType
  resolveOption : ∀ now underlying expiry strike optionType forLive,
    p.resolveOption now underlying expiry strike optionType forLive =
      q.resolveOption now underlying expiry strike optionType forLive
  resolveFuture : ∀ now underlying expiry forLive,
    p.resolveFuture now underlying expiry forLive = q.resolveFuture now underlying expiry forLive
  resolve : ∀ now symbol forLive, p.resolve now symbol forLive = q.resolve now symbol forLive

section Parity

variable {readings : Readings} {schemaId : String} {now : ℚ} {text : MasterText} {d : Contracts}
  {m : MmapStore}

theorem Encoded.laid (h : Encoded readings schemaId now text d m) :
    ∃ recs e ps, encodeFrom 0 d.all {} = .ok (recs, e) ∧ Laid 0 d.all {} recs e ps ∧
      m = openedStore e.tables recs ps := by
  obtain ⟨v, source, r, es, s, version, dir, header, hgo, hget, hvalid, hopen⟩ := h.built
  obtain ⟨recs, e, henc, rfl⟩ := encodeVersion_returns hgo
  obtain ⟨ps, hl⟩ := laid_of_encodeFrom henc
  rw [Root.get_withDir, if_pos rfl] at hget
  cases hget
  have hread := readHeader_of_validate hvalid
  cases hread
  rw [laidDir, ← pool_of_laid hl, open_builtDir hl] at hopen
  exact ⟨recs, e, ps, henc, hl, (Except.ok.inj hopen).symm⟩

theorem Encoded.exchanges (h : Encoded readings schemaId now text d m) {x : String}
    (hx : x ∈ m.tables .exchange) : ∃ c ∈ d.all, c.exchange = x := by
  obtain ⟨recs, e, ps, henc, -, rfl⟩ := h.laid
  obtain ⟨p, hp, hexchange⟩ := (mem_tables_encodeFrom henc hx).resolve_left List.not_mem_nil
  exact ⟨p.contract, hp, hexchange⟩

theorem Encoded.unknown_exchange (h : Encoded readings schemaId now text d m)
    {exchange : String} (hnew : ∀ c ∈ d.all, c.exchange ≠ exchange) (segment id url : String) :
    ({ backend := .mmap m, installedAt := now, sourceUrl := url } : Dataset).contractFor exchange
      segment id = .error .reopenRejected := by
  refine contractFor_unknown m (.inl fun hmem => ?_)
  obtain ⟨c, hc, hex⟩ := h.exchanges hmem
  exact hnew c hc hex

theorem contractsForSecurityId_no_number (now : ℚ) (url : String) {id : String}
    (hid : Text.parseInt id = none) :
    ({ backend := .mmap m, installedAt := now, sourceUrl := url } : Dataset).contractsForSecurityId
      id = .error .valueError := by
  simp [Dataset.contractsForSecurityId, MmapStore.slotsForSecurityId, toInt, hid]

/-- Whatever the master, neither the datasets nor the providers over them agree. -/
theorem backends_disagree (h : Encoded readings schemaId now text d m) (url : String) :
    ¬ Dataset.Agree { backend := .object d, installedAt := now, sourceUrl := url }
        { backend := .mmap m, installedAt := now, sourceUrl := url } ∧
      ∀ health, ¬ DhanProvider.Agree
        { dataset := some { backend := .object d, installedAt := now, sourceUrl := url }
          health := health }
        { dataset := some { backend := .mmap m, installedAt := now, sourceUrl := url }
          health := health } := by
  constructor
  · intro hagree
    obtain ⟨exchange, hnew⟩ :=
      Infinite.exists_notMem_finset (d.all.map DhanContract.exchange).toFinset
    have hnew' : ∀ c ∈ d.all, c.exchange ≠ exchange := by
      intro c hc heq
      exact hnew (List.mem_toFinset.mpr (List.mem_map.mpr ⟨c, hc, heq⟩))
    have hlookup := hagree.contractFor exchange "NSE_FNO" "1"
    rw [h.unknown_exchange hnew' "NSE_FNO" "1" url] at hlookup
    cases hlookup
  · intro health hagree
    have hquery := hagree.resolveBySecurityId 0 "NIFTY" "" false
    have hraise := contractsForSecurityId_no_number (m := m) now url
      (by decide : Text.parseInt "NIFTY" = none)
    simp only [DhanProvider.resolveBySecurityId, DhanProvider.requireDataset, Bool.false_and,
      Bool.false_eq_true, if_false, ok_bind, hraise] at hquery
    have hobject : ∃ cs, ({ backend := .object d, installedAt := now, sourceUrl := url } :
        Dataset).contractsForSecurityId "NIFTY" = .ok cs := ⟨_, rfl⟩
    obtain ⟨cs, hcs⟩ := hobject
    rw [hcs] at hquery
    revert hquery
    simp only [QueryError.lift, ok_bind, error_bind]
    cases cs with
    | nil =>
      intro hquery
      cases hquery
    | cons c rest =>
      intro hquery
      cases rest with
      | nil => cases hquery
      | cons c' rest => cases hquery

set_option maxRecDepth 100000 in
theorem backends_disagree_nifty :
    ∃ d m, Encoded niftySetup.readings "schema" 0 niftyMaster d m ∧
      ¬ Dataset.Agree { backend := .object d, installedAt := 0 }
        { backend := .mmap m, installedAt := 0 } := by
  have hsome : (encodeOnce niftySetup.readings "schema" 0 niftyMaster).isSome = true := by
    decide +kernel
  obtain ⟨⟨d, m⟩, hdm⟩ := Option.isSome_iff_exists.mp hsome
  have hencoded := encoded_of_encodeOnce hdm
  exact ⟨d, m, hencoded, (backends_disagree hencoded "").1⟩

set_option maxRecDepth 100000 in
/-- It lists nothing of MCX: `None` from the dictionaries, `ReopenRejectedError` from the store. -/
theorem niftyMaster_unknown_exchange :
    ∃ d m, Encoded niftySetup.readings "schema" 0 niftyMaster d m ∧
      ({ backend := .object d, installedAt := 0 } : Dataset).contractFor "MCX" "MCX_FNO" "40687" =
        .ok none ∧
      ({ backend := .mmap m, installedAt := 0 } : Dataset).contractFor "MCX" "MCX_FNO" "40687" =
        .error .reopenRejected := by
  have hrun : (encodeOnce niftySetup.readings "schema" 0 niftyMaster).map (fun x =>
      decide (x.1.all.map DhanContract.exchange = ["NSE"] ∧
        x.1.contracts.get ("MCX", "MCX_FNO", "40687") = none)) = some true := by decide +kernel
  obtain ⟨⟨d, m⟩, hdm, hall⟩ := Option.map_eq_some_iff.mp hrun
  obtain ⟨hexchanges, hnone⟩ := of_decide_eq_true hall
  have hencoded := encoded_of_encodeOnce hdm
  refine ⟨d, m, hencoded, congrArg Except.ok hnone, hencoded.unknown_exchange ?_ _ _ _⟩
  intro c hc
  have hmem := List.mem_map_of_mem (f := DhanContract.exchange) hc
  rw [hexchanges, List.mem_singleton] at hmem
  rw [hmem]
  decide

end Parity

end Trademetrix.Market

import Mathlib.Data.List.Find
import Trademetrix.Market.BuildRuns

/-!
# The master that is served

A version is named after the keys of its contracts, and one that is there is not
built again: a refresh serves the contracts its version was first built of. It
serves the master just parsed exactly when those contracts, with their prices in
whole units of the scales, have the fields of the new ones.
-/

namespace Trademetrix.Market

open Async Proc

structure Refreshed where
  now : ℚ
  master : Contracts
  provider : DhanProvider

inductive Refreshes (u : RefreshSetup) : DhanProvider → Root → List Refreshed → Prop
  | nil (p : DhanProvider) (r : Root) : Refreshes u p r []
  | cons {p q : DhanProvider} {r s : Root} {now : ℚ} {text : MasterText} {d : Contracts}
      {candidate : Dataset} {es : List FsEffect} {rest : List Refreshed} :
      parse u.readings now text = .ok d →
      Goes Root.apply (candidateOf u now (some text)) r es s (some (.ok candidate)) →
      p.install now candidate = .ok q → Refreshes u q s rest →
      Refreshes u p r (⟨now, d, q⟩ :: rest)

def refreshAll (u : RefreshSetup) : DhanProvider → Root → List (ℚ × MasterText) →
    Option (List Refreshed)
  | _, _, [] => some []
  | p, r, (now, text) :: more =>
    match parse u.readings now text,
      (candidateOf u now (some text)).finish Root.apply undisturbed r with
    | .ok d, (.ok candidate, s) =>
      match p.install now candidate with
      | .ok q => (refreshAll u q s more).map fun rest => ⟨now, d, q⟩ :: rest
      | .error _ => none
    | _, _ => none

theorem refreshes_of_refreshAll {u : RefreshSetup} {p : DhanProvider} {r : Root}
    {texts : List (ℚ × MasterText)} {rs : List Refreshed} (h : refreshAll u p r texts = some rs) :
    Refreshes u p r rs := by
  induction texts generalizing p r rs with
  | nil =>
    cases h
    exact .nil p r
  | cons x more ih =>
    obtain ⟨now, text⟩ := x
    rw [refreshAll] at h
    split at h
    · next d candidate s hparse hfinish =>
      split at h
      · next q hinstall =>
        obtain ⟨rest, hrest, rfl⟩ := Option.map_eq_some_iff.mp h
        obtain ⟨es, hgo⟩ := goes_finish undisturbed (candidateOf u now (some text)) r
        rw [hfinish] at hgo
        exact .cons hparse hgo hinstall (ih hrest)
      · cases h
    · cases h

namespace DhanContract

def terms (c : DhanContract) : ℤ × ℚ × Option ℚ × String × String × String :=
  (c.lotSize, c.tickSize, c.strikePrice, c.expiryDate, c.tradingSymbol, c.optionType)

def inUnits (c : DhanContract) : DhanContract :=
  { c with
    strikePrice := some (scaled c.strikePrice strikeScale / strikeScale)
    tickSize := scaled (some c.tickSize) tickScale / tickScale }

def sameKey (c c' : DhanContract) : Bool :=
  c'.exchange = c.exchange ∧ c'.exchangeSegment = c.exchangeSegment ∧
    Text.parseInt c'.securityId = Text.parseInt c.securityId

end DhanContract

def DhanProvider.Serves (p : DhanProvider) (d : Contracts) : Prop :=
  ∃ served, p.dataset = some served ∧ served.contractCount = d.all.length ∧
    ∀ c ∈ d.all, ∃ c', served.contractFor c.exchange c.exchangeSegment c.securityId = .ok (some c') ∧
      c'.terms = c.terms

/-- Contracts, in whole units, that are as many as a master's and have the terms of each of
them in the first place its key has. -/
def Contracts.StandsIn (held : List DhanContract) (d : Contracts) : Prop :=
  held.length = d.all.length ∧
    ∀ c ∈ d.all, ∃ c', held.find? c.sameKey = some c' ∧ c'.inUnits.terms = c.terms

abbrev Held := String → Option (List DhanContract)

/-- The root's versions were built and sealed of these contracts; what else is under the name
of a version does not pass as a candidate. -/
def Holds (schemaId : String) (held : Held) (r : Root) : Prop :=
  ∀ v, isVersionName v = true →
    match held v with
    | some cs => cs ≠ [] ∧ ∃ recs e source, encodeFrom 0 cs {} = .ok (recs, e) ∧
        r.dirs.get v = some (laidDir schemaId recs e cs source false true)
    | none => ∀ h, judge schemaId v (r.dirs.get v) ≠ .ok h

def Current (sha256 : String → String) : Held → List Contracts → Prop
  | _, [] => True
  | held, d :: rest =>
    let v := d.versionOf sha256
    let cs := (held v).getD d.all
    Contracts.StandsIn cs d ∧ Current sha256 (Function.update held v (some cs)) rest

section Lookups

variable {cs : List DhanContract} {recs : List UInt8} {e : Encoding} {ps : List Placed}
  {time : ℚ} {url : String}

theorem find?_hasKey (h : Laid 0 cs {} recs e ps) {c : DhanContract} {n : ℤ}
    (hid : toInt c.securityId = .ok n) :
    (ps.find? (Placed.hasKey c.exchange c.exchangeSegment n)).map Placed.contract =
      cs.find? c.sameKey := by
  rw [← h.contracts, List.find?_map]
  refine congrArg (Option.map Placed.contract) (List.find?_congr fun p hp => ?_)
  have hp' := toInt_eq_ok.mp (h.securityId p hp)
  have hc := toInt_eq_ok.mp hid
  simp [Placed.hasKey, DhanContract.sameKey, hp', hc]

theorem find?_sameKey_none (h : Laid 0 cs {} recs e ps) {c : DhanContract}
    (hid : Text.parseInt c.securityId = none) : cs.find? c.sameKey = none := by
  refine List.find?_eq_none.mpr fun c' hc' => ?_
  rw [← h.contracts] at hc'
  obtain ⟨p, hp, rfl⟩ := List.mem_map.mp hc'
  have hp' := toInt_eq_ok.mp (h.securityId p hp)
  simp [DhanContract.sameKey, hid, hp']

theorem contractFor_terms (h : Laid 0 cs {} recs e ps) (c : DhanContract)
    {terms : ℤ × ℚ × Option ℚ × String × String × String} :
    (∃ c', (openedDataset e.tables recs ps time url).contractFor c.exchange c.exchangeSegment
        c.securityId = .ok (some c') ∧ c'.terms = terms) ↔
      ∃ c', cs.find? c.sameKey = some c' ∧ c'.inUnits.terms = terms := by
  simp only [contractFor_eq_some h]
  cases hid : Text.parseInt c.securityId with
  | none =>
    have hnot : ∀ n, toInt c.securityId ≠ .ok n := by
      intro n hn
      rw [toInt_eq_ok, hid] at hn
      cases hn
    rw [find?_sameKey_none h hid]
    simp [hnot]
  | some n =>
    have hn := toInt_eq_ok.mpr hid
    rw [← find?_hasKey h hn]
    constructor
    · rintro ⟨c', ⟨m, p, hm, hfind, rfl⟩, hterms⟩
      cases hn.symm.trans hm
      exact ⟨p.contract, by rw [hfind]; rfl, hterms⟩
    · rintro ⟨c', hfind, hterms⟩
      obtain ⟨p, hp, rfl⟩ := Option.map_eq_some_iff.mp hfind
      exact ⟨_, ⟨n, p, hn, hp, rfl⟩, hterms⟩

end Lookups

section Steps

variable {u : RefreshSetup} {held : Held} {p q : DhanProvider} {r s : Root} {now : ℚ}
  {text : MasterText} {d : Contracts} {candidate : Dataset} {es : List FsEffect}
  {cs : List DhanContract}

theorem Holds.update {v : String} {recs : List UInt8} {e : Encoding}
    {source : Source} (h : Holds u.schemaId held r) (hcs : cs ≠ [])
    (henc : encodeFrom 0 cs {} = .ok (recs, e))
    (hget : s.dirs.get v = some (laidDir u.schemaId recs e cs source false true))
    (hframe : ∀ w, w ≠ v → s.dirs.get w = r.dirs.get w ∨ isVersionName w = false) :
    Holds u.schemaId (Function.update held v (some cs)) s := by
  intro w hw
  by_cases hwv : w = v
  · subst hwv
    rw [Function.update_self]
    exact ⟨hcs, recs, e, source, henc, hget⟩
  · have hsame : s.dirs.get w = r.dirs.get w :=
      (hframe w hwv).resolve_right (by rw [hw]; decide)
    rw [Function.update_of_ne hwv, hsame]
    exact h w hw

theorem encodeAsMmap_returns (hparse : parse u.readings now text = .ok d) (hmmap : u.useMmap = true)
    (hgo : Goes Root.apply (candidateOf u now (some text)) r es s (some (.ok candidate))) :
    ∃ es', Goes Root.apply (encodeAsMmap u.schemaId u.sha256 d now u.url).run r es' s
      (some (.ok candidate)) := by
  have hcode : candidateOf u now (some text) =
      (encodeAsMmap u.schemaId u.sha256 d now u.url).run >>= fun x =>
        (pure (RefreshError.lift x) : Proc Root FsEffect FsReply _) := by
    simp only [candidateOf, hparse, hmmap, if_true]
  rw [hcode] at hgo
  obtain ⟨x, t, es₁, es₂, hencode, hrest⟩ := Goes.of_bind hgo
  cases x with
  | error err => cases hrest
  | ok c =>
    cases hrest
    exact ⟨es₁, hencode⟩

theorem encoded_held (hcs : held (d.versionOf u.sha256) = some cs) (hheld : Holds u.schemaId held r)
    (hencode : Goes Root.apply (encodeAsMmap u.schemaId u.sha256 d now u.url).run r es s
      (some (.ok candidate))) :
    ∃ recs e ps, Laid 0 cs {} recs e ps ∧ candidate = openedDataset e.tables recs ps now u.url ∧
      Holds u.schemaId (Function.update held (d.versionOf u.sha256) (some cs)) s := by
  have hv : isVersionName (d.versionOf u.sha256) = true := isVersionName_versionOf
  have hthis := hheld _ hv
  rw [hcs] at hthis
  obtain ⟨hne, recs, e, source, henc, hget⟩ := hthis
  cases hlink : r.dirs.get "active" with
  | some dir =>
    have hblocked := ends_encode_sealed_blocked u.schemaId u.url now rfl hne henc
      hget (by rw [hlink]; rfl)
    cases (hblocked.returns hencode).1
  | none =>
    obtain ⟨ps, hl, hends⟩ := ends_encode_sealed u.schemaId u.url now rfl hne henc
      hget hlink
    obtain ⟨hdataset, rfl⟩ := hends.returns hencode
    refine ⟨recs, e, ps, hl, (Except.ok.inj hdataset).symm, ?_⟩
    exact hheld.update hne henc hget fun w _ => .inl rfl

theorem encoded_new (hne : d.all ≠ []) (hcs : held (d.versionOf u.sha256) = none)
    (hheld : Holds u.schemaId held r)
    (hencode : Goes Root.apply (encodeAsMmap u.schemaId u.sha256 d now u.url).run r es s
      (some (.ok candidate))) :
    ∃ recs e ps, Laid 0 d.all {} recs e ps ∧ candidate = openedDataset e.tables recs ps now u.url ∧
      Holds u.schemaId (Function.update held (d.versionOf u.sha256) (some d.all)) s := by
  have hv : isVersionName (d.versionOf u.sha256) = true := isVersionName_versionOf
  have hthis := hheld _ hv
  rw [hcs] at hthis
  cases hget : r.dirs.get (d.versionOf u.sha256) with
  | some dir =>
    cases hj : judge u.schemaId (d.versionOf u.sha256) (r.dirs.get (d.versionOf u.sha256)) with
    | ok h => exact absurd hj (hthis h)
    | error err =>
      have hrefused := ends_encode_refused u.schemaId u.url now rfl hget hj
      cases (hrefused.returns hencode).1
  | none =>
    cases hst : r.dirs.get (stagingName (d.versionOf u.sha256)) with
    | some dir =>
      have hstaged := ends_encode_staged u.schemaId u.url now rfl hget (by rw [hst]; rfl)
      cases (hstaged.returns hencode).1
    | none =>
      cases henc : encodeFrom 0 d.all {} with
      | error err =>
        obtain ⟨t, hends⟩ := ends_encode_unencodable u.schemaId u.url now rfl hget hst henc
        cases (hends.returns hencode).1
      | ok out =>
        obtain ⟨recs, e⟩ := out
        cases hlink : r.dirs.get "active" with
        | some dir =>
          obtain ⟨t, hends⟩ := ends_encode_new_blocked u.schemaId u.url now rfl hget hst hne henc
            (by rw [hlink]; rfl)
          cases (hends.returns hencode).1
        | none =>
          obtain ⟨ps, hl, hends⟩ := ends_encode_new u.schemaId u.url now rfl hget hst hne henc hlink
          obtain ⟨hdataset, rfl⟩ := hends.returns hencode
          refine ⟨recs, e, ps, hl, (Except.ok.inj hdataset).symm, ?_⟩
          have hbuilt := (Root.get_withDir (r := r) (d.versionOf u.sha256) (d.versionOf u.sha256)
            (laidDir u.schemaId recs e d.all ⟨u.url, now⟩ false true)).trans (if_pos rfl)
          exact hheld.update hne henc hbuilt fun w hw =>
            .inl ((Root.get_withDir _ _ _).trans (if_neg hw))

theorem refresh_serves (hmmap : u.useMmap = true) (hheld : Holds u.schemaId held r)
    (hparse : parse u.readings now text = .ok d)
    (hgo : Goes Root.apply (candidateOf u now (some text)) r es s (some (.ok candidate))) :
    let cs := (held (d.versionOf u.sha256)).getD d.all
    ∃ recs e ps, Laid 0 cs {} recs e ps ∧ candidate = openedDataset e.tables recs ps now u.url ∧
      Holds u.schemaId (Function.update held (d.versionOf u.sha256) (some cs)) s := by
  obtain ⟨es', hencode⟩ := encodeAsMmap_returns hparse hmmap hgo
  cases hcs : held (d.versionOf u.sha256) with
  | some cs => exact encoded_held hcs hheld hencode
  | none =>
    have hne : d.all ≠ [] := by
      have hsome := (parse_later u.readings now now hparse).1
      simpa [Contracts.all, Dict.values] using hsome
    exact encoded_new hne hcs hheld hencode

theorem dataset_of_install (h : p.install now candidate = .ok q) : q.dataset = some candidate := by
  simp only [DhanProvider.install, bind_eq_ok] at h
  obtain ⟨_, -, _, -, cs, -, h⟩ := h
  cases h
  rfl

end Steps

/-- Refreshes that all go through serve, each of them, the master just parsed exactly when the
contracts its version was first built of stand in for it. -/
theorem served_iff_current {u : RefreshSetup} (hmmap : u.useMmap = true) {held : Held}
    {p : DhanProvider} {r : Root} (hheld : Holds u.schemaId held r) {rs : List Refreshed}
    (hrun : Refreshes u p r rs) :
    (∀ x ∈ rs, x.provider.Serves x.master) ↔ Current u.sha256 held (rs.map Refreshed.master) := by
  induction hrun generalizing held with
  | nil => exact iff_of_true (List.forall_mem_nil _) trivial
  | @cons p q r s now text d candidate es rest hparse hgo hinstall _ ih =>
    obtain ⟨recs, e, ps, hl, rfl, hheld'⟩ := refresh_serves hmmap hheld hparse hgo
    rw [List.forall_mem_cons, ih hheld']
    refine and_congr_left' ?_
    have hcount : ps.length = ((held (d.versionOf u.sha256)).getD d.all).length := by
      rw [← hl.contracts, List.length_map]
    have hdataset := dataset_of_install hinstall
    simp only [DhanProvider.Serves, hdataset, Option.some.injEq, exists_eq_left',
      contractFor_terms hl, Contracts.StandsIn, ← hcount]
    rfl

section Lots

def lotMaster (lot : String) : MasterText :=
  { niftyMaster with rows := niftyMaster.rows.map fun row => row.set "LOT_SIZE" lot }

def lotSetup : RefreshSetup :=
  { niftySetup with
    readings := { niftySetup.readings with
      float := fun text =>
        if text = "75" then some (.finite 75) else niftySetup.readings.float text } }

def Refreshed.lotSizes (x : Refreshed) : List (ℤ × Option ℤ) :=
  x.master.all.map fun c =>
    let served := x.provider.dataset.bind fun served =>
      (served.contractFor c.exchange c.exchangeSegment c.securityId).toOption.join
    (c.lotSize, served.map DhanContract.lotSize)

theorem lotSizes_of_serves {x : Refreshed} (h : x.provider.Serves x.master) :
    ∀ lots ∈ x.lotSizes, lots.2 = some lots.1 := by
  intro lots hlots
  obtain ⟨c, hc, rfl⟩ := List.mem_map.mp hlots
  obtain ⟨served, hdataset, -, hserved⟩ := h
  obtain ⟨c', hlookup, hterms⟩ := hserved c hc
  have hlot : c'.lotSize = c.lotSize := congrArg Prod.fst hterms
  simp [hdataset, hlookup, Except.toOption, hlot]

theorem holds_empty (schemaId : String) : Holds schemaId (fun _ => none) {} := by
  intro v _ h
  exact nofun

set_option maxRecDepth 100000 in
/-- One refresh serves its master, which its version is built of. -/
theorem served_iff_current_first :
    ∃ rs, Refreshes lotSetup {} {} rs ∧ rs.map Refreshed.lotSizes = [[(65, some 65)]] ∧
      ((∀ x ∈ rs, x.provider.Serves x.master) ↔
        Current lotSetup.sha256 (fun _ => none) (rs.map Refreshed.master)) := by
  have hrun : (refreshAll lotSetup {} {} [(0, lotMaster "65")]).map (List.map Refreshed.lotSizes) =
      some [[(65, some 65)]] := by decide +kernel
  obtain ⟨rs, hrs, hlots⟩ := Option.map_eq_some_iff.mp hrun
  have hrefreshes := refreshes_of_refreshAll hrs
  exact ⟨rs, hrefreshes, hlots, served_iff_current rfl (holds_empty _) hrefreshes⟩

set_option maxRecDepth 100000 in
/-- The lot size of a contract changes from 65 to 75, and 65 goes on being served. -/
theorem lotSize_not_refreshed :
    ∃ rs, Refreshes lotSetup {} {} rs ∧
      rs.map Refreshed.lotSizes = [[(65, some 65)], [(75, some 65)]] ∧
      ¬ ∀ x ∈ rs, x.provider.Serves x.master := by
  have hrun : (refreshAll lotSetup {} {} [(0, lotMaster "65"), (60, lotMaster "75")]).map
      (List.map Refreshed.lotSizes) = some [[(65, some 65)], [(75, some 65)]] := by decide +kernel
  obtain ⟨rs, hrs, hlots⟩ := Option.map_eq_some_iff.mp hrun
  refine ⟨rs, refreshes_of_refreshAll hrs, hlots, fun hserves => ?_⟩
  have hlast : [((75 : ℤ), some (65 : ℤ))] ∈ rs.map Refreshed.lotSizes := by rw [hlots]; decide
  obtain ⟨x, hx, hx'⟩ := List.mem_map.mp hlast
  have hsame := lotSizes_of_serves (hserves x hx) (75, some 65) (by rw [hx']; decide)
  revert hsame
  decide

end Lots

end Trademetrix.Market

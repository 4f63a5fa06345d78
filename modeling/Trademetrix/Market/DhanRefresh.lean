import Trademetrix.Market.ActiveVersion
import Trademetrix.Market.DhanProvider
import Trademetrix.Market.InstrumentStore

/-!
# Refreshing the instrument provider

Encoding a parsed master as a mapped version, the gate before it is installed,
and `refresh`. The version is named after a digest of the contracts' keys;
`sha256` is the hexadecimal digest of a text.
-/

namespace Trademetrix.Market

open Async

inductive RefreshError
  | download
  | master (e : MasterError)
  | store (e : StoreError)
  | emptyCandidate | noSecurityId | lotSize | optionNotIdentified | noSegment
  | partialRefresh
  deriving DecidableEq

def RefreshError.lift {α : Type} : Except StoreError α → Except RefreshError α
  | .ok a => .ok a
  | .error e => .error (.store e)

namespace Contracts

variable (d : Contracts)

def all : List DhanContract := d.contracts.values

def keyLe (a b : String × String × String) : Prop :=
  a.1 < b.1 ∨ a.1 = b.1 ∧ (a.2.1 < b.2.1 ∨ a.2.1 = b.2.1 ∧ a.2.2 ≤ b.2.2)

instance (a b : String × String × String) : Decidable (keyLe a b) :=
  inferInstanceAs (Decidable (_ ∨ _ ∧ (_ ∨ _ ∧ _)))

def keyText : String :=
  String.join (((d.contracts.map Prod.fst).insertionSort keyLe).map fun k =>
    k.1 ++ "|" ++ k.2.1 ++ "|" ++ k.2.2)

def versionOf (sha256 : String → String) : String :=
  let digest := sha256 d.keyText
  "v" ++ toString ((Text.parseHex (String.ofList (digest.toList.take 16))).getD 0 % 10 ^ 15)

end Contracts

section Encode

variable (schemaId : String) (sha256 : String → String)

def provideVersion (version : String) (contracts : List DhanContract) (source : Source) :
    S String := do
  let r ← Fs.look
  if r.exists_ version then activate schemaId version
  else buildFromContracts schemaId version contracts source

/-- `_encode_as_mmap`, on a candidate of the object backend. -/
def encodeAsMmap (d : Contracts) (installedAt : ℚ) (sourceUrl : String) : S Dataset := do
  let _ ← provideVersion schemaId (d.versionOf sha256) d.all ⟨sourceUrl, installedAt⟩
  let reader ← openActive schemaId
  return { backend := .mmap reader, installedAt := installedAt, sourceUrl := sourceUrl }

end Encode

def checkContract (c : DhanContract) : Except RefreshError Unit :=
  if c.securityId = "" then .error .noSecurityId
  else if c.lotSize ≤ 0 then .error .lotSize
  else if c.instrumentType = "OPT" ∧ ¬ (c.underlyingSymbol ≠ "" ∧ c.underlyingSecurityId ≠ "" ∧
      c.expiryDate ≠ "" ∧ c.strikePrice.isSome ∧ c.optionType ≠ "") then
    .error .optionNotIdentified
  else if c.exchangeSegment = "" then .error .noSegment
  else .ok ()

namespace Dataset

variable (d : Dataset)

/-- The contracts as `_count_families` walks over them. -/
def walk : Except RefreshError (List DhanContract) :=
  match d.backend with
  | .object o => .ok o.all
  | .mmap m => RefreshError.lift ((List.range m.count).mapM fun slot => m.contractAt d.installedAt slot)

def validateCandidate : Except RefreshError Unit :=
  if d.contractCount ≤ 0 then .error .emptyCandidate
  else match d.backend with
    | .object o => o.all.forM checkContract
    | .mmap m => (List.range m.count).forM fun slot => do
      let c ← RefreshError.lift (m.contractAt d.installedAt slot)
      checkContract c

end Dataset

namespace DhanProvider

variable (p : DhanProvider)

def rejectPartialRefresh (candidate : Dataset) : Except RefreshError Unit :=
  match p.dataset with
  | none => .ok ()
  | some d =>
    if (candidate.contractCount : ℚ) < d.contractCount * minContractRetention then
      .error .partialRefresh
    else .ok ()

/-- `install`, with the counts of `_count_families`. -/
def install (now : ℚ) (candidate : Dataset) : Except RefreshError DhanProvider := do
  candidate.validateCandidate
  p.rejectPartialRefresh candidate
  let cs ← candidate.walk
  return {
    dataset := some candidate
    health := {
      lastSuccessfulRefresh := some candidate.installedAt
      lastAttempt := some now
      rowCount := candidate.contractCount
      optionContractCount := cs.countP fun c => c.instrumentType = "OPT"
      indexOptionCount := cs.countP fun c => c.instrumentFamily = indexOption
      stockOptionCount := cs.countP fun c => c.instrumentFamily = stockOption
      futureCount := cs.countP fun c => c.instrumentType = "FUT"
      validationStatus := "ok"
      sourceUrl := candidate.sourceUrl } }

def noteFailure (now : ℚ) : DhanProvider :=
  { p with
    health := { p.health with
      lastAttempt := some now
      validationStatus := "failed"
      rowCount := if p.dataset.isNone then 0 else p.health.rowCount } }

/-- The rest of `refresh`, once there is a candidate or something has raised. -/
def conclude (now : ℚ) (candidate : Except RefreshError Dataset) : DhanProvider :=
  match candidate with
  | .error _ => p.noteFailure now
  | .ok d =>
    match p.install now d with
    | .error _ => p.noteFailure now
    | .ok p => p

end DhanProvider

structure RefreshSetup where
  useMmap : Bool
  readings : Readings
  schemaId : String
  sha256 : String → String
  url : String

/-- The candidate of a refresh: what was downloaded, parsed and, if the mapped store is in
use, encoded. -/
def candidateOf (u : RefreshSetup) (now : ℚ) (fetched : Option MasterText) :
    Proc Root FsEffect FsReply (Except RefreshError Dataset) :=
  match fetched with
  | none => pure (.error .download)
  | some text =>
    match parse u.readings now text with
    | .error e => pure (.error (.master e))
    | .ok d =>
      if u.useMmap then do
        let encoded ← (encodeAsMmap u.schemaId u.sha256 d now u.url).run
        pure (RefreshError.lift encoded)
      else pure (.ok { backend := .object d, installedAt := now, sourceUrl := u.url })

def niftyMaster : MasterText where
  fieldnames := requiredColumns
  rows := [[("EXCH_ID", "NSE"), ("SEGMENT", "D"), ("SECURITY_ID", "40687"),
    ("INSTRUMENT", "OPTIDX"), ("UNDERLYING_SECURITY_ID", "26009"), ("UNDERLYING_SYMBOL", "NIFTY"),
    ("SYMBOL_NAME", "NIFTY-22400-CE"), ("DISPLAY_NAME", "NIFTY 22400 CALL"),
    ("INSTRUMENT_TYPE", "OP"), ("LOT_SIZE", "65"), ("SM_EXPIRY_DATE", "2026-10-06"),
    ("STRIKE_PRICE", "22400"), ("OPTION_TYPE", "CE"), ("TICK_SIZE", "0.05")]]

def niftySetup : RefreshSetup where
  useMmap := true
  readings := {
    float text :=
      if text = "65" then some (.finite 65)
      else if text = "22400" then some (.finite 22400)
      else if text = "0.05" then some (.finite (5 / 100))
      else none
    strptime text format :=
      if text = "2026-10-06" ∧ format = "%Y-%m-%d" then some text else none }
  schemaId := "schema"
  sha256 _ := "3560c2067dc03df4410f9a05c64ec4a000d79f45613a7759818ad4f33cedd4a2"
  url := "master"

end Trademetrix.Market

namespace Trademetrix.Market

open Async Proc

inductive Query
  | securityId (securityId exchangeSegment : String) (forLive : Bool)
  | tradingSymbol (symbol : String) (forLive : Bool)
  | indexOptionLotSize (underlying : String) (forLive : Bool)
  | expiries (cutoff underlying : String) (option : Bool)
  | strikes (underlying expiry optionType : String)
  | option (underlying expiry : String) (strike : ℚ) (optionType : String) (forLive : Bool)
  | future (underlying expiry : String) (forLive : Bool)
  | symbol (symbol : String) (forLive : Bool)

inductive Answer
  | instrument (found : Option Instrument)
  | lotSize (found : Option ℤ)
  | dates (found : List String)
  | prices (found : List ℚ)
  deriving DecidableEq

namespace DhanProvider

def ask (p : DhanProvider) (now : ℚ) : Query → Except QueryError Answer
  | .securityId id segment forLive =>
    (p.resolveBySecurityId now id segment forLive).map .instrument
  | .tradingSymbol symbol forLive => (p.resolveByTradingSymbol now symbol forLive).map .instrument
  | .indexOptionLotSize underlying forLive =>
    (p.resolveIndexOptionLotSize now underlying forLive).map .lotSize
  | .expiries cutoff underlying option => (p.expiries now cutoff underlying option).map .dates
  | .strikes underlying expiry optionType => (p.strikes now underlying expiry optionType).map .prices
  | .option underlying expiry strike optionType forLive =>
    (p.resolveOption now underlying expiry strike optionType forLive).map .instrument
  | .future underlying expiry forLive => (p.resolveFuture now underlying expiry forLive).map .instrument
  | .symbol symbol forLive => (p.resolve now symbol forLive).map .instrument

variable {p p' : DhanProvider} {now t : ℚ}

theorem ask_congr (h : ∀ forLive, p'.requireDataset t forLive = p.requireDataset t forLive)
    (q : Query) : p'.ask t q = p.ask t q := by
  cases q <;> simp only [ask, resolveBySecurityId, resolveByTradingSymbol,
    resolveIndexOptionLotSize, expiries, strikes, resolveOption, resolveFuture, resolve, h]

theorem stale_noteFailure : (p.noteFailure now).health.isStaleForLive t = true := by
  unfold MasterHealth.isStaleForLive
  split
  · rfl
  · simp [noteFailure]

theorem ask_noteFailure_iff :
    (∀ q, (p.noteFailure now).ask t q = p.ask t q) ↔
      p.dataset = none ∨ p.health.isStaleForLive t = true := by
  constructor
  · intro h
    by_contra hfresh
    rw [not_or, Bool.not_eq_true] at hfresh
    obtain ⟨hsome, hfresh⟩ := hfresh
    obtain ⟨d, hd⟩ := Option.ne_none_iff_exists'.mp hsome
    have hafter : (p.noteFailure now).requireDataset t true = .error .unavailable := by
      simp [requireDataset, stale_noteFailure, show (p.noteFailure now).dataset = some d from hd]
    have hbefore : p.requireDataset t true = .ok d := by
      simp [requireDataset, hd, hfresh]
    have hq := h (.tradingSymbol "" true)
    simp only [ask, resolveByTradingSymbol, hafter, hbefore, error_bind, ok_bind] at hq
    cases hfound : d.contractForSymbol "" <;> rw [hfound] at hq <;> cases hq
  · intro h q
    refine ask_congr (fun forLive => ?_) q
    have hsame : (p.noteFailure now).dataset = p.dataset := rfl
    rcases h with hnone | hstale
    · simp [requireDataset, hsame, hnone]
    · cases forLive <;> simp [requireDataset, hsame, hstale, stale_noteFailure]

end DhanProvider

section Link

variable {v : String} {r r' : Root} {es : List FsEffect}

/-- The link is only moved to version `v`. -/
def LinkStep (v : String) (r : Root) : FsEffect → Prop
  | .symlink version => version = v
  | .replaceActive => r.tmp = some v
  | _ => True

theorem allowsBuilds_link : AllowsBuilds (LinkStep v) where
  draft {_ e} h := by cases e <;> trivial
  rename _ := trivial
  unmark _ := trivial
  freeze := trivial

theorem allowsLink_link (schemaId : String) : AllowsLink (LinkStep v) schemaId v where
  unlink := trivial
  symlink := rfl
  replace htmp _ := htmp

theorem link_step {e : FsEffect} (hg : LinkStep v r e) :
    (e ≠ .replaceActive → (r.apply e).active = r.active) ∧
      (e = .replaceActive → (r.apply e).active = some v) := by
  cases e with
  | replaceActive => exact ⟨fun h => absurd rfl h, fun _ => hg⟩
  | rename src dst =>
    refine ⟨fun _ => ?_, by rintro ⟨⟩⟩
    simp only [Root.apply]
    split <;> rfl
  | removed dir left => exact ⟨fun _ => removed_active dir left, by rintro ⟨⟩⟩
  | _ => exact ⟨fun _ => rfl, by rintro ⟨⟩⟩

theorem link_of_legal (h : Legal Root.apply (LinkStep v) r es) :
    (.replaceActive ∉ es → (replay Root.apply r es).active = r.active) ∧
      (.replaceActive ∈ es → (replay Root.apply r es).active = some v) := by
  have hstart : (.replaceActive ∉ ([] : List FsEffect) → r.active = r.active) ∧
      (.replaceActive ∈ ([] : List FsEffect) → r.active = some v) := ⟨fun _ => rfl, nofun⟩
  refine h.history (I := fun past s => (.replaceActive ∉ past → s.active = r.active) ∧
    (.replaceActive ∈ past → s.active = some v)) ?_ hstart
  intro past s e hs hg
  obtain ⟨hother, hmoved⟩ := link_step hg
  simp only [List.mem_append, List.mem_singleton, not_or]
  refine ⟨fun ⟨hpast, he⟩ => (hother (Ne.symm he)).trans (hs.1 hpast), ?_⟩
  rintro (hpast | he)
  · by_cases hlast : e = .replaceActive
    · exact hmoved hlast
    · exact (hother hlast).trans (hs.2 hpast)
  · exact hmoved he.symm

variable {schemaId : String} {sha256 : String → String}

theorem provideVersion_spec (cs : List DhanContract) (source : Source) :
    Store (LinkStep v) (fun _ _ => True) (provideVersion schemaId v cs source) r := by
  have hactivate : ∀ {s}, Store (LinkStep v) (fun _ _ => True) (activate schemaId v) s :=
    activate_spec (allowsLink_link schemaId)
  refine store_look ?_
  split
  · exact hactivate
  · refine Tries.bind (encodeVersion_spec allowsBuilds_link v cs source) fun _ _ _ => ?_
    exact Tries.bind (validateCandidate_spec v) fun _ _ _ => hactivate

theorem openActive_spec {guar : Root → FsEffect → Prop} :
    Store guar (fun _ _ => True) (openActive schemaId) r := by
  refine store_look (Tries.bind (store_lift _) fun _ _ _ => ?_)
  refine Tries.bind (store_lift _) fun _ _ _ => ?_
  exact (store_lift _).mono fun _ _ _ => trivial

theorem encodeAsMmap_spec (d : Contracts) (installedAt : ℚ) (url : String) :
    Store (LinkStep (d.versionOf sha256)) (fun _ _ => True)
      (encodeAsMmap schemaId sha256 d installedAt url) r := by
  refine Tries.bind (provideVersion_spec d.all _) fun _ _ _ => ?_
  exact Tries.bind openActive_spec fun _ _ _ => Tries.pure trivial

end Link

def fetchedVersion (u : RefreshSetup) (now : ℚ) (fetched : Option MasterText) : Option String :=
  match fetched with
  | none => none
  | some text => match parse u.readings now text with
    | .error _ => none
    | .ok d => some (d.versionOf u.sha256)

theorem link_of_candidate (u : RefreshSetup) {now : ℚ} {fetched : Option MasterText} {r r' : Root}
    {es : List FsEffect} {o : Option (Except RefreshError Dataset)}
    (hgo : Goes Root.apply (candidateOf u now fetched) r es r' o) :
    (.replaceActive ∉ es → r'.active = r.active) ∧
      (.replaceActive ∈ es → r'.active = fetchedVersion u now fetched) := by
  have hidle : ∀ {x : Except RefreshError Dataset} {w : Option String},
      Goes Root.apply (pure x : Proc Root FsEffect FsReply _) r es r' o →
        (.replaceActive ∉ es → r'.active = r.active) ∧ (.replaceActive ∈ es → r'.active = w) := by
    intro x w h
    cases h with
    | cut | ret => exact ⟨fun _ => rfl, nofun⟩
  unfold candidateOf at hgo
  unfold fetchedVersion
  cases fetched with
  | none => exact hidle hgo
  | some text =>
    cases hparse : parse u.readings now text with
    | error e =>
      simp only [hparse] at hgo ⊢
      exact hidle hgo
    | ok d =>
      simp only [hparse] at hgo ⊢
      split at hgo
      · have hspec : (((encodeAsMmap u.schemaId u.sha256 d now u.url).run >>= fun x =>
            (pure (RefreshError.lift x) : Proc Root FsEffect FsReply _))).Alone Root.apply
            (LinkStep (d.versionOf u.sha256)) (fun _ _ => True) r :=
          Alone.bind (encodeAsMmap_spec d now u.url) fun _ _ _ => Alone.pure trivial
        rw [hgo.state]
        exact link_of_legal (hspec.goes hgo).1
      · exact hidle hgo

/-- A refresh that fails leaves the answers of a moment and the link as they were exactly if
there was no data to use live then, and the link was not moved or named the version already. -/
theorem failedRefresh_keeps_iff (u : RefreshSetup) {p : DhanProvider} {now : ℚ} (t : ℚ)
    {fetched : Option MasterText} {r r' : Root} {es : List FsEffect}
    {x : Except RefreshError Dataset}
    (hgo : Goes Root.apply (candidateOf u now fetched) r es r' (some x))
    (hfail : ∃ e, (x >>= p.install now) = .error e) :
    ((∀ q, (p.conclude now x).ask t q = p.ask t q) ∧ r'.active = r.active) ↔
      (p.dataset = none ∨ p.health.isStaleForLive t = true) ∧
        (.replaceActive ∈ es → r.active = fetchedVersion u now fetched) := by
  have hconclude : p.conclude now x = p.noteFailure now := by
    obtain ⟨e, he⟩ := hfail
    cases x with
    | error _ => rfl
    | ok d => simp only [DhanProvider.conclude, show p.install now d = .error e from he]
  obtain ⟨hkept, hmoved⟩ := link_of_candidate u hgo
  rw [hconclude, DhanProvider.ask_noteFailure_iff]
  refine and_congr_right fun _ => ?_
  by_cases hmove : .replaceActive ∈ es
  · rw [hmoved hmove]
    exact ⟨fun h _ => h.symm, fun h => (h hmove).symm⟩
  · exact iff_of_true (hkept hmove) fun h => absurd h hmove

section Nifty

def loadedWith (contracts : List DhanContract) : DhanProvider where
  dataset := some { backend := .object (contracts.foldl Contracts.add {}), installedAt := 0 }
  health := { lastSuccessfulRefresh := some 0, validationStatus := "ok" }

/-- A download that fails before anything was ever loaded. -/
theorem failedRefresh_keeps_iff_unloaded :
    ((∀ q, (({} : DhanProvider).conclude 60 (.error .download)).ask 61 q =
        ({} : DhanProvider).ask 61 q) ∧ ({} : Root).active = ({} : Root).active) ↔
      (({} : DhanProvider).dataset = none ∨
        ({} : DhanProvider).health.isStaleForLive 61 = true) ∧
        (.replaceActive ∈ ([] : List FsEffect) →
          ({} : Root).active = fetchedVersion niftySetup 60 none) :=
  failedRefresh_keeps_iff niftySetup 61 (.ret _ _) ⟨.download, rfl⟩

set_option maxRecDepth 100000 in
/-- A download that fails a minute after a good refresh blocks a live question that was
answered, and a master that is refused for its size has moved the link. -/
theorem failure_blocks_live :
    (Goes Root.apply (candidateOf niftySetup 60 none) {} [] {} (some (.error .download)) ∧
      ((loadedWith [niftyCall]).ask 61 (.tradingSymbol "NIFTY-22400-CE" true)).isOk = true ∧
      (((loadedWith [niftyCall]).conclude 60 (.error .download)).ask 61
        (.tradingSymbol "NIFTY-22400-CE" true)).isOk = false) ∧
      ∃ es r x, Goes Root.apply (candidateOf niftySetup 60 (some niftyMaster)) {} es r (some x) ∧
        (∃ e, (x >>= (loadedWith [niftyCall, { niftyCall with securityId := "1" },
          { niftyCall with securityId := "2" }]).install 60) = .error e) ∧
        r.active = some "v287414909746676" := by
  refine ⟨⟨.ret _ _, by decide +kernel, by decide +kernel⟩, ?_⟩
  obtain ⟨es, hgo⟩ := goes_finish undisturbed (candidateOf niftySetup 60 (some niftyMaster)) {}
  have hrefused : (((candidateOf niftySetup 60 (some niftyMaster)).finish Root.apply undisturbed
      {}).1 >>= (loadedWith [niftyCall, { niftyCall with securityId := "1" },
        { niftyCall with securityId := "2" }]).install 60).isOk = false := by
    decide +kernel
  refine ⟨es, _, _, hgo, ?_, by decide +kernel⟩
  cases hx : (((candidateOf niftySetup 60 (some niftyMaster)).finish Root.apply undisturbed
      {}).1 >>= (loadedWith [niftyCall, { niftyCall with securityId := "1" },
        { niftyCall with securityId := "2" }]).install 60) with
  | error e => exact ⟨e, rfl⟩
  | ok p => rw [hx] at hrefused; cases hrefused

end Nifty

end Trademetrix.Market

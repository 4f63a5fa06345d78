import Std.Data.String.ToInt
import Trademetrix.Decimal
import Trademetrix.Oms.Models
import Trademetrix.Oms.Reconciliation

/-!
# The intent of an order

The attributes an order is identified by, through the record that is stored for a
request and the request that is rebuilt from the record.
-/

namespace Trademetrix.Oms

open Execution (ExecutionRequest)

def sameIntent (sha256 : String → String) (stored : String) (req : ExecutionRequest) : Bool :=
  stored ≠ "" && stored = intentFingerprint sha256 req

variable {sha256 : String → String} {a b req : ExecutionRequest}

theorem intentFingerprint_congr (h : materialAttributes a = materialAttributes b) :
    intentFingerprint sha256 a = intentFingerprint sha256 b := by
  unfold intentFingerprint
  rw [h]

theorem intentFingerprint_ne_empty (hsha : ∀ s, (sha256 s).length = 64) (req : ExecutionRequest) :
    intentFingerprint sha256 req ≠ "" := by
  intro h
  have hlen := congrArg String.length h
  simp only [intentFingerprint, String.length_ofList, List.length_take, String.length_toList,
    hsha] at hlen
  cases hlen

theorem sameIntent_iff {stored : String} :
    sameIntent sha256 stored req = true ↔
      stored ≠ "" ∧ stored = intentFingerprint sha256 req := by
  simp [sameIntent]

def textAttributes (req : ExecutionRequest) : List String :=
  [Text.strip req.userId, Text.strip req.broker, Text.strip req.symbol, Text.strip req.side,
    Text.strip req.orderType, Text.strip req.product, Text.strip req.instrumentType,
    (req.expiryDate.map Text.strip).getD "", (req.optionType.map Text.strip).getD ""]

theorem materialAttributes_inj :
    materialAttributes a = materialAttributes b ↔
      textAttributes a = textAttributes b ∧ a.quantity = b.quantity ∧
        (a.strikePrice.map Text.formatG).getD "" = (b.strikePrice.map Text.formatG).getD "" := by
  have hint : ∀ m n : ℤ, toString m = toString n ↔ m = n := fun m n => Int.repr_inj
  simp only [materialAttributes, textAttributes, List.cons.injEq, and_true, hint]
  constructor
  · rintro ⟨h1, h2, h3, h4, h5, h6, h7, h8, h9, h10, h11⟩
    exact ⟨⟨h1, h2, h3, h4, h6, h7, h8, h9, h11⟩, h5, h10⟩
  · rintro ⟨⟨h1, h2, h3, h4, h6, h7, h8, h9, h11⟩, h5, h10⟩
    exact ⟨h1, h2, h3, h4, h5, h6, h7, h8, h9, h10, h11⟩

theorem strip_orNone (s : Option String) :
    ((orNone (s.getD "")).map Text.strip).getD "" = (s.map Text.strip).getD "" := by
  have hempty : Text.strip "" = "" := by decide
  cases s with
  | none => rfl
  | some s =>
    unfold orNone
    by_cases hs : s = ""
    · simp [hs, hempty]
    · simp [hs]

theorem materialAttributes_rebuilt (oid : OrderId) (mr : Option ℤ) :
    materialAttributes (buildExecutionRequest (newOrder sha256 oid req mr)) =
        materialAttributes req ↔ req.strikePrice ≠ some 0 ∧ req.instrumentType ≠ "" := by
  have hkind : Text.strip (if req.instrumentType = "" then "EQ" else req.instrumentType) =
      Text.strip req.instrumentType ↔ req.instrumentType ≠ "" := by
    by_cases h : req.instrumentType = ""
    · simp only [h, if_true, ne_eq, not_true_eq_false, iff_false]
      decide
    · simp [h]
  have hstrike : ((req.strikePrice.bind fun q => if q = 0 then none else some q).map
      Text.formatG).getD "" = (req.strikePrice.map Text.formatG).getD "" ↔
        req.strikePrice ≠ some 0 := by
    cases hq : req.strikePrice with
    | none => simp
    | some q =>
      by_cases hzero : q = 0
      · simp [hzero, Text.formatG]
      · simp [hzero]
  refine materialAttributes_inj.trans ⟨?_, ?_⟩
  · rintro ⟨htexts, -, hprice⟩
    simp only [textAttributes, List.cons.injEq] at htexts
    exact ⟨hstrike.mp hprice, hkind.mp htexts.2.2.2.2.2.2.1⟩
  · rintro ⟨hprice, htype⟩
    refine ⟨?_, rfl, hstrike.mpr hprice⟩
    simp only [textAttributes, List.cons.injEq, and_true]
    exact ⟨rfl, rfl, rfl, rfl, rfl, rfl, hkind.mpr htype, strip_orNone _, strip_orNone _⟩

def digestOf (text : String) : String :=
  if text = "u1|dhan|RELIANCE|BUY|10|MARKET|INTRADAY|EQ|||" then
    "5d3330f4e75fc9607dd937fe40629768583e455b0ed0812096d9a84901519cce"
  else if text = "u1|dhan|RELIANCE|BUY|20|MARKET|INTRADAY|EQ|||" then
    "06c2b4bb86cc2a5c7026a300aa1d06d6cc4e90f34895ae07e5ac4de535b16a10"
  else if text = "u1|dhan|NIFTY|BUY|50|MARKET|INTRADAY|FUT|2026-01-29|0|" then
    "6a99325d2cad76093f79cc601a8ce97007d32cf71d6ce41a67b93678c64a8a87"
  else "615debf886f229a1e043c6471c137ba00bf3ec13333a8c3b13fac71f90fb4d89"

theorem length_digestOf (text : String) : (digestOf text).length = 64 := by
  unfold digestOf
  split_ifs <;> decide

end Trademetrix.Oms

/-!
# What a fingerprint tells apart

The fingerprint joins the normalised attributes with bars, prints the strike to six
significant digits and keeps half of the digest. The reconciler compares the numbers of
two orders by what `%g` prints of a float and what `str` prints of an integer.
-/

namespace Trademetrix.Oms

open Execution (ExecutionRequest)
open Text (sixDigits pieces)

section Fingerprint

variable {sha256 : String → String} {a b : ExecutionRequest}

structure SameAttributes (a b : ExecutionRequest) : Prop where
  texts : textAttributes a = textAttributes b
  quantity : a.quantity = b.quantity
  strikePrice : a.strikePrice = b.strikePrice

/-- The text `intent_fingerprint` hashes. -/
def intentText (req : ExecutionRequest) : String := "|".intercalate (materialAttributes req)

/-- No bar inside an attribute moves its boundaries, the strikes differ in six significant
digits if they differ, and so do the digests in the digits that are kept. -/
structure ToldApart (sha256 : String → String) (a b : ExecutionRequest) : Prop where
  bars : pieces '|' (materialAttributes a) = pieces '|' (materialAttributes b) →
    materialAttributes a = materialAttributes b
  strikes : textAttributes a = textAttributes b → a.quantity = b.quantity →
    a.strikePrice.map sixDigits = b.strikePrice.map sixDigits → a.strikePrice = b.strikePrice
  digits : (sha256 (intentText a)).toList.take 32 = (sha256 (intentText b)).toList.take 32 →
    sha256 (intentText a) = sha256 (intentText b)

theorem strikePrice_printed {p q : Option ℚ} :
    (p.map Text.formatG).getD "" = (q.map Text.formatG).getD "" ↔
      p.map sixDigits = q.map sixDigits := by
  cases p with
  | none =>
    cases q with
    | none => simp
    | some y => simpa using (Text.formatG_ne_empty y).symm
  | some x =>
    cases q with
    | none => simpa using Text.formatG_ne_empty x
    | some y => simpa using Text.formatG_inj

theorem materialAttributes_eq_iff :
    materialAttributes a = materialAttributes b ↔
      textAttributes a = textAttributes b ∧ a.quantity = b.quantity ∧
        a.strikePrice.map sixDigits = b.strikePrice.map sixDigits := by
  rw [materialAttributes_inj, strikePrice_printed]

theorem SameAttributes.material (h : SameAttributes a b) :
    materialAttributes a = materialAttributes b :=
  materialAttributes_eq_iff.mpr ⟨h.texts, h.quantity, by rw [h.strikePrice]⟩

theorem intentText_inj :
    intentText a = intentText b ↔
      pieces '|' (materialAttributes a) = pieces '|' (materialAttributes b) :=
  Text.join_inj '|' (by simp [materialAttributes]) (by simp [materialAttributes])

theorem intentFingerprint_inj :
    intentFingerprint sha256 a = intentFingerprint sha256 b ↔
      (sha256 (intentText a)).toList.take 32 = (sha256 (intentText b)).toList.take 32 := by
  simp [intentFingerprint, intentText, String.ofList_inj]

theorem fingerprint_separates_iff
    (hsha : sha256 (intentText a) = sha256 (intentText b) → intentText a = intentText b) :
    (intentFingerprint sha256 a = intentFingerprint sha256 b ↔ SameAttributes a b) ↔
      ToldApart sha256 a b := by
  constructor
  · intro hlaw
    refine ⟨fun hpieces => ?_, fun htexts hquantity hdigits => ?_, fun hcut => ?_⟩
    · have hfp : intentFingerprint sha256 a = intentFingerprint sha256 b := by
        rw [intentFingerprint_inj, intentText_inj.mpr hpieces]
      exact (hlaw.mp hfp).material
    · have hfp : intentFingerprint sha256 a = intentFingerprint sha256 b :=
        intentFingerprint_congr (materialAttributes_eq_iff.mpr ⟨htexts, hquantity, hdigits⟩)
      exact (hlaw.mp hfp).strikePrice
    · have hsame := hlaw.mp (intentFingerprint_inj.mpr hcut)
      rw [intentText, hsame.material, ← intentText]
  · intro hapart
    refine ⟨fun hfp => ?_, fun hsame => intentFingerprint_congr hsame.material⟩
    have htext := hsha (hapart.digits (intentFingerprint_inj.mp hfp))
    obtain ⟨htexts, hquantity, hdigits⟩ :=
      materialAttributes_eq_iff.mp (hapart.bars (intentText_inj.mp htext))
    exact ⟨htexts, hquantity, hapart.strikes htexts hquantity hdigits⟩

end Fingerprint

section Numbers

namespace Scalar

def number? : Scalar → Option ℚ
  | .int n => some n
  | .float q => some q
  | _ => Option.none

def Comparable : Scalar → Scalar → Prop
  | .float q, .float r => sixDigits q = sixDigits r → q = r
  | .int n, .float q | .float q, .int n =>
    (|n| < 1000000 → sixDigits q = n → q = n) ∧ (q = n → |n| < 1000000)
  | _, _ => True

theorem int_float_iff (n : ℤ) (q : ℚ) :
    (toString n = Text.formatG q ↔ (n : ℚ) = q) ↔
      (|n| < 1000000 → sixDigits q = n → q = n) ∧ (q = n → |n| < 1000000) := by
  rw [Text.toString_eq_formatG]
  constructor
  · intro hlaw
    exact ⟨fun hn hq => (hlaw.mp ⟨hq, hn⟩).symm, fun hq => (hlaw.mpr hq.symm).2⟩
  · rintro ⟨hsame, hsmall⟩
    refine ⟨fun h => (hsame h.2 h.1).symm, ?_⟩
    rintro rfl
    exact ⟨Text.sixDigits_intCast (hsmall rfl), hsmall rfl⟩

theorem norm_eq_iff {v w : Scalar} {q r : ℚ} (hv : v.number? = some q) (hw : w.number? = some r) :
    (v.norm = w.norm ↔ q = r) ↔ Comparable v w := by
  cases v with
  | int m =>
    cases hv
    cases w with
    | int n =>
      cases hw
      simp [norm, Comparable]
    | float r =>
      cases hw
      exact int_float_iff m r
    | _ => cases hw
  | float q =>
    cases hv
    cases w with
    | int n =>
      cases hw
      rw [eq_comm (a := Scalar.norm _), eq_comm (a := q)]
      exact int_float_iff n q
    | float r =>
      cases hw
      simp only [norm, Comparable, Text.formatG_inj]
      exact ⟨Iff.mp, fun h => ⟨h, congrArg sixDigits⟩⟩
    | _ => cases hw
  | _ => cases hv

end Scalar

/-- The attributes `attributes_match` compares. -/
def KnownAs (expected : Fields) (key : String) (v : Scalar) : Prop :=
  expected.get? key = some v ∧ v ≠ .none ∧ v ≠ .str ""

theorem attributesMatch_iff {brokerOrder expected : Fields} :
    attributesMatch brokerOrder expected = true ↔
      ∀ key ∈ identityAttributes, ∀ v, KnownAs expected key v →
        (brokerOrder.get key).norm = v.norm := by
  unfold attributesMatch
  rw [List.all_eq_true]
  refine forall₂_congr fun key _ => ?_
  unfold KnownAs
  split
  · next h => simp [h]
  · next h => simp [h]
  · next h => simp [h]
  · next v hnone hempty h =>
    have hv : v ≠ .none ∧ v ≠ .str "" := ⟨hnone, hempty⟩
    simp [h, hv]

theorem Fields.get?_filter (d : Fields) {key other : String} (h : other ≠ key) :
    Fields.get? (d.filter fun p => p.1 ≠ key) other = d.get? other := by
  unfold Fields.get?
  congr 1
  induction d with
  | nil => rfl
  | cons p d ih =>
    by_cases hp : p.1 = other
    · simp [hp, h]
    · by_cases hk : p.1 = key <;> simp_all

theorem attributesMatch_number {brokerOrder expected : Fields} {key : String} {v : Scalar} {r : ℚ}
    (hkey : key ∈ identityAttributes) (hv : expected.get? key = some v) (hr : v.number? = some r)
    (hrest : attributesMatch brokerOrder (expected.filter fun p => p.1 ≠ key) = true) :
    attributesMatch brokerOrder expected = true ↔ (brokerOrder.get key).norm = v.norm := by
  have hknown : KnownAs expected key v := by
    refine ⟨hv, ?_, ?_⟩ <;> rintro rfl <;> cases hr
  rw [attributesMatch_iff] at hrest ⊢
  refine ⟨fun h => h key hkey v hknown, fun h other hmem w hw => ?_⟩
  by_cases hsame : other = key
  · subst hsame
    cases hv.symm.trans hw.1
    exact h
  · exact hrest other hmem w ⟨(Fields.get?_filter _ hsame).trans hw.1, hw.2⟩

end Numbers

/-- Requests are told apart by their fingerprints, and numbers by what they print as,
exactly as far as the two conditions reach. -/
theorem fingerprint_law (sha256 : String → String) (a b : ExecutionRequest)
    (hsha : sha256 (intentText a) = sha256 (intentText b) → intentText a = intentText b) :
    ((intentFingerprint sha256 a = intentFingerprint sha256 b ↔ SameAttributes a b) ↔
        ToldApart sha256 a b) ∧
      ∀ (brokerOrder expected : Fields) (key : String) (v : Scalar) (q r : ℚ),
        key ∈ identityAttributes → (brokerOrder.get key).number? = some q →
        expected.get? key = some v → v.number? = some r →
        attributesMatch brokerOrder (expected.filter fun p => p.1 ≠ key) = true →
          ((attributesMatch brokerOrder expected = true ↔ q = r) ↔
            (brokerOrder.get key).Comparable v) := by
  refine ⟨fingerprint_separates_iff hsha, ?_⟩
  intro brokerOrder expected key v q r hkey hq hv hr hrest
  rw [attributesMatch_number hkey hv hr hrest]
  exact Scalar.norm_eq_iff hq hr

def bought (userId broker : String) (strikePrice : Option ℚ) : ExecutionRequest :=
  { userId := userId, broker := broker, symbol := "RELIANCE", side := "BUY", quantity := 10
    strikePrice := strikePrice }

theorem fingerprint_law_quantity :
    intentFingerprint digestOf (bought "u1" "dhan" none) ≠
        intentFingerprint digestOf { bought "u1" "dhan" none with quantity := 20 } ∧
      attributesMatch [("quantity", .float 65)] [("quantity", .int 65)] = true := by
  obtain ⟨hapart, hnumbers⟩ := fingerprint_law digestOf (bought "u1" "dhan" none)
    { bought "u1" "dhan" none with quantity := 20 } (by decide)
  have hlaw := hapart.mpr ⟨by decide, fun _ _ _ => rfl, by decide⟩
  have hsmall : (Scalar.float 65).Comparable (.int 65) :=
    ⟨fun _ _ => by norm_num, fun _ => by decide⟩
  refine ⟨fun h => absurd (hlaw.mp h).quantity (by decide), ?_⟩
  exact (hnumbers [("quantity", .float 65)] [("quantity", .int 65)] "quantity" (.int 65) 65 65
    (by decide) rfl rfl (by norm_num [Scalar.number?]) (by decide)).mpr hsmall |>.mpr rfl

/-- A bar moves from one attribute into the next, two strikes differ in the seventh digit,
and a million is a number in one record and another text in the other. -/
theorem fingerprint_merges :
    (∀ sha256, intentFingerprint sha256 (bought "u1|x" "dhan" none) =
      intentFingerprint sha256 (bought "u1" "x|dhan" none)) ∧
    ¬ SameAttributes (bought "u1|x" "dhan" none) (bought "u1" "x|dhan" none) ∧
    (∀ sha256, intentFingerprint sha256 (bought "u1" "dhan" (some 1234567)) =
      intentFingerprint sha256 (bought "u1" "dhan" (some 1234568))) ∧
    ¬ SameAttributes (bought "u1" "dhan" (some 1234567)) (bought "u1" "dhan" (some 1234568)) ∧
    attributesMatch [("quantity", .float 1000000)] [("quantity", .int 1000000)] = false ∧
    attributesMatch [("drvStrikePrice", .float 1234567)] [("drvStrikePrice", .float 1234568)] =
      true := by
  have htext : intentText (bought "u1|x" "dhan" none) = intentText (bought "u1" "x|dhan" none) := by
    decide
  have hprinted : materialAttributes (bought "u1" "dhan" (some 1234567)) =
      materialAttributes (bought "u1" "dhan" (some 1234568)) := by
    decide +kernel
  refine ⟨fun sha256 => ?_, fun h => absurd h.texts (by decide), fun sha256 => ?_,
    fun h => absurd h.strikePrice (by decide), by decide +kernel, by decide +kernel⟩
  · rw [intentFingerprint_inj, htext]
  · exact intentFingerprint_congr hprinted

end Trademetrix.Oms

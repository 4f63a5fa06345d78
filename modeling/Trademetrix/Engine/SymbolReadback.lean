import Trademetrix.Engine.OptionSymbols
import Trademetrix.Engine.PlanLegs
import Trademetrix.Calendar

/-!
# Reading a compiled symbol back

The backtest reads strike and expiry off the symbols of a plan with two expressions that
search for the first match. A strike stands right behind the digits of a year.
-/

namespace Trademetrix.Engine

open OptionSymbols (isDecimal decimalValue isDecimal_of_isUpper isDecimal_of_digits)

section Search

variable {β : Type} {matches? : List Char → Option β}

/-- `re.search`: the match that starts first. -/
def search (matches? : List Char → Option β) (cs : List Char) : Option β :=
  cs.tails.findSome? matches?

theorem search_cons (c : Char) (cs : List Char) :
    search matches? (c :: cs) = (matches? (c :: cs)).or (search matches? cs) := by
  unfold search
  rw [List.tails_cons, List.findSome?_cons]
  cases matches? (c :: cs) <;> rfl

theorem exists_of_search {cs : List Char} {b : β} (h : search matches? cs = some b) :
    ∃ pre post, cs = pre ++ post ∧ matches? post = some b := by
  obtain ⟨post, hmem, hmatch⟩ := List.exists_of_findSome?_eq_some h
  obtain ⟨pre, heq⟩ := (List.mem_tails _ _).mp hmem
  exact ⟨pre, post, heq.symm, hmatch⟩

theorem search_append {pre post : List Char}
    (h : ∀ xs ys, pre = xs ++ ys → ys ≠ [] → matches? (ys ++ post) = none) :
    search matches? (pre ++ post) = search matches? post := by
  induction pre with
  | nil => rfl
  | cons c pre ih =>
    rw [List.cons_append, search_cons, ← List.cons_append,
      h [] (c :: pre) rfl (List.cons_ne_nil c pre), Option.none_or]
    exact ih fun xs ys heq hne => h (c :: xs) ys (by rw [heq, List.cons_append]) hne

theorem search_of_matches {c : Char} {cs : List Char} {b : β} (h : matches? (c :: cs) = some b) :
    search matches? (c :: cs) = some b := by
  rw [search_cons, h, Option.some_or]

end Search

section Parsers

/-- `(CE|PE)$`; the end may stand before a line break. -/
def typeAtEnd : List Char → Option OptionType
  | ['C', 'E'] => some .ce
  | ['C', 'E', '\n'] => some .ce
  | ['P', 'E'] => some .pe
  | ['P', 'E', '\n'] => some .pe
  | _ => none

/-- `float` of digits and the digits after the point, read exactly. -/
def pointedValue (ds fs : List Char) : ℚ := decimalValue ds + decimalValue fs / 10 ^ fs.length

/-- `(\d+(?:\.\d+)?)(CE|PE)$`. -/
def matchStrike (cs : List Char) : Option (ℚ × OptionType) :=
  let ds := cs.takeWhile isDecimal
  if ds = [] then none
  else
    match cs.dropWhile isDecimal with
    | '.' :: rest =>
      if rest.takeWhile isDecimal = [] then none
      else (typeAtEnd (rest.dropWhile isDecimal)).map fun t => (pointedValue ds (rest.takeWhile isDecimal), t)
    | rest => (typeAtEnd rest).map fun t => (pointedValue ds [], t)

def parseStrikeFromSymbol (symbol : String) : Option (ℚ × OptionType) :=
  search matchStrike symbol.toList

/-- `\d{2}[A-Z]{3}\d{4}`. -/
def matchExpiry : List Char → Option (List Char)
  | d₁ :: d₂ :: m₁ :: m₂ :: m₃ :: y₁ :: y₂ :: y₃ :: y₄ :: _ =>
    if [d₁, d₂, y₁, y₂, y₃, y₄].all isDecimal ∧ [m₁, m₂, m₃].all Char.isUpper then
      some [d₁, d₂, m₁, m₂, m₃, y₁, y₂, y₃, y₄]
    else none
  | _ => none

def parseExpiryFromSymbol (symbol : String) : Option String :=
  (search matchExpiry symbol.toList).map String.ofList

end Parsers

section Strikes

variable {cs ds fs : List Char} {t : OptionType} {v : ℚ}

theorem pointedValue_nonneg (ds fs : List Char) : 0 ≤ pointedValue ds fs := by
  unfold pointedValue
  positivity

theorem matchStrike_eq_some (h : matchStrike cs = some (v, t)) :
    0 ≤ v ∧ ∃ body rest, cs = body ++ rest ∧ (∀ c ∈ body, isDecimal c = true ∨ c = '.') ∧
      typeAtEnd rest = some t := by
  have hdigits : ∀ {cs : List Char}, ∀ c ∈ cs.takeWhile isDecimal, isDecimal c = true := fun _ hc =>
    List.mem_takeWhile_imp hc
  unfold matchStrike at h
  dsimp only at h
  split_ifs at h
  split at h
  · next rest hrest =>
    split_ifs at h
    obtain ⟨t', htype, heq⟩ := Option.map_eq_some_iff.mp h
    obtain ⟨rfl, rfl⟩ := Prod.mk.inj heq
    refine ⟨pointedValue_nonneg _ _, cs.takeWhile isDecimal ++ '.' :: rest.takeWhile isDecimal,
      rest.dropWhile isDecimal, ?_, fun c hc => ?_, htype⟩
    · rw [List.append_assoc, List.cons_append, List.takeWhile_append_dropWhile, ← hrest,
        List.takeWhile_append_dropWhile]
    · rcases List.mem_append.mp hc with hc | hc
      · exact .inl (hdigits c hc)
      · rcases List.mem_cons.mp hc with rfl | hc
        · exact .inr rfl
        · exact .inl (hdigits c hc)
  · obtain ⟨t', htype, heq⟩ := Option.map_eq_some_iff.mp h
    obtain ⟨rfl, rfl⟩ := Prod.mk.inj heq
    exact ⟨pointedValue_nonneg _ _, cs.takeWhile isDecimal, cs.dropWhile isDecimal,
      (List.takeWhile_append_dropWhile).symm, fun c hc => .inl (hdigits c hc), htype⟩

theorem typeAtEnd_length {rest : List Char} (h : typeAtEnd rest = some t) : rest.length ≤ 3 := by
  unfold typeAtEnd at h
  split at h <;> first | decide | cases h

theorem search_matchStrike_behind (pre : List Char) {c : Char} {post : List Char}
    (hc : isDecimal c = false) (hpoint : c ≠ '.') (hlen : 3 ≤ post.length) :
    search matchStrike (pre ++ c :: post) = search matchStrike post := by
  rw [← List.singleton_append, ← List.append_assoc]
  refine search_append fun xs ys hsplit hne => ?_
  have hlast : c ∈ ys := by
    have hget := congrArg List.getLast? hsplit
    rw [List.getLast?_append_of_ne_nil xs hne, List.getLast?_concat] at hget
    exact List.mem_of_getLast? hget.symm
  by_contra hsome
  obtain ⟨⟨v, t⟩, hmatch⟩ := Option.ne_none_iff_exists'.mp hsome
  obtain ⟨-, body, rest, heq, hbody, htype⟩ := matchStrike_eq_some hmatch
  have hrest := typeAtEnd_length htype
  have hfront : ys <+: body := by
    refine List.prefix_of_prefix_length_le ⟨post, rfl⟩ ⟨rest, heq.symm⟩ ?_
    have hlength := congrArg List.length heq
    rw [List.length_append, List.length_append] at hlength
    omega
  rcases hbody c (hfront.subset hlast) with hdigit | hdot
  · rw [hc] at hdigit
    cases hdigit
  · exact hpoint hdot

theorem value_toList (t : OptionType) : ∃ c, t.value.toList = [c, 'E'] ∧ (c = 'C' ∨ c = 'P') := by
  cases t with
  | ce => exact ⟨'C', by decide, .inl rfl⟩
  | pe => exact ⟨'P', by decide, .inr rfl⟩

theorem span_digits {c : Char} (hds : ∀ d ∈ ds, isDecimal d = true) (hc : isDecimal c = false)
    (post : List Char) : (ds ++ c :: post).takeWhile isDecimal = ds ∧
      (ds ++ c :: post).dropWhile isDecimal = c :: post := by
  have hne : ¬ isDecimal c = true := by simp [hc]
  constructor
  · rw [List.takeWhile_append_of_pos hds, List.takeWhile_cons_of_neg hne, List.append_nil]
  · rw [List.dropWhile_append_of_pos hds, List.dropWhile_cons_of_neg hne]

theorem typeAtEnd_value (t : OptionType) : typeAtEnd t.value.toList = some t := by
  cases t <;> decide

theorem matchStrike_whole (hne : ds ≠ []) (hds : ∀ d ∈ ds, isDecimal d = true) (t : OptionType) :
    matchStrike (ds ++ t.value.toList) = some (pointedValue ds [], t) := by
  obtain ⟨c, hvalue, hc⟩ := value_toList t
  have hletter : isDecimal c = false := by
    rcases hc with rfl | rfl <;> decide
  have hdot : c ≠ '.' := by
    rcases hc with rfl | rfl <;> decide
  obtain ⟨htake, hdrop⟩ := span_digits hds hletter ['E']
  have htype := typeAtEnd_value t
  unfold matchStrike
  rw [hvalue] at htype ⊢
  dsimp only
  rw [htake, hdrop, if_neg hne]
  split
  · next rest heq => exact absurd (List.cons.inj heq).1 hdot
  · rw [htype]
    rfl

theorem matchStrike_pointed (hne : ds ≠ []) (hds : ∀ d ∈ ds, isDecimal d = true) (hfne : fs ≠ [])
    (hfs : ∀ d ∈ fs, isDecimal d = true) (t : OptionType) :
    matchStrike (ds ++ '.' :: (fs ++ t.value.toList)) = some (pointedValue ds fs, t) := by
  obtain ⟨c, hvalue, hc⟩ := value_toList t
  have hletter : isDecimal c = false := by
    rcases hc with rfl | rfl <;> decide
  obtain ⟨htake, hdrop⟩ := span_digits hds (show isDecimal '.' = false by decide)
    (fs ++ t.value.toList)
  obtain ⟨htake', hdrop'⟩ := span_digits hfs hletter ['E']
  have htype := typeAtEnd_value t
  unfold matchStrike
  rw [hvalue] at htype htake hdrop ⊢
  dsimp only
  rw [htake, hdrop, if_neg hne]
  simp only [htake', hdrop', if_neg hfne, htype, Option.map_some]

theorem decimalValue_append (cs ds : List Char) :
    decimalValue (cs ++ ds) = decimalValue cs * 10 ^ ds.length + decimalValue ds := by
  induction ds using List.reverseRecOn with
  | nil => simp [decimalValue]
  | append_singleton ds d ih =>
    have hsnoc : ∀ xs : List Char, decimalValue (xs ++ [d]) =
        10 * decimalValue xs + (Text.decimal d).getD 0 := by
      intro xs
      rw [decimalValue, List.foldl_append]
      rfl
    rw [← List.append_assoc, hsnoc, hsnoc, ih, List.length_append, List.length_singleton, pow_succ]
    ring

theorem pointedValue_append (ys ds fs : List Char) :
    pointedValue (ys ++ ds) fs = decimalValue ys * 10 ^ ds.length + pointedValue ds fs := by
  unfold pointedValue
  rw [decimalValue_append]
  push_cast
  ring

/-- `repr` of a float: digits about a point, or a number from 1 to 10 and an exponent. -/
inductive FloatText : ℚ → List Char → Prop
  | plain (ds fs : List Char) : ds ≠ [] → fs ≠ [] → Text.Digits ds → Text.Digits fs →
      FloatText (pointedValue ds fs) (ds ++ '.' :: fs)
  | large (mantissa : ℚ) (cs es : List Char) : 1 ≤ mantissa → mantissa < 10 → es ≠ [] →
      Text.Digits es → 16 ≤ decimalValue es →
      FloatText (mantissa * 10 ^ decimalValue es) (cs ++ 'e' :: '+' :: es)
  | small (mantissa : ℚ) (cs es : List Char) : 1 ≤ mantissa → mantissa < 10 → es ≠ [] →
      Text.Digits es → 5 ≤ decimalValue es →
      FloatText (mantissa / 10 ^ decimalValue es) (cs ++ 'e' :: '-' :: es)
  | neg (x : ℚ) (cs : List Char) : 0 < x → FloatText x cs → FloatText (-x) ('-' :: cs)

theorem search_matchStrike_nonneg (h : search matchStrike cs = some (v, t)) : 0 ≤ v := by
  obtain ⟨-, post, -, hmatch⟩ := exists_of_search h
  exact (matchStrike_eq_some hmatch).1

theorem search_digits (hne : ds ≠ []) (hds : ∀ d ∈ ds, isDecimal d = true) (t : OptionType) :
    search matchStrike (ds ++ t.value.toList) = some (pointedValue ds [], t) := by
  have hmatch := matchStrike_whole hne hds t
  cases ds with
  | nil => exact absurd rfl hne
  | cons d ds => exact search_of_matches hmatch

theorem length_strikeText (post : List Char) (hne : post ≠ []) (t : OptionType) :
    3 ≤ (post ++ t.value.toList).length := by
  have htype : t.value.toList.length = 2 := by cases t <;> decide
  have hpos := List.length_pos_iff.mpr hne
  rw [List.length_append]
  omega

theorem search_floatText {x : ℚ} {text : List Char} (htext : FloatText x text) (pre : List Char)
    {c : Char} {ys : List Char} (hc : c.isUpper = true) (hne : ys ≠ [])
    (hys : ∀ d ∈ ys, isDecimal d = true) (hpos : 0 < decimalValue ys) (t t' : OptionType) :
    search matchStrike (pre ++ c :: (ys ++ text ++ t.value.toList)) ≠ some (x, t') := by
  have hletter := isDecimal_of_isUpper hc
  have hdot : c ≠ '.' := by
    rintro rfl
    exact absurd hc (by decide)
  intro hread
  cases htext with
  | plain ds fs hds hfs hdigits hfdigits =>
    have hdec := isDecimal_of_digits hdigits
    have hall : ∀ d ∈ ys ++ ds, isDecimal d = true := fun d hd =>
      (List.mem_append.mp hd).elim (hys d) (hdec d)
    have hmatch := matchStrike_pointed (List.append_ne_nil_of_left_ne_nil hne ds) hall hfs
      (isDecimal_of_digits hfdigits) t
    have hsplit : ys ++ (ds ++ '.' :: fs) ++ t.value.toList =
        (ys ++ ds) ++ '.' :: (fs ++ t.value.toList) := by simp
    rw [search_matchStrike_behind pre hletter hdot
      (length_strikeText _ (List.append_ne_nil_of_left_ne_nil hne _) t), hsplit] at hread
    cases ys with
    | nil => exact hne rfl
    | cons y ys =>
      rw [List.cons_append, List.cons_append] at hread
      rw [List.cons_append, List.cons_append] at hmatch
      rw [search_of_matches hmatch] at hread
      have hvalue := (Prod.mk.inj (Option.some.inj hread)).1
      rw [← List.cons_append, pointedValue_append] at hvalue
      have hplace : (0 : ℚ) < decimalValue (y :: ys) * 10 ^ ds.length := by positivity
      linarith
  | large mantissa cs es hlow hhigh hes hdigits hexp =>
    have hsplit : pre ++ c :: (ys ++ (cs ++ 'e' :: '+' :: es) ++ t.value.toList) =
        (pre ++ c :: (ys ++ cs ++ ['e'])) ++ '+' :: (es ++ t.value.toList) := by simp
    rw [hsplit, search_matchStrike_behind _ (by decide) (by decide) (length_strikeText es hes t),
      search_digits hes (isDecimal_of_digits hdigits)] at hread
    have hvalue := (Prod.mk.inj (Option.some.inj hread)).1
    have hgrow : (decimalValue es : ℚ) < 10 ^ decimalValue es := by
      exact_mod_cast Nat.lt_pow_self (by decide)
    have hpow : (0 : ℚ) < 10 ^ decimalValue es := by positivity
    have hempty : pointedValue es [] = decimalValue es := by simp [pointedValue, decimalValue]
    rw [hempty] at hvalue
    nlinarith
  | small mantissa cs es hlow hhigh hes hdigits hexp =>
    have hsplit : pre ++ c :: (ys ++ (cs ++ 'e' :: '-' :: es) ++ t.value.toList) =
        (pre ++ c :: (ys ++ cs ++ ['e'])) ++ '-' :: (es ++ t.value.toList) := by simp
    rw [hsplit, search_matchStrike_behind _ (by decide) (by decide) (length_strikeText es hes t),
      search_digits hes (isDecimal_of_digits hdigits)] at hread
    have hvalue := (Prod.mk.inj (Option.some.inj hread)).1
    have hpow : (10 : ℚ) ^ 1 ≤ 10 ^ decimalValue es :=
      pow_le_pow_right₀ (by norm_num) (by omega)
    have hexp' : (5 : ℚ) ≤ decimalValue es := by exact_mod_cast hexp
    have hempty : pointedValue es [] = decimalValue es := by simp [pointedValue, decimalValue]
    have hsmall : mantissa / 10 ^ decimalValue es < 1 := by
      rw [div_lt_one (by positivity)]
      linarith
    rw [hempty] at hvalue
    linarith
  | neg x cs hx hfloat =>
    have hvalue := search_matchStrike_nonneg hread
    linarith

theorem search_whole (n : ℤ) (pre : List Char) {c : Char} {ys : List Char} (hc : c.isUpper = true)
    (hne : ys ≠ []) (hys : ∀ d ∈ ys, isDecimal d = true) (hpos : 0 < decimalValue ys)
    (t t' : OptionType) :
    search matchStrike (pre ++ c :: (ys ++ (toString n).toList ++ t.value.toList)) ≠
      some ((n : ℚ), t') := by
  have hdot : c ≠ '.' := by
    rintro rfl
    exact absurd hc (by decide)
  intro hread
  rcases lt_or_ge n 0 with hneg | hnonneg
  · have hvalue : (0 : ℚ) ≤ n := search_matchStrike_nonneg hread
    have hneg' : (n : ℚ) < 0 := by exact_mod_cast hneg
    linarith
  · have hdigits := isDecimal_of_digits (Text.digits_toDigits n.natAbs)
    have hall : ∀ d ∈ ys ++ Nat.toDigits 10 n.natAbs, isDecimal d = true := fun d hd =>
      (List.mem_append.mp hd).elim (hys d) (hdigits d)
    rw [Text.toList_toString, if_neg (not_lt.mpr hnonneg), List.nil_append,
      search_matchStrike_behind pre (isDecimal_of_isUpper hc) hdot
        (length_strikeText _ (List.append_ne_nil_of_left_ne_nil hne _) t),
      search_digits (List.append_ne_nil_of_left_ne_nil hne _) hall] at hread
    have hvalue := (Prod.mk.inj (Option.some.inj hread)).1
    have hlt : n.natAbs < 10 ^ (Nat.toDigits 10 n.natAbs).length :=
      (Nat.length_toDigits_le_iff (by decide) Nat.length_toDigits_pos).mp le_rfl
    have hplace : 10 ^ (Nat.toDigits 10 n.natAbs).length ≤
        decimalValue ys * 10 ^ (Nat.toDigits 10 n.natAbs).length := Nat.le_mul_of_pos_left _ hpos
    have habs : ((n.natAbs : ℕ) : ℤ) = n := Int.natAbs_of_nonneg hnonneg
    have hcast : (n : ℚ) = ((n.natAbs : ℕ) : ℚ) := by rw [← Int.cast_natCast, habs]
    have hrest := pointedValue_nonneg (Nat.toDigits 10 n.natAbs) []
    have hlarge : ((n.natAbs : ℕ) : ℚ) <
        (decimalValue ys : ℚ) * 10 ^ (Nat.toDigits 10 n.natAbs).length := by
      exact_mod_cast hlt.trans_le hplace
    rw [pointedValue_append, hcast] at hvalue
    linarith

end Strikes

section Expiries

theorem decimalValue_snoc (cs : List Char) (c : Char) :
    decimalValue (cs ++ [c]) = 10 * decimalValue cs + (Text.decimal c).getD 0 := by
  rw [decimalValue, List.foldl_append]
  rfl

theorem decimalValue_eq_ofDigitChars {cs : List Char} (h : Text.Digits cs) :
    decimalValue cs = Nat.ofDigitChars 10 cs 0 := by
  induction cs using List.reverseRecOn with
  | nil => rfl
  | append_singleton cs c ih =>
    have hc := Text.decimal_digit (h c (by simp))
    rw [decimalValue_snoc, ih fun d hd => h d (List.mem_append_left _ hd), hc,
      Nat.ofDigitChars_append, Nat.ofDigitChars_cons, Nat.ofDigitChars_nil, Option.getD_some]
    rfl

theorem decimalValue_toDigits (n : ℕ) : decimalValue (Nat.toDigits 10 n) = n := by
  rw [decimalValue_eq_ofDigitChars (Text.digits_toDigits n), Nat.ofDigitChars_ten_toDigits]

theorem matchExpiry_of_not_decimal {c : Char} (hc : isDecimal c = false) (cs : List Char) :
    matchExpiry (c :: cs) = none := by
  unfold matchExpiry
  split
  · next heq =>
    obtain ⟨rfl, -⟩ := List.cons.inj heq
    exact if_neg (by simp [hc])
  · rfl

theorem resolveExpiry_eq (today : Day) (leg : UserStrategyLeg) (symbol : String)
    (htoday : 1 ≤ today.year) :
    ∃ day month year, resolveExpiry today leg symbol = expiryText day month year ∧
      (1 ≤ day ∧ day ≤ 31) ∧ (1 ≤ month ∧ month ≤ 12) ∧ today.year ≤ year ∧
        year ≤ today.year + 1 := by
  have hdays : ∀ d : Day, 1 ≤ d.dayOfMonth ∧ d.dayOfMonth ≤ 31 := fun d =>
    ⟨d.dayOfMonth_pos, d.dayOfMonth_le.trans d.daysOfMonth_bounds.2⟩
  have hmonth := today.month_bounds
  unfold resolveExpiry
  dsimp only
  cases leg.expiry with
  | weekly =>
    refine ⟨_, _, _, rfl, hdays _, Day.month_bounds _, Day.year_add htoday ?_⟩
    split <;> omega
  | nextWeekly =>
    exact ⟨_, _, _, rfl, hdays _, Day.month_bounds _, Day.year_add htoday (by omega)⟩
  | monthly =>
    dsimp only
    split
    · exact ⟨20, _, _, rfl, by decide, hmonth, le_rfl, Nat.le_succ _⟩
    · split
      · next hlt => exact ⟨20, _, _, rfl, by decide, by omega, le_rfl, Nat.le_succ _⟩
      · exact ⟨20, 1, _, rfl, by decide, by decide, Nat.le_succ _, le_rfl⟩

theorem dayDigits : ∀ day < 32, 1 ≤ day →
    ∃ a b, ((if day < 10 then "0" else "") ++ toString day).toList = [a, b] ∧ a.isDigit = true ∧
      b.isDigit = true := by
  intro day hday hpos
  have hall : ∀ day < 32, 1 ≤ day →
      ((if day < 10 then "0" else "") ++ toString day).toList.length = 2 ∧
        ((if day < 10 then "0" else "") ++ toString day).toList.all Char.isDigit = true := by
    decide
  obtain ⟨hlength, hdigits⟩ := hall day hday hpos
  obtain ⟨a, b, heq⟩ := List.length_eq_two.mp hlength
  rw [heq] at hdigits
  exact ⟨a, b, heq, by simpa using hdigits⟩

theorem monthLetters : ∀ month < 13, 1 ≤ month →
    ∃ a b c, (monthCodes.getD (month - 1) "").toList = [a, b, c] ∧ a.isUpper = true ∧
      b.isUpper = true ∧ c.isUpper = true := by
  intro month hmonth hpos
  have hall : ∀ month < 13, 1 ≤ month → (monthCodes.getD (month - 1) "").toList.length = 3 ∧
      (monthCodes.getD (month - 1) "").toList.all Char.isUpper = true := by decide
  obtain ⟨hlength, hletters⟩ := hall month hmonth hpos
  obtain ⟨a, b, c, heq⟩ := List.length_eq_three.mp hlength
  rw [heq] at hletters
  exact ⟨a, b, c, heq, by simpa using hletters⟩

theorem expiryText_toList {day month : ℕ} (hday : 1 ≤ day ∧ day ≤ 31)
    (hmonth : 1 ≤ month ∧ month ≤ 12) (year : ℕ) :
    ∃ d₁ d₂ m₁ m₂ m₃, (expiryText day month year).toList =
        d₁ :: d₂ :: m₁ :: m₂ :: m₃ :: Nat.toDigits 10 year ∧
      (d₁.isDigit = true ∧ d₂.isDigit = true) ∧
      m₁.isUpper = true ∧ m₂.isUpper = true ∧ m₃.isUpper = true := by
  obtain ⟨d₁, d₂, hdigits, hd⟩ := dayDigits day (by omega) hday.1
  obtain ⟨m₁, m₂, m₃, hletters, hm⟩ := monthLetters month (by omega) hmonth.1
  have hyear : (toString year).toList = Nat.toDigits 10 year := Nat.toList_repr
  refine ⟨d₁, d₂, m₁, m₂, m₃, ?_, hd, hm⟩
  rw [expiryText, String.toList_append, String.toList_append, hdigits, hletters, hyear]
  rfl

end Expiries

section Orders

variable {floatRepr : ℚ → String} {strategy : UserStrategy} {market : MarketData}
  {plan : ExecutionPlan}

structure ReadsBack (order : NormalizedOrder) : Prop where
  strike : ∃ strike ∈ order.strikePrice, ∃ t ∈ order.optionType,
    parseStrikeFromSymbol order.symbol = some (strike, t)
  expiry : parseExpiryFromSymbol order.symbol = order.expiryDate

variable (floatRepr strategy market) in
theorem legOrder_symbol {leg : UserStrategyLeg} (hoptions : leg.segment = .options) (lotSize : ℤ)
    (strike : Strike) :
    ∃ t : OptionType, (legOrder floatRepr strategy market lotSize strike leg).symbol.toList =
      strategy.indexSymbol.toList ++ ((resolveExpiry market.today leg strategy.indexSymbol).toList ++
        ((strike.text floatRepr).toList ++ t.value.toList)) := by
  unfold legOrder
  dsimp only
  rw [hoptions]
  by_cases hce : leg.optionType = some .ce
  · refine ⟨.ce, ?_⟩
    rw [if_pos hce]
    simp [OptionType.value]
  · refine ⟨.pe, ?_⟩
    rw [if_neg hce]
    simp [OptionType.value]

theorem not_readsBack_at {leg : UserStrategyLeg} (hoptions : leg.segment = .options)
    (htoday : 1 ≤ market.today.year) {strike : Strike}
    (hrepr : ∀ price, strike = .spot price → FloatText price (floatRepr price).toList) (lotSize : ℤ) :
    ¬ ReadsBack (legOrder floatRepr strategy market lotSize strike leg) := by
  intro hback
  obtain ⟨value, hvalue, t', -, hread⟩ := hback.strike
  obtain rfl : strike.value = value := by simpa [legOrder, hoptions] using hvalue
  obtain ⟨t, hsymbol⟩ := legOrder_symbol floatRepr strategy market hoptions lotSize strike
  obtain ⟨day, month, year, hexpiry, hday, hmonth, hyear, -⟩ :=
    resolveExpiry_eq market.today leg strategy.indexSymbol htoday
  obtain ⟨d₁, d₂, m₁, m₂, m₃, htext, -, -, -, hm⟩ := expiryText_toList hday hmonth year
  have hdigits := isDecimal_of_digits (Text.digits_toDigits year)
  have hpos : 0 < decimalValue (Nat.toDigits 10 year) := by
    rw [decimalValue_toDigits]
    omega
  unfold parseStrikeFromSymbol at hread
  have hsplit : strategy.indexSymbol.toList ++ (d₁ :: d₂ :: m₁ :: m₂ :: m₃ :: Nat.toDigits 10 year ++
        ((strike.text floatRepr).toList ++ t.value.toList)) =
      (strategy.indexSymbol.toList ++ [d₁, d₂, m₁, m₂]) ++ m₃ ::
        (Nat.toDigits 10 year ++ (strike.text floatRepr).toList ++ t.value.toList) := by simp
  rw [hsymbol, hexpiry, htext, hsplit] at hread
  cases strike with
  | whole n => exact search_whole n _ hm Nat.toDigits_ne_nil hdigits hpos t t' hread
  | spot price =>
    exact search_floatText (hrepr price rfl) _ hm Nat.toDigits_ne_nil hdigits hpos t t' hread

theorem resolveStrike_cases (symbol : String) (spot : ℚ) (chain : List ChainStrike)
    (leg : UserStrategyLeg) :
    (∃ n, resolveStrike symbol spot chain leg = .whole n) ∨
      resolveStrike symbol spot chain leg = .spot spot := by
  unfold resolveStrike
  dsimp only
  split
  · exact .inr rfl
  · exact .inl ⟨_, rfl⟩

theorem plan_not_readsBack (h : compileUserStrategy floatRepr strategy market = .ok plan)
    (htoday : 1 ≤ market.today.year) (hrepr : FloatText market.spot (floatRepr market.spot).toList) :
    ∀ order ∈ plan.orders, order.instrumentType = .opt → ¬ ReadsBack order := by
  obtain ⟨-, horders⟩ := compileUserStrategy_spec h
  rw [horders, List.forall_mem_map]
  intro leg hleg hinstrument
  have hoptions : leg.segment = .options := by
    by_contra hne
    simp [legOrder, hne] at hinstrument
  obtain ⟨last, hlast⟩ := exists_lastOf hleg
  rw [get_resolveStrikes, hlast, Option.map_some, Option.getD_some]
  refine not_readsBack_at hoptions htoday (fun price hprice => ?_) _
  rcases resolveStrike_cases strategy.indexSymbol market.spot (market.chain.getD []) last with
    ⟨n, hwhole⟩ | hspot
  · rw [hwhole] at hprice
    cases hprice
  · rw [hspot] at hprice
    rw [← Strike.spot.inj hprice]
    exact hrepr

/-- Neither an option order of a plan reads back nor the order of an option leg at any strike. -/
theorem not_readsBack (htoday : 1 ≤ market.today.year) :
    (∀ plan, compileUserStrategy floatRepr strategy market = .ok plan →
      FloatText market.spot (floatRepr market.spot).toList →
      ∀ order ∈ plan.orders, order.instrumentType = .opt → ¬ ReadsBack order) ∧
    ∀ (leg : UserStrategyLeg) (strike : Strike) (lotSize : ℤ), leg.segment = .options →
      (∀ price, strike = .spot price → FloatText price (floatRepr price).toList) →
      ¬ ReadsBack (legOrder floatRepr strategy market lotSize strike leg) :=
  ⟨fun _ hplan hrepr => plan_not_readsBack hplan htoday hrepr,
    fun _ _ lotSize hoptions hrepr => not_readsBack_at hoptions htoday hrepr lotSize⟩

/-- A fractional strike, on 18 November 2025. -/
theorem not_readsBack_fractional :
    ¬ ReadsBack (legOrder (fun _ => "25000.5") (niftyStrategy [offsetLeg 1 .ce 0]) niftyMarket 75
      (.spot (25000 + 5 / 10)) (offsetLeg 1 .ce 0)) := by
  refine (not_readsBack (by decide)).2 _ _ 75 rfl fun price hprice => ?_
  obtain rfl : (25000 + 5 / 10 : ℚ) = price := Strike.spot.inj hprice
  have hdigits : Text.Digits ['2', '5', '0', '0', '0'] := by
    simp [Text.Digits]
  have hfraction : Text.Digits ['5'] := by
    simp [Text.Digits]
  have hfloat := FloatText.plain _ _ (List.cons_ne_nil _ _) (List.cons_ne_nil _ _) hdigits hfraction
  have hvalue : pointedValue ['2', '5', '0', '0', '0'] ['5'] = 25000 + 5 / 10 := by
    have hwhole : decimalValue ['2', '5', '0', '0', '0'] = 25000 := by decide
    have hfraction : decimalValue ['5'] = 5 := by decide
    simp [pointedValue, hwhole, hfraction]
  rw [hvalue] at hfloat
  exact hfloat

theorem straddle_not_readsBack :
    ¬ ∀ (timeOf : String → Option ℕ) (floatRepr : ℚ → String) (strategy : UserStrategy)
        (market : MarketData) (plan : ExecutionPlan),
      validateUserStrategy timeOf strategy = .ok () →
      compileUserStrategy floatRepr strategy market = .ok plan →
      ∀ order ∈ plan.orders, order.instrumentType = .opt → ReadsBack order := by
  intro h
  have hread := h (fun t => if t = "09:20" then some 33600 else some 54900) (fun _ => "")
    (niftyStrategy [offsetLeg 1 .ce 0]) niftyMarket _ (by decide) rfl _ List.mem_cons_self rfl
  have hstrike : ((resolveStrikes [offsetLeg 1 .ce 0] "NIFTY" 25000
      (niftyMarket.chain.getD [])).get 1).getD (.spot 25000) = .whole 25000 := by decide +kernel
  have hback : ReadsBack (legOrder (fun _ => "") (niftyStrategy [offsetLeg 1 .ce 0]) niftyMarket 75
      (.whole 25000) (offsetLeg 1 .ce 0)) := by
    rw [← hstrike]
    exact hread
  obtain ⟨strike, hvalue, t, -, hparse⟩ := hback.strike
  obtain rfl : (25000 : ℚ) = strike := Option.some.inj hvalue
  have hsymbol : (legOrder (fun _ => "") (niftyStrategy [offsetLeg 1 .ce 0]) niftyMarket 75
      (.whole 25000) (offsetLeg 1 .ce 0)).symbol = "NIFTY25NOV202525000CE" := by decide
  have hyear : parseStrikeFromSymbol "NIFTY25NOV202525000CE" = some (202525000, .ce) := by
    decide +kernel
  rw [hsymbol, hyear] at hparse
  exact absurd (Prod.mk.inj (Option.some.inj hparse)).1 (by norm_num)

theorem parseExpiryFromSymbol_legOrder {leg : UserStrategyLeg} (hoptions : leg.segment = .options)
    (hname : ∀ c ∈ strategy.indexSymbol.toList, isDecimal c = false)
    (htoday : 1000 ≤ market.today.year ∧ market.today.year < 9999) (lotSize : ℤ) (strike : Strike) :
    parseExpiryFromSymbol (legOrder floatRepr strategy market lotSize strike leg).symbol =
      (legOrder floatRepr strategy market lotSize strike leg).expiryDate := by
  obtain ⟨t, hsymbol⟩ := legOrder_symbol floatRepr strategy market hoptions lotSize strike
  obtain ⟨day, month, year, hexpiry, hday, hmonth, hyear, hyear'⟩ :=
    resolveExpiry_eq market.today leg strategy.indexSymbol (by omega)
  obtain ⟨d₁, d₂, m₁, m₂, m₃, htext, hd, hm⟩ := expiryText_toList hday hmonth year
  have hlength : (Nat.toDigits 10 year).length = 4 := by
    have hle := (Nat.length_toDigits_le_iff (b := 10) (n := year) (k := 4) (by decide)
      (by decide)).mpr (by omega)
    have hgt := mt (Nat.length_toDigits_le_iff (b := 10) (n := year) (k := 3) (by decide)
      (by decide)).mp (by omega)
    omega
  obtain ⟨y₁, y₂, y₃, y₄, hy⟩ : ∃ y₁ y₂ y₃ y₄, Nat.toDigits 10 year = [y₁, y₂, y₃, y₄] := by
    match hdigits : Nat.toDigits 10 year, hlength with
    | [y₁, y₂, y₃, y₄], _ => exact ⟨y₁, y₂, y₃, y₄, rfl⟩
  have hdecimal := isDecimal_of_digits (Text.digits_toDigits year)
  rw [hy] at htext hdecimal
  have hmatch : ∀ post, matchExpiry (d₁ :: d₂ :: m₁ :: m₂ :: m₃ :: y₁ :: y₂ :: y₃ :: y₄ :: post) =
      some [d₁, d₂, m₁, m₂, m₃, y₁, y₂, y₃, y₄] := by
    intro post
    unfold matchExpiry
    refine if_pos ⟨?_, by simp [hm]⟩
    simp only [List.forall_mem_cons] at hdecimal
    have hday₁ : isDecimal d₁ = true := Text.decimal_of_isDigit hd.1
    have hday₂ : isDecimal d₂ = true := Text.decimal_of_isDigit hd.2
    simp [hdecimal, hday₁, hday₂]
  have hexpiryDate : (legOrder floatRepr strategy market lotSize strike leg).expiryDate =
      some (resolveExpiry market.today leg strategy.indexSymbol) := by simp [legOrder, hoptions]
  have hunderlying : ∀ xs ys post, strategy.indexSymbol.toList = xs ++ ys → ys ≠ [] →
      matchExpiry (ys ++ post) = none := by
    intro xs ys post hsplit hne
    cases ys with
    | nil => exact absurd rfl hne
    | cons c ys =>
      have hc := hname c (by simp [hsplit])
      exact matchExpiry_of_not_decimal hc _
  unfold parseExpiryFromSymbol
  rw [hsymbol, search_append fun xs ys hsplit hne => hunderlying xs ys _ hsplit hne, hexpiryDate,
    hexpiry, htext]
  simp only [List.cons_append, List.nil_append]
  rw [search_of_matches (hmatch _), Option.map_some, ← htext, String.ofList_toList]

end Orders

end Trademetrix.Engine

import Trademetrix.Backtest.Loads

/-!
# What a load is for

The result has one candle to an instant, in order: of those fetched the last, or else
that of the store, as far as they are in the range that is used. A second load, from
the cache or from the store, has the same candles.
-/

namespace Trademetrix.Backtest

section Purpose

variable (clock : UtcClock) (req : LoadRequest) (stored : Answer clock req) (fetched : List LoadedCandle)

def winner (stored fetched : List LoadedCandle) (t : ℤ) : Option LoadedCandle :=
  ((fetched.filter fun c => c.ts clock = t).getLast?).or (stored.find? fun c => c.ts clock = t)

def unionAt (t : ℤ) : Option LoadedCandle :=
  winner clock stored.candles (obtained clock req stored.candles fetched) t

def lowerEnd (raw : List LoadedCandle) : ℤ :=
  if (trimRange clock req req.startDt raw).length < 2 ∧ req.widens then req.fetchStart else req.startDt

def inUse (raw : List LoadedCandle) (c : LoadedCandle) : Bool :=
  inRange (c.ts clock) c.interval (lowerEnd clock req raw - margin raw) (req.endDt + margin raw)

def Due (c : LoadedCandle) : Prop :=
  unionAt clock req stored fetched (c.ts clock) = some c ∧
    inUse clock req (merged clock req stored.candles fetched) c = true

def LoadedCandle.values (c : LoadedCandle) : ℤ × ℚ × ℚ × ℚ × ℚ × ℤ × ℤ :=
  (c.ts clock, c.openPrice, c.high, c.low, c.close, c.volume, c.oi)

/-- The first load of a process, and another after the store has taken batches of the rows, with the
cache that the first leaves and with none. -/
structure Faithful (accepted : ℕ) : Prop where
  increasing : (load clock req [] stored fetched).1.Pairwise fun a b => a.ts clock < b.ts clock
  union : ∀ c, c ∈ (load clock req [] stored fetched).1 ↔ Due clock req stored fetched c
  again : ∀ cache ∈ [(load clock req [] stored fetched).2, []],
    ((load clock req cache (stored.after accepted fetched) fetched).1.map (LoadedCandle.values clock)).Perm
      ((load clock req [] stored fetched).1.map (LoadedCandle.values clock))

def Regained (accepted : ℕ) (c : LoadedCandle) : Prop :=
  (needsFetch clock req (stored.after accepted fetched).candles = true ∧
      c ∈ obtained clock req stored.candles fetched) ∨
    ∃ row ∈ (stored.after accepted fetched).candles, row.values clock = c.values clock

/-- The texts of the candles are in the order of the instants, each is there again for the next
load, and both loads use a range that has the candles of an instant or has not. -/
structure OrderedAndKept (accepted : ℕ) : Prop where
  texts : ∀ a b, Due clock req stored fetched a → Due clock req stored fetched b →
    a.ts clock < b.ts clock → a.timestamp < b.timestamp
  regained : ∀ c, Due clock req stored fetched c → Regained clock req stored fetched accepted c
  ranges : ∀ t a b, unionAt clock req stored fetched t = some a →
    unionAt clock req (stored.after accepted fetched) fetched t = some b →
      (inUse clock req (merged clock req stored.candles fetched) a = true ↔
        inUse clock req (merged clock req (stored.after accepted fetched).candles fetched) b = true)

end Purpose

variable {clock : UtcClock} {req : LoadRequest} {stored : Answer clock req} {fetched : List LoadedCandle}
  {candles more raw : List LoadedCandle} {c : LoadedCandle} {t : ℤ}

section Union

theorem get_setdefault (d : Dict ℤ LoadedCandle) (k q : ℤ) (c : LoadedCandle) :
    (setdefault d k c).get q = (d.get q).or (if q = k then some c else none) := by
  unfold setdefault
  split
  · next hsome =>
    by_cases hq : q = k
    · rw [hq, Option.or_of_isSome hsome]
    · rw [if_neg hq, Option.or_none]
  · next hnone =>
    rw [Dict.get_set]
    by_cases hq : q = k
    · rw [if_pos hq, if_pos hq, hq, Option.not_isSome_iff_eq_none.mp hnone, Option.none_or]
    · rw [if_neg hq, if_neg hq, Option.or_none]

theorem get_setdefaults (d : Dict ℤ LoadedCandle) (candles : List LoadedCandle) (t : ℤ) :
    (candles.foldl (fun d c => setdefault d (c.ts clock) c) d).get t =
      (d.get t).or (candles.find? fun c => c.ts clock = t) := by
  induction candles generalizing d with
  | nil => rw [List.foldl_nil, List.find?_nil, Option.or_none]
  | cons c candles ih =>
    rw [List.foldl_cons, ih, get_setdefault, Option.or_assoc, List.find?_cons]
    by_cases ht : t = c.ts clock
    · simp [ht]
    · simp [ht, Ne.symm ht]

theorem get_byTs (candles more : List LoadedCandle) (t : ℤ) :
    (byTs clock candles more).get t = winner clock candles more t := by
  have hlast : (Dict.update [] (more.map fun c => (c.ts clock, c))).get t =
      (more.filter fun c => c.ts clock = t).getLast? :=
    (Dict.get_update_filter more (LoadedCandle.ts clock) id t).trans (congrFun Option.map_id _)
  unfold byTs winner
  rw [Dict.get_update, hlast, get_setdefaults]
  split
  · next hmem =>
    obtain ⟨p, hp, hpt⟩ := List.mem_map.mp hmem
    obtain ⟨c, hc, rfl⟩ := List.mem_map.mp hp
    have hne : (more.filter fun c => c.ts clock = t) ≠ [] :=
      List.ne_nil_of_mem (List.mem_filter.mpr ⟨hc, decide_eq_true hpt⟩)
    rw [Option.or_of_isSome (List.getLast?_isSome.mpr hne)]
  · next hmem =>
    have hnil : (more.filter fun c => c.ts clock = t) = [] := by
      rw [List.filter_eq_nil_iff]
      intro c hc ht
      exact hmem (List.mem_map.mpr ⟨_, List.mem_map_of_mem hc, of_decide_eq_true ht⟩)
    rw [hnil]
    simp [Dict.get]

theorem nodup_keys_byTs (candles more : List LoadedCandle) :
    ((byTs clock candles more).map Prod.fst).Nodup := by
  refine Dict.nodup_keys_update ?_ _
  have hfold : ∀ d : Dict ℤ LoadedCandle, (d.map Prod.fst).Nodup →
      ((candles.foldl (fun d c => setdefault d (c.ts clock) c) d).map Prod.fst).Nodup := by
    induction candles with
    | nil => exact fun d hd => hd
    | cons c candles ih =>
      intro d hd
      refine ih _ ?_
      dsimp only [setdefault]
      split
      · exact hd
      · exact Dict.nodup_keys_set hd _ _
  exact hfold [] List.nodup_nil

theorem ts_of_winner (h : winner clock candles more t = some c) : c.ts clock = t := by
  unfold winner at h
  obtain h | ⟨-, h⟩ := Option.or_eq_some_iff.mp h
  · exact of_decide_eq_true (List.mem_filter.mp (List.mem_of_getLast? h)).2
  · have ht := List.find?_some h
    rwa [decide_eq_true_eq] at ht

theorem mem_byTs_values : c ∈ (byTs clock candles more).values ↔ winner clock candles more (c.ts clock) = some c := by
  have hnodup : ((byTs clock candles more).map Prod.fst).Nodup := nodup_keys_byTs candles more
  rw [← get_byTs, Dict.values, List.mem_map]
  constructor
  · rintro ⟨⟨k, v⟩, hp, rfl⟩
    have hget := Dict.get_of_mem hnodup hp
    rw [get_byTs] at hget ⊢
    rwa [ts_of_winner hget]
  · intro hget
    exact ⟨_, Dict.mem_of_get hget, rfl⟩

theorem nodup_byTs_values (candles more : List LoadedCandle) :
    ((byTs clock candles more).values.map (LoadedCandle.ts clock)).Nodup := by
  have hnodup : ((byTs clock candles more).map Prod.fst).Nodup := nodup_keys_byTs candles more
  have hkeys : (byTs clock candles more).values.map (LoadedCandle.ts clock) =
      (byTs clock candles more).map Prod.fst := by
    rw [Dict.values, List.map_map]
    refine List.map_congr_left fun p hp => ?_
    have hget := Dict.get_of_mem hnodup hp
    rw [get_byTs] at hget
    exact ts_of_winner hget
  rwa [hkeys]

theorem perm_sortByText (candles : List LoadedCandle) : (sortByText candles).Perm candles :=
  List.perm_insertionSort _ _

theorem winner_stored (stored : Answer clock req) :
    winner clock stored.candles [] (c.ts clock) = some c ↔ c ∈ stored.candles := by
  have hwinner : winner clock stored.candles [] (c.ts clock) =
      stored.candles.find? fun d => d.ts clock = c.ts clock := by
    simp [winner]
  rw [hwinner, find?_key_iff stored.nodup]
  exact and_iff_left rfl

theorem mem_merged : c ∈ merged clock req stored.candles fetched ↔
    winner clock stored.candles (obtained clock req stored.candles fetched) (c.ts clock) = some c := by
  unfold merged
  dsimp only
  split
  · next hnil => rw [hnil, winner_stored]
  · rw [(perm_sortByText _).mem_iff, mem_byTs_values]

theorem nodup_merged : ((merged clock req stored.candles fetched).map (LoadedCandle.ts clock)).Nodup := by
  unfold merged
  dsimp only
  split
  · exact stored.nodup
  · exact ((perm_sortByText _).map _).nodup_iff.mpr (nodup_byTs_values _ _)

end Union

section Selection

theorem trimRange_sublist {a b : ℤ} (h : b ≤ a) (raw : List LoadedCandle) :
    (trimRange clock req a raw).Sublist (trimRange clock req b raw) := by
  refine List.monotone_filter_right raw fun c hc => ?_
  unfold inRange at hc ⊢
  rw [decide_eq_true_eq] at hc ⊢
  exact ⟨by omega, hc.2⟩

theorem fetchStart_le (req : LoadRequest) : req.fetchStart ≤ req.startDt := by
  unfold LoadRequest.fetchStart dayLength
  split <;> omega

theorem selected_eq (raw : List LoadedCandle) :
    selected clock req raw = trimRange clock req (lowerEnd clock req raw) raw := by
  unfold selected lowerEnd
  dsimp only
  split
  · split
    · rfl
    · next hlen =>
      exact (trimRange_sublist (fetchStart_le req) raw).eq_of_length_le (not_lt.mp hlen)
  · rfl

theorem selected_eq_filter (raw : List LoadedCandle) :
    selected clock req raw = raw.filter fun c => inUse clock req raw c :=
  selected_eq raw

theorem mem_selected : c ∈ selected clock req raw ↔ c ∈ raw ∧ inUse clock req raw c = true := by
  rw [selected_eq_filter, List.mem_filter]

theorem selected_sublist (raw : List LoadedCandle) : (selected clock req raw).Sublist raw := by
  rw [selected_eq_filter]
  exact List.filter_sublist

theorem due_iff : Due clock req stored fetched c ↔
    c ∈ selected clock req (merged clock req stored.candles fetched) := by
  rw [mem_selected, mem_merged]
  rfl

end Selection

section Loading

theorem load_fresh : (load clock req [] stored fetched).1 =
    sortByText (selected clock req (merged clock req stored.candles fetched)) := by
  unfold load
  cases req.forceRefresh <;> rfl

theorem mem_load : c ∈ (load clock req [] stored fetched).1 ↔ Due clock req stored fetched c := by
  rw [load_fresh, (perm_sortByText _).mem_iff, due_iff]

theorem increasing_iff_texts :
    (load clock req [] stored fetched).1.Pairwise (fun a b => a.ts clock < b.ts clock) ↔
      ∀ a b, Due clock req stored fetched a → Due clock req stored fetched b →
        a.ts clock < b.ts clock → a.timestamp < b.timestamp := by
  have hnodup : ((selected clock req (merged clock req stored.candles fetched)).map (LoadedCandle.ts clock)).Nodup :=
    nodup_merged.sublist ((selected_sublist _).map _)
  have htext : ∀ a b : LoadedCandle, a.timestamp = b.timestamp → a.ts clock = b.ts clock :=
    fun a b h => congrArg clock.normalizeTs h
  rw [load_fresh, sortByText, insertionSort_increasing_iff htext hnodup]
  simp only [due_iff]
  constructor
  · exact fun h a b ha hb => h a ha b hb
  · exact fun h a ha b hb => h a b ha hb

theorem ts_of_values (a b : LoadedCandle) (h : a.values clock = b.values clock) : a.ts clock = b.ts clock :=
  congrArg Prod.fst h

end Loading

section Reloading

variable {accepted : ℕ}

theorem winner_isSome {candles more : List LoadedCandle} {t : ℤ}
    (h : ∃ c, (c ∈ more ∨ c ∈ candles) ∧ c.ts clock = t) : ∃ m, winner clock candles more t = some m := by
  obtain ⟨c, hc | hc, ht⟩ := h
  · have hne : (more.filter fun c => c.ts clock = t) ≠ [] :=
      List.ne_nil_of_mem (List.mem_filter.mpr ⟨hc, decide_eq_true ht⟩)
    refine Option.isSome_iff_exists.mp ?_
    rw [winner, Option.or_of_isSome (List.getLast?_isSome.mpr hne)]
    exact List.getLast?_isSome.mpr hne
  · refine Option.isSome_iff_exists.mp ?_
    rw [winner, Option.isSome_or, Bool.or_eq_true]
    right
    rw [List.find?_isSome]
    exact ⟨c, hc, decide_eq_true ht⟩

theorem mem_written {candles : List LoadedCandle} (h : c ∈ writtenRows clock accepted candles) : c ∈ candles := by
  obtain ⟨batch, hbatch, hc⟩ := List.mem_flatten.mp h
  have hmem := (List.takeWhile_subset _) (List.mem_of_mem_take hbatch)
  obtain ⟨i, -, rfl⟩ := List.mem_map.mp hmem
  exact List.mem_of_mem_drop (List.mem_of_mem_take hc)

theorem ts_putRows {rows written : List LoadedCandle} (h : c ∈ written.foldl (putRow clock) rows) :
    ∃ d, (d ∈ written ∨ d ∈ rows) ∧ d.ts clock = c.ts clock := by
  induction written generalizing rows with
  | nil => exact ⟨c, Or.inr h, rfl⟩
  | cons w written ih =>
    obtain ⟨d, hd | hd, hts⟩ := ih h
    · exact ⟨d, Or.inl (List.mem_cons_of_mem _ hd), hts⟩
    · obtain hd | hd := List.mem_append.mp hd
      · exact ⟨d, Or.inr (List.mem_filter.mp hd).1, hts⟩
      · rw [List.mem_singleton.mp hd, ts_row] at hts
        exact ⟨w, Or.inl List.mem_cons_self, hts⟩

theorem ts_after (h : c ∈ (stored.after accepted fetched).candles) :
    ∃ d, (d ∈ obtained clock req stored.candles fetched ∨ d ∈ stored.candles) ∧ d.ts clock = c.ts clock := by
  have hrows := (List.mem_filter.mp (Answer.mem_sortedRows h)).1
  obtain ⟨d, hd | hd, hts⟩ := ts_putRows hrows
  · exact ⟨d, Or.inl (mem_written hd), hts⟩
  · exact ⟨d, Or.inr hd, hts⟩

theorem after_of_not_fetched (h : obtained clock req stored.candles fetched = []) :
    (stored.after accepted fetched).candles = stored.candles := by
  have hwritten : writtenRows clock accepted ([] : List LoadedCandle) = [] := by
    simp [writtenRows, batches]
  unfold Answer.after Answer.rowsAfter
  dsimp only
  rw [h, hwritten, List.foldl_nil,
    List.filter_eq_self.mpr fun c hc => decide_eq_true ⟨stored.asked c hc, stored.within c hc⟩,
    List.Pairwise.insertionSort_eq (stored.ordered.imp le_of_lt),
    List.take_of_length_le stored.limited]

theorem obtained_after : obtained clock req (stored.after accepted fetched).candles fetched =
    if needsFetch clock req (stored.after accepted fetched).candles then
      obtained clock req stored.candles fetched
    else [] := by
  by_cases hfirst : needsFetch clock req stored.candles = true
  · simp only [obtained, hfirst, if_true]
  · have hnil : obtained clock req stored.candles fetched = [] := by rw [obtained, if_neg hfirst]
    rw [after_of_not_fetched hnil, hnil, if_neg hfirst]

theorem mem_of_winner {candles more : List LoadedCandle} (h : winner clock candles more t = some c) :
    c ∈ more ∨ c ∈ candles := by
  obtain h | ⟨-, h⟩ := Option.or_eq_some_iff.mp h
  · exact Or.inl (List.mem_filter.mp (List.mem_of_getLast? h)).1
  · exact Or.inr (List.mem_of_find?_eq_some h)

theorem winner_fetched {candles more : List LoadedCandle} (others : List LoadedCandle)
    (h : winner clock candles more t = some c) (hmore : ∃ r ∈ more, r.ts clock = t) : c ∈ more ∧ winner clock others more t = some c := by
  obtain ⟨r, hr, ht⟩ := hmore
  have hne : (more.filter fun c => c.ts clock = t) ≠ [] :=
    List.ne_nil_of_mem (List.mem_filter.mpr ⟨hr, decide_eq_true ht⟩)
  have hsome := List.getLast?_isSome.mpr hne
  rw [winner, Option.or_of_isSome hsome] at h
  refine ⟨(List.mem_filter.mp (List.mem_of_getLast? h)).1, ?_⟩
  rw [winner, Option.or_of_isSome hsome, h]

theorem merged_after {r : LoadedCandle} (hr : r ∈ merged clock req (stored.after accepted fetched).candles fetched) :
    ∃ m ∈ merged clock req stored.candles fetched, m.ts clock = r.ts clock := by
  have hsource : ∃ d, (d ∈ obtained clock req stored.candles fetched ∨ d ∈ stored.candles) ∧
      d.ts clock = r.ts clock := by
    obtain hmore | hstored := mem_of_winner (mem_merged.mp hr)
    · rw [obtained_after] at hmore
      split at hmore
      · exact ⟨r, Or.inl hmore, rfl⟩
      · cases hmore
    · exact ts_after hstored
  obtain ⟨m, hm⟩ := winner_isSome hsource
  have hts := ts_of_winner hm
  exact ⟨m, mem_merged.mpr (hts ▸ hm), hts⟩

theorem regained_iff (hc : c ∈ merged clock req stored.candles fetched) :
    (∃ r ∈ merged clock req (stored.after accepted fetched).candles fetched, r.values clock = c.values clock) ↔
      Regained clock req stored fetched accepted c := by
  have hwinner := mem_merged.mp hc
  have hagain : needsFetch clock req (stored.after accepted fetched).candles = true →
      (∃ r ∈ obtained clock req stored.candles fetched, r.ts clock = c.ts clock) →
        c ∈ obtained clock req stored.candles fetched ∧
          c ∈ merged clock req (stored.after accepted fetched).candles fetched := by
    intro hneeds hmore
    have hsame : obtained clock req (stored.after accepted fetched).candles fetched =
        obtained clock req stored.candles fetched := by rw [obtained_after, if_pos hneeds]
    obtain ⟨hmem, hlast⟩ := winner_fetched (stored.after accepted fetched).candles hwinner hmore
    exact ⟨hmem, mem_merged.mpr (hsame ▸ hlast)⟩
  constructor
  · rintro ⟨r, hr, hvalues⟩
    obtain hmore | hstored := mem_of_winner (mem_merged.mp hr)
    · rw [obtained_after] at hmore
      split at hmore
      · next hneeds => exact Or.inl ⟨hneeds, (hagain hneeds ⟨r, hmore, ts_of_values _ _ hvalues⟩).1⟩
      · cases hmore
    · exact Or.inr ⟨r, hstored, hvalues⟩
  · rintro (⟨hneeds, hmem⟩ | ⟨row, hrow, hvalues⟩)
    · exact ⟨c, (hagain hneeds ⟨c, hmem, rfl⟩).2, rfl⟩
    · by_cases hmore : needsFetch clock req (stored.after accepted fetched).candles = true ∧
          ∃ r ∈ obtained clock req stored.candles fetched, r.ts clock = c.ts clock
      · exact ⟨c, (hagain hmore.1 hmore.2).2, rfl⟩
      · refine ⟨row, mem_merged.mpr ?_, hvalues⟩
        have hnone : (obtained clock req (stored.after accepted fetched).candles fetched).filter
            (fun d => d.ts clock = row.ts clock) = [] := by
          rw [List.filter_eq_nil_iff]
          intro d hd hts
          rw [obtained_after] at hd
          split at hd
          · next hneeds =>
            exact hmore ⟨hneeds, d, hd, (of_decide_eq_true hts).trans (ts_of_values _ _ hvalues)⟩
          · cases hd
        have hrowWinner := (winner_stored (stored.after accepted fetched)).mpr hrow
        rw [winner] at hrowWinner ⊢
        rwa [hnone]

theorem load_perm (fetched : List LoadedCandle) (a : Answer clock req) :
    (load clock req [] a fetched).1.Perm (selected clock req (merged clock req a.candles fetched)) := by
  rw [load_fresh]
  exact perm_sortByText _

theorem load_cached (stored a : Answer clock req) :
    (load clock req (load clock req [] stored fetched).2 a fetched).1 = (load clock req [] stored fetched).1 ∨
      (load clock req (load clock req [] stored fetched).2 a fetched).1 = (load clock req [] a fetched).1 := by
  cases hforce : req.forceRefresh with
  | true =>
    right
    simp [load, hforce]
  | false =>
    have hcache : (load clock req [] stored fetched).2 =
        if (load clock req [] stored fetched).1 = [] then []
        else Dict.set [] (req.cacheKey clock) (load clock req [] stored fetched).1 := by
      simp [load, hforce, cacheLimit, Dict.get]
    rw [hcache]
    split
    · exact Or.inr rfl
    · left
      generalize (load clock req [] stored fetched).1 = candles
      simp [load, hforce, Dict.get_set]

theorem unionAt_iff (a : Answer clock req) :
    unionAt clock req a fetched t = some c ↔ c ∈ merged clock req a.candles fetched ∧ c.ts clock = t := by
  constructor
  · intro h
    have hts := ts_of_winner h
    exact ⟨mem_merged.mpr (hts ▸ h), hts⟩
  · rintro ⟨hc, rfl⟩
    exact mem_merged.mp hc

theorem regained_iff_selected :
    (∀ c ∈ selected clock req (merged clock req stored.candles fetched),
      ∃ r ∈ merged clock req (stored.after accepted fetched).candles fetched, r.values clock = c.values clock) ↔
      ∀ c, Due clock req stored fetched c → Regained clock req stored fetched accepted c := by
  refine forall_congr' fun c => ?_
  rw [due_iff]
  exact forall_congr' fun hc => regained_iff (mem_selected.mp hc).1

theorem ranges_iff (b : Answer clock req) :
    (∀ m ∈ merged clock req stored.candles fetched, ∀ r ∈ merged clock req b.candles fetched,
      m.ts clock = r.ts clock →
        (inUse clock req (merged clock req stored.candles fetched) m = true ↔
          inUse clock req (merged clock req b.candles fetched) r = true)) ↔
      ∀ t m r, unionAt clock req stored fetched t = some m → unionAt clock req b fetched t = some r →
        (inUse clock req (merged clock req stored.candles fetched) m = true ↔
          inUse clock req (merged clock req b.candles fetched) r = true) := by
  simp only [unionAt_iff]
  constructor
  · rintro h t m r ⟨hm, hmt⟩ ⟨hr, hrt⟩
    exact h m hm r hr (hmt.trans hrt.symm)
  · intro h m hm r hr hts
    exact h _ m r ⟨hm, rfl⟩ ⟨hr, hts.symm⟩

theorem again_iff :
    (∀ cache ∈ [(load clock req [] stored fetched).2, []],
      ((load clock req cache (stored.after accepted fetched) fetched).1.map (LoadedCandle.values clock)).Perm
        ((load clock req [] stored fetched).1.map (LoadedCandle.values clock))) ↔
      ((load clock req [] (stored.after accepted fetched) fetched).1.map (LoadedCandle.values clock)).Perm
        ((load clock req [] stored fetched).1.map (LoadedCandle.values clock)) := by
  constructor
  · exact fun h => h [] (by simp)
  · intro h cache hcache
    obtain rfl | hcache := List.mem_cons.mp hcache
    · obtain hsame | hsame := load_cached stored (stored.after accepted fetched)
      · rw [hsame]
      · rw [hsame]
        exact h
    · rw [List.mem_singleton.mp hcache]
      exact h

theorem load_perm_iff :
    ((load clock req [] (stored.after accepted fetched) fetched).1.map (LoadedCandle.values clock)).Perm
        ((load clock req [] stored fetched).1.map (LoadedCandle.values clock)) ↔
      (∀ c ∈ selected clock req (merged clock req stored.candles fetched),
        ∃ r ∈ merged clock req (stored.after accepted fetched).candles fetched, r.values clock = c.values clock) ∧
      ∀ m ∈ merged clock req stored.candles fetched,
        ∀ r ∈ merged clock req (stored.after accepted fetched).candles fetched, m.ts clock = r.ts clock →
          (inUse clock req (merged clock req stored.candles fetched) m = true ↔
            inUse clock req (merged clock req (stored.after accepted fetched).candles fetched) r = true) := by
  have hfirst := (load_perm fetched stored).map (LoadedCandle.values clock)
  have hsecond := (load_perm fetched (stored.after accepted fetched)).map (LoadedCandle.values clock)
  rw [hsecond.congr_left, hfirst.congr_right]
  simp only [selected_eq_filter, List.mem_filter, and_imp]
  exact filter_values_perm_iff ts_of_values nodup_merged nodup_merged fun r hr => merged_after hr

end Reloading

/-- Loads are what they are for just if the texts are in the order of the instants, and what is loaded
is there and in use for the next load. -/
theorem faithful_iff (clock : UtcClock) (req : LoadRequest) (stored : Answer clock req)
    (fetched : List LoadedCandle) (accepted : ℕ) :
    Faithful clock req stored fetched accepted ↔ OrderedAndKept clock req stored fetched accepted := by
  constructor
  · intro h
    obtain ⟨hregained, hranges⟩ := load_perm_iff.mp (again_iff.mp h.again)
    exact ⟨increasing_iff_texts.mp h.increasing, regained_iff_selected.mp hregained, (ranges_iff _).mp hranges⟩
  · intro h
    have hperm := load_perm_iff.mpr ⟨regained_iff_selected.mpr h.regained, (ranges_iff _).mpr h.ranges⟩
    exact ⟨increasing_iff_texts.mpr h.texts, fun _ => mem_load, again_iff.mpr hperm⟩

section Session

/-- Instants of a session, and what `isoformat` writes of them. -/
def sessionTexts : List (ℤ × String) :=
  [(1767583800000000, "2026-01-05T03:30:00+00:00"), (1767584700000000, "2026-01-05T03:45:00+00:00"),
    (1767585600000000, "2026-01-05T04:00:00+00:00"), (1767607200000000, "2026-01-05T10:00:00+00:00")]

def openingText : String := "2026-01-05T09:15:00+05:30"

def readText (s : String) : ℤ :=
  if s = openingText then 1767584700000000
  else ((sessionTexts.find? fun p => p.2 = s).map Prod.fst).getD ⌊Text.readG s⌋

theorem text_ne_toString {s : String} (h : 'T' ∈ s.toList) (t : ℤ) : s ≠ toString t := by
  rintro rfl
  rw [Text.toList_toString, List.mem_append] at h
  obtain hsign | hdigits := h
  · split at hsign <;> simp at hsign
  · exact Text.Digits.ne (Text.digits_toDigits _) (by decide) _ hdigits rfl

def sessionClock : UtcClock where
  normalizeTs := readText
  isoformat t := ((sessionTexts.find? fun p => p.1 = t).map Prod.snd).getD (toString t)
  normalizeTs_isoformat t := by
    cases hfind : sessionTexts.find? fun p => p.1 = t with
    | some p =>
      have hread : ∀ p ∈ sessionTexts, readText p.2 = p.1 := by decide
      have ht := List.find?_some hfind
      rw [decide_eq_true_eq] at ht
      simp only [Option.map_some, Option.getD_some]
      rw [hread p (List.mem_of_find?_eq_some hfind), ht]
    | none =>
      have htexts : ∀ p ∈ sessionTexts, 'T' ∈ p.2.toList := by decide
      have hnone : (sessionTexts.find? fun p => p.2 = toString t) = none := by
        rw [List.find?_eq_none]
        intro p hp heq
        exact text_ne_toString (htexts p hp) t (of_decide_eq_true heq)
      have hopening : toString t ≠ openingText := (text_ne_toString (by decide) t).symm
      simp only [Option.map_none, Option.getD_none]
      rw [readText, if_neg hopening, hnone]
      rw [Option.map_none, Option.getD_none, Text.readG_toString, Int.floor_intCast]

def sessionRequest : LoadRequest where
  symbol := "RELIANCE"
  startDt := 1767583800000000
  endDt := 1767607200000000

def halfPastNine : LoadedCandle where
  symbol := "RELIANCE"
  timestamp := "2026-01-05T04:00:00+00:00"
  openPrice := 101
  high := 102
  low := 100
  close := 101

def openingCandle : LoadedCandle where
  symbol := "NSE:RELIANCE"
  timestamp := openingText
  openPrice := 100
  high := 101
  low := 99
  close := 100

def sessionAnswer : Answer sessionClock sessionRequest where
  candles := [halfPastNine]
  ordered := List.pairwise_singleton _ _
  asked := by decide
  within := by decide
  limited := by decide

/-- The candle of the opening is fetched, and comes after that of half past nine. -/
theorem session_not_faithful : ¬Faithful sessionClock sessionRequest sessionAnswer [openingCandle] 0 := by
  intro h
  have hincreasing := h.increasing
  revert hincreasing
  decide

end Session

end Trademetrix.Backtest

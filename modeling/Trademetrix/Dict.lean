import Mathlib.Algebra.BigOperators.Group.List.Basic
import Mathlib.Data.List.Induction
import Mathlib.Data.List.Nodup
import Mathlib.Data.List.Perm.Basic
import Mathlib.Tactic.Abel

/-!
# Insertion-ordered dictionaries

Association lists with Python's `dict` operations: assignment keeps the place of
a key that is there and appends a new one.
-/

namespace Trademetrix

abbrev Dict (κ ν : Type) := List (κ × ν)

namespace Dict

variable {κ ν : Type} [DecidableEq κ]

def get (d : Dict κ ν) (k : κ) : Option ν := (d.find? fun p => p.1 = k).map Prod.snd

def set (d : Dict κ ν) (k : κ) (v : ν) : Dict κ ν :=
  if d.any fun p => p.1 = k then d.map fun p => if p.1 = k then (k, v) else p
  else d ++ [(k, v)]

def pop (d : Dict κ ν) (k : κ) : Dict κ ν := d.filter fun p => p.1 ≠ k

def values (d : Dict κ ν) : List ν := d.map Prod.snd

def modify (d : Dict κ ν) (k : κ) (f : ν → ν) : Dict κ ν :=
  match d.get k with
  | some v => d.set k (f v)
  | none => d

theorem mem_of_get {d : Dict κ ν} {k : κ} {v : ν} (h : d.get k = some v) : (k, v) ∈ d := by
  simp only [get, Option.map_eq_some_iff] at h
  obtain ⟨p, hp, rfl⟩ := h
  have hk : p.1 = k := by simpa using List.find?_some hp
  rw [← hk]
  exact List.mem_of_find?_eq_some hp

theorem get_cons (p : κ × ν) (d : Dict κ ν) (q : κ) :
    get (p :: d) q = if p.1 = q then some p.2 else get d q := by
  unfold get
  rw [List.find?_cons]
  split <;> simp_all

theorem get_append_self {d : Dict κ ν} {k : κ} (v : ν) (h : ∀ p ∈ d, p.1 ≠ k) :
    get (d ++ [(k, v)]) k = some v := by
  have hnone : d.find? (fun p => p.1 = k) = none := by simpa using h
  simp [get, List.find?_append, hnone]

theorem get_append_ne {d : Dict κ ν} {k q : κ} (v : ν) (h : k ≠ q) :
    get (d ++ [(k, v)]) q = get d q := by
  simp [get, List.find?_append, h]

theorem get_of_mem {d : Dict κ ν} (hd : (d.map Prod.fst).Nodup) {k : κ} {v : ν}
    (h : (k, v) ∈ d) : d.get k = some v := by
  induction d with
  | nil => cases h
  | cons p d ih =>
    simp only [List.map_cons, List.nodup_cons] at hd
    rcases List.mem_cons.mp h with rfl | h
    · simp [get]
    · have hne : p.1 ≠ k := by
        intro heq
        exact hd.1 (List.mem_map.mpr ⟨(k, v), h, heq.symm⟩)
      simpa [get, hne] using ih hd.2 h

theorem pop_of_forall_ne {d : Dict κ ν} {k : κ} (h : ∀ p ∈ d, p.1 ≠ k) : d.pop k = d := by
  simpa [pop] using h

theorem mem_set {d : Dict κ ν} {k : κ} {v : ν} {p : κ × ν} (h : p ∈ d.set k v) :
    p = (k, v) ∨ p ∈ d := by
  unfold set at h
  split at h
  · obtain ⟨q, hq, rfl⟩ := List.mem_map.mp h
    split
    · exact .inl rfl
    · exact .inr hq
  · rcases List.mem_append.mp h with h | h
    · exact .inr h
    · exact .inl (List.mem_singleton.mp h)

theorem get_map_set (d : Dict κ ν) (k q : κ) (v : ν) :
    get (d.map fun p => if p.1 = k then (k, v) else p) q =
      if q = k then (get d k).map fun _ => v else d.get q := by
  induction d with
  | nil => simp [get]
  | cons p d ih =>
    rw [List.map_cons, get_cons, ih, get_cons, get_cons]
    by_cases hp : p.1 = k <;> by_cases hq : q = k
    · simp [hp, hq]
    · simp [hp, hq, Ne.symm hq]
    · subst hq
      simp [hp]
    · simp [hp, hq]

theorem get_set (d : Dict κ ν) (k q : κ) (v : ν) :
    (d.set k v).get q = if q = k then some v else d.get q := by
  unfold set
  split
  · next hany =>
    rw [get_map_set]
    have hsome : ∃ u, get d k = some u := by
      obtain ⟨p, hp, hk⟩ := List.any_eq_true.mp hany
      cases hf : d.find? fun p => p.1 = k with
      | none =>
        have hne := List.find?_eq_none.mp hf p hp
        exact absurd hk hne
      | some u => exact ⟨u.2, by simp [get, hf]⟩
    obtain ⟨u, hu⟩ := hsome
    simp [hu]
  · next hany =>
    by_cases hq : q = k
    · subst hq
      rw [if_pos rfl]
      exact get_append_self v fun p hp hk =>
        hany (List.any_eq_true.mpr ⟨p, hp, by simpa using hk⟩)
    · rw [if_neg hq]
      exact get_append_ne v (Ne.symm hq)

theorem isSome_get_set {d : Dict κ ν} {q : κ} (k : κ) (v : ν) (h : (d.get q).isSome) :
    ((d.set k v).get q).isSome := by
  rw [get_set]
  split
  · rfl
  · exact h

theorem set_set (d : Dict κ ν) (k : κ) (v w : ν) : (d.set k v).set k w = d.set k w := by
  by_cases hany : (d.any fun p => p.1 = k) = true
  · have hset : d.set k v = d.map fun p => if p.1 = k then (k, v) else p := by
      rw [set, if_pos hany]
    have hkept : ((d.set k v).any fun p => p.1 = k) = true := by
      obtain ⟨p, hp, hk⟩ := List.any_eq_true.mp hany
      rw [hset]
      refine List.any_eq_true.mpr ⟨_, List.mem_map_of_mem hp, ?_⟩
      simp [of_decide_eq_true hk]
    rw [set, if_pos hkept, hset, set, if_pos hany, List.map_map]
    refine List.map_congr_left fun p _ => ?_
    by_cases hp : p.1 = k <;> simp [hp]
  · have hne : ∀ p ∈ d, p.1 ≠ k := by
      intro p hp hk
      exact hany (List.any_eq_true.mpr ⟨p, hp, by simpa using hk⟩)
    have hset : ∀ u, d.set k u = d ++ [(k, u)] := fun u => by rw [set, if_neg hany]
    have hrest : d.map (fun p => if p.1 = k then (k, w) else p) = d := by
      refine (List.map_congr_left fun p hp => if_neg (hne p hp)).trans (List.map_id d)
    rw [hset v, hset w, set, if_pos (by simp)]
    simp [hrest]

theorem set_map {μ : Type} (d : Dict κ ν) (f : ν → μ) (k : κ) (v : ν) :
    set (d.map fun p => (p.1, f p.2)) k (f v) = (d.set k v).map fun p => (p.1, f p.2) := by
  have hany : ((d.map fun p => (p.1, f p.2)).any fun p => p.1 = k) = d.any fun p => p.1 = k := by
    simp [List.any_map, Function.comp_def]
  unfold set
  rw [hany]
  split
  · rw [List.map_map, List.map_map]
    refine List.map_congr_left fun p _ => ?_
    by_cases hp : p.1 = k <;> simp [hp]
  · simp

theorem pop_set_of_none {d : Dict κ ν} {k : κ} {v : ν} (h : d.get k = none) :
    (d.set k v).pop k = d := by
  have hne : ∀ p ∈ d, p.1 ≠ k := by
    intro p hp hk
    simp only [get, Option.map_eq_none_iff, List.find?_eq_none] at h
    exact h p hp (by simpa using hk)
  have hany : ¬ (d.any fun p => p.1 = k) = true := by
    intro hany
    obtain ⟨p, hp, hk⟩ := List.any_eq_true.mp hany
    exact hne p hp (by simpa using hk)
  rw [set, if_neg hany, pop, List.filter_append]
  simpa [pop] using hne

theorem get_modify (d : Dict κ ν) (k q : κ) (f : ν → ν) :
    (d.modify k f).get q = if q = k then (d.get k).map f else d.get q := by
  unfold modify
  cases hk : d.get k with
  | none =>
    by_cases hq : q = k
    · simp [hq, hk]
    · simp [hq]
  | some v => simp [get_set]

theorem get_pop (d : Dict κ ν) (k q : κ) : (d.pop k).get q = if q = k then none else d.get q := by
  induction d with
  | nil => simp [get, pop]
  | cons p d ih =>
    unfold pop at ih ⊢
    rw [List.filter_cons, get_cons]
    by_cases hp : p.1 = k
    · subst hp
      simp only [ne_eq, not_true_eq_false, decide_false, Bool.false_eq_true, if_false, ih]
      by_cases hq : q = p.1
      · simp [hq]
      · simp [hq, Ne.symm hq]
    · simp only [ne_eq, hp, not_false_eq_true, decide_true, if_true, get_cons, ih]
      by_cases hq : q = k
      · simp [hq, hp]
      · simp [hq]

theorem mem_pop {d : Dict κ ν} {k : κ} {p : κ × ν} (h : p ∈ d.pop k) : p ∈ d :=
  List.mem_of_mem_filter h

theorem get_eq_none {d : Dict κ ν} {k : κ} : d.get k = none ↔ k ∉ d.map Prod.fst := by
  simp only [get, Option.map_eq_none_iff, List.find?_eq_none, decide_eq_true_eq, List.mem_map,
    not_exists, not_and]

theorem get_eq_some {d : Dict κ ν} (hd : (d.map Prod.fst).Nodup) {k : κ} {v : ν} :
    d.get k = some v ↔ (k, v) ∈ d :=
  ⟨mem_of_get, get_of_mem hd⟩

theorem keys_set (d : Dict κ ν) (k : κ) (v : ν) :
    (d.set k v).map Prod.fst =
      if k ∈ d.map Prod.fst then d.map Prod.fst else d.map Prod.fst ++ [k] := by
  have hany : (d.any fun p => p.1 = k) = true ↔ k ∈ d.map Prod.fst := by simp
  by_cases hk : k ∈ d.map Prod.fst
  · rw [set, if_pos (hany.mpr hk), if_pos hk, List.map_map]
    refine List.map_congr_left fun p _ => ?_
    simp only [Function.comp_apply]
    split
    · next hp => exact hp.symm
    · rfl
  · rw [set, if_neg fun h => hk (hany.mp h), if_neg hk, List.map_append]
    rfl

theorem nodup_keys_set {d : Dict κ ν} (h : (d.map Prod.fst).Nodup) (k : κ) (v : ν) :
    ((d.set k v).map Prod.fst).Nodup := by
  rw [keys_set]
  split
  · exact h
  · next hk => exact List.nodup_append_comm.mp (List.nodup_cons.mpr ⟨hk, h⟩)

theorem nodup_keys_modify {d : Dict κ ν} (h : (d.map Prod.fst).Nodup) (k : κ) (f : ν → ν) :
    ((d.modify k f).map Prod.fst).Nodup := by
  unfold modify
  split
  · exact nodup_keys_set h _ _
  · exact h

theorem get_map {μ : Type} (d : Dict κ ν) (f : κ → ν → μ) (k : κ) :
    get (d.map fun p => (p.1, f p.1 p.2)) k = (d.get k).map (f k) := by
  induction d with
  | nil => rfl
  | cons p d ih =>
    rw [List.map_cons, get_cons, get_cons, ih]
    split
    · next hk => rw [Option.map_some, ← hk]
    · rfl

theorem sum_set {M : Type} [AddCommGroup M] {d : Dict κ ν} (hd : (d.map Prod.fst).Nodup)
    (f : ν → M) (k : κ) (v : ν) :
    ((d.set k v).values.map f).sum = (d.values.map f).sum + f v - ((d.get k).map f).getD 0 := by
  induction d with
  | nil => simp [set, values, get]
  | cons p d ih =>
    simp only [List.map_cons, List.nodup_cons] at hd
    by_cases hp : p.1 = k
    · have hset : set (p :: d) k v = (k, v) :: d := by
        have hrest : d.map (fun q => if q.1 = k then (k, v) else q) = d := by
          refine (List.map_congr_left fun q hq => ?_).trans (List.map_id d)
          have hne : q.1 ≠ k := by
            rintro rfl
            exact hd.1 (hp ▸ List.mem_map_of_mem hq)
          rw [if_neg hne]
          rfl
        simp [set, hp, hrest]
      rw [hset, get_cons, if_pos hp]
      simp only [values, List.map_cons, List.sum_cons, Option.map_some, Option.getD_some]
      abel
    · have hset : set (p :: d) k v = p :: set d k v := by
        simp only [set, List.any_cons, hp, decide_false, Bool.false_or]
        split <;> simp [hp]
      have ih := ih hd.2
      rw [hset, get_cons, if_neg hp]
      simp only [values, List.map_cons, List.sum_cons] at ih ⊢
      rw [ih]
      abel

theorem nodup_keys_pop {d : Dict κ ν} (h : (d.map Prod.fst).Nodup) (k : κ) :
    ((d.pop k).map Prod.fst).Nodup :=
  (List.filter_sublist.map Prod.fst).nodup h

theorem sum_pop {M : Type} [AddCommGroup M] {d : Dict κ ν} (hd : (d.map Prod.fst).Nodup)
    (f : ν → M) (k : κ) :
    ((d.pop k).values.map f).sum = (d.values.map f).sum - ((d.get k).map f).getD 0 := by
  induction d with
  | nil => simp [pop, values, get]
  | cons p d ih =>
    simp only [List.map_cons, List.nodup_cons] at hd
    by_cases hp : p.1 = k
    · have hpop : pop (p :: d) k = d := by
        have hrest : pop d k = d := by
          refine pop_of_forall_ne fun q hq heq => hd.1 ?_
          rw [hp, ← heq]
          exact List.mem_map_of_mem hq
        rw [pop, List.filter_cons_of_neg (by simp [hp])]
        exact hrest
      rw [hpop, get_cons, if_pos hp]
      simp [values]
    · have hpop : pop (p :: d) k = p :: pop d k := by simp [pop, hp]
      have ih := ih hd.2
      rw [hpop, get_cons, if_neg hp]
      simp only [values, List.map_cons, List.sum_cons] at ih ⊢
      rw [ih]
      abel

theorem perm_of_get {d d' : Dict κ ν} (hd : (d.map Prod.fst).Nodup)
    (hd' : (d'.map Prod.fst).Nodup) (h : ∀ k, d.get k = d'.get k) : d.Perm d' := by
  refine (List.perm_ext_iff_of_nodup hd.of_map hd'.of_map).mpr fun p => ?_
  obtain ⟨k, v⟩ := p
  rw [← get_eq_some hd, ← get_eq_some hd', h]

theorem get_of_perm {d d' : Dict κ ν} (hd : (d.map Prod.fst).Nodup) (h : d.Perm d') (k : κ) :
    d.get k = d'.get k := by
  have hd' := (h.map Prod.fst).nodup_iff.mp hd
  refine Option.ext fun v => ?_
  rw [get_eq_some hd, get_eq_some hd', h.mem_iff]

theorem perm_set {d d' : Dict κ ν} (hd : (d.map Prod.fst).Nodup) (h : d.Perm d') (k : κ) (v : ν) :
    (d.set k v).Perm (d'.set k v) := by
  have hd' := (h.map Prod.fst).nodup_iff.mp hd
  refine perm_of_get (nodup_keys_set hd k v) (nodup_keys_set hd' k v) fun q => ?_
  rw [get_set, get_set, get_of_perm hd h]

theorem ext_of_keys {d d' : Dict κ ν} (hkeys : d.map Prod.fst = d'.map Prod.fst)
    (hd : (d.map Prod.fst).Nodup) (h : ∀ k, d.get k = d'.get k) : d = d' := by
  refine List.ext_getElem ?_ fun i hi hi' => ?_
  · simpa using congrArg List.length hkeys
  · have hk : d[i].1 = d'[i].1 := by
      have hget := List.getElem_of_eq hkeys (i := i) (by simpa using hi)
      simpa using hget
    have hv := h d[i].1
    rw [get_of_mem hd (k := d[i].1) (v := d[i].2) (List.getElem_mem hi), hk,
      get_of_mem (hkeys ▸ hd) (k := d'[i].1) (v := d'[i].2) (List.getElem_mem hi')] at hv
    exact Prod.ext hk (Option.some.inj hv)

section Updates

/-- `dict.update`: the entries are assigned one after the other. -/
def update (d : Dict κ ν) (entries : List (κ × ν)) : Dict κ ν :=
  entries.foldl (fun d p => d.set p.1 p.2) d

theorem update_append (d : Dict κ ν) (l l' : List (κ × ν)) :
    d.update (l ++ l') = (d.update l).update l' := List.foldl_append

theorem nodup_keys_update {d : Dict κ ν} (h : (d.map Prod.fst).Nodup) (l : List (κ × ν)) :
    ((d.update l).map Prod.fst).Nodup := by
  induction l generalizing d with
  | nil => exact h
  | cons p l ih => exact ih (nodup_keys_set h p.1 p.2)

theorem get_update (d : Dict κ ν) (l : List (κ × ν)) (k : κ) :
    (d.update l).get k = if k ∈ l.map Prod.fst then get (update [] l) k else d.get k := by
  induction l using List.reverseRecOn with
  | nil => simp [update]
  | append_singleton l p ih =>
    have hlast : ∀ d : Dict κ ν, d.update (l ++ [p]) = (d.update l).set p.1 p.2 := fun d =>
      update_append d l [p]
    rw [hlast, hlast, get_set, get_set, List.map_append, List.map_singleton]
    by_cases hk : k = p.1
    · simp [hk]
    · simp only [hk, ih, if_false, List.mem_append, List.mem_singleton, or_false]

theorem mem_keys_update (d : Dict κ ν) (l : List (κ × ν)) (k : κ) :
    k ∈ (d.update l).map Prod.fst ↔ k ∈ d.map Prod.fst ∨ k ∈ l.map Prod.fst := by
  induction l generalizing d with
  | nil => simp [update]
  | cons p l ih =>
    have hcons : d.update (p :: l) = (d.set p.1 p.2).update l := rfl
    rw [hcons, ih, keys_set, List.map_cons, List.mem_cons]
    split
    · next hp =>
      constructor
      · rintro (h | h)
        · exact .inl h
        · exact .inr (.inr h)
      · rintro (h | rfl | h)
        · exact .inl h
        · exact .inl hp
        · exact .inr h
    · simp [or_assoc]

theorem keys_update_of_mem {d : Dict κ ν} {l : List (κ × ν)}
    (h : ∀ p ∈ l, p.1 ∈ d.map Prod.fst) : (d.update l).map Prod.fst = d.map Prod.fst := by
  induction l generalizing d with
  | nil => rfl
  | cons p l ih =>
    have hset : (d.set p.1 p.2).map Prod.fst = d.map Prod.fst := by
      rw [keys_set, if_pos (h p List.mem_cons_self)]
    have hcons : d.update (p :: l) = (d.set p.1 p.2).update l := rfl
    rw [hcons, ih, hset]
    intro q hq
    rw [hset]
    exact h q (List.mem_cons_of_mem _ hq)

theorem mem_update {d : Dict κ ν} {l : List (κ × ν)} {p : κ × ν} (h : p ∈ d.update l) :
    p ∈ d ∨ p ∈ l := by
  induction l generalizing d with
  | nil => exact .inl h
  | cons q l ih =>
    rcases ih h with h | h
    · exact (mem_set h).elim (fun heq => .inr (heq ▸ List.mem_cons_self)) .inl
    · exact .inr (List.mem_cons_of_mem _ h)

theorem update_map {μ : Type} (d : Dict κ ν) (f : ν → μ) (l : List (κ × ν)) :
    update (d.map fun p => (p.1, f p.2)) (l.map fun p => (p.1, f p.2)) =
      (d.update l).map fun p => (p.1, f p.2) := by
  induction l generalizing d with
  | nil => rfl
  | cons p l ih =>
    have hcons : ∀ (μ : Type) (e : Dict κ μ) (q : κ × μ) (m : List (κ × μ)),
        e.update (q :: m) = (e.set q.1 q.2).update m := fun _ _ _ _ => rfl
    rw [List.map_cons, hcons, hcons, set_map, ih]

theorem get_update_filter {α : Type} (xs : List α) (key : α → κ) (f : α → ν) (k : κ) :
    get (update [] (xs.map fun x => (key x, f x))) k =
      ((xs.filter fun x => key x = k).getLast?).map f := by
  induction xs using List.reverseRecOn with
  | nil => rfl
  | append_singleton xs x ih =>
    have hlast : update [] ((xs ++ [x]).map fun x => (key x, f x)) =
        set (update [] (xs.map fun x => (key x, f x))) (key x) (f x) := by
      rw [List.map_append, update_append]
      rfl
    rw [hlast, get_set, ih, List.filter_append]
    by_cases hk : key x = k
    · simp [hk]
    · simp [hk, Ne.symm hk]

theorem update_update {d : Dict κ ν} (hd : (d.map Prod.fst).Nodup) (l : List (κ × ν)) :
    (d.update l).update l = d.update l := by
  have hkeys : ((d.update l).update l).map Prod.fst = (d.update l).map Prod.fst :=
    keys_update_of_mem fun p hp =>
      (mem_keys_update d l p.1).mpr (.inr (List.mem_map_of_mem hp))
  refine ext_of_keys hkeys (hkeys ▸ nodup_keys_update hd l) fun k => ?_
  rw [get_update (d.update l), get_update d]
  split <;> rfl

theorem get_update_agree {e : Dict κ ν} {l : List (κ × ν)} (h : ∀ p ∈ l, e.get p.1 = some p.2)
    (d : Dict κ ν) (k : κ) :
    (d.update l).get k = if k ∈ l.map Prod.fst then e.get k else d.get k := by
  induction l generalizing d with
  | nil => simp [update]
  | cons p l ih =>
    have hcons : d.update (p :: l) = (d.set p.1 p.2).update l := rfl
    rw [hcons, ih (fun q hq => h q (List.mem_cons_of_mem _ hq)), get_set]
    simp only [List.map_cons, List.mem_cons]
    by_cases hl : k ∈ l.map Prod.fst
    · simp only [hl, or_true, if_true]
    · by_cases hk : k = p.1
      · simp only [hk, true_or, if_true, h p List.mem_cons_self]
        split <;> rfl
      · simp only [hl, hk, or_false, if_false]

end Updates

section Keys

variable (p : κ → Bool) (d : Dict κ ν) (k : κ)

def onKeys : Dict κ ν := d.filter fun e => p e.1

theorem get_onKeys (h : p k = true) : (d.onKeys p).get k = d.get k := by
  induction d with
  | nil => rfl
  | cons e d ih =>
    rw [get_cons, ← ih, onKeys, List.filter_cons]
    by_cases he : p e.1 = true
    · rw [if_pos he, get_cons]
      rfl
    · have hne : e.1 ≠ k := fun heq => he (heq ▸ h)
      rw [if_neg he, if_neg hne]
      rfl

theorem onKeys_map (v : ν) :
    onKeys p (d.map fun e => if e.1 = k then (k, v) else e) =
      (d.onKeys p).map fun e => if e.1 = k then (k, v) else e := by
  rw [onKeys, onKeys, List.filter_map]
  congr 2
  funext e
  rw [Function.comp_apply]
  split
  · next he => rw [he]
  · rfl

theorem onKeys_set_of_not (v : ν) (h : p k ≠ true) : (d.set k v).onKeys p = d.onKeys p := by
  rw [set]
  split
  · rw [onKeys_map]
    refine (List.map_congr_left fun e he => ?_).trans (List.map_id _)
    have hkey : p e.1 = true := (List.mem_filter.mp he).2
    have hne : e.1 ≠ k := fun heq => h (heq ▸ hkey)
    exact if_neg hne
  · rw [onKeys, List.filter_append, List.filter_cons, if_neg h, List.filter_nil, List.append_nil]
    rfl

theorem onKeys_set (v : ν) (h : p k = true) : (d.set k v).onKeys p = (d.onKeys p).set k v := by
  have hany : ((d.onKeys p).any fun e => e.1 = k) = d.any fun e => e.1 = k := by
    rw [onKeys, List.any_filter]
    congr 1
    funext e
    by_cases he : e.1 = k
    · simp [he, h]
    · simp [he]
  rw [set, set, hany]
  split
  · exact onKeys_map p d k v
  · rw [onKeys, List.filter_append, List.filter_cons, if_pos h]
    rfl

theorem onKeys_pop : (d.pop k).onKeys p = (d.onKeys p).pop k := by
  simp only [pop, onKeys, List.filter_filter, Bool.and_comm]

theorem onKeys_pop_of_not (h : p k ≠ true) : (d.pop k).onKeys p = d.onKeys p := by
  rw [onKeys_pop, pop, List.filter_eq_self]
  intro e he
  have hkey : p e.1 = true := (List.mem_filter.mp he).2
  simpa using fun heq : e.1 = k => h (heq ▸ hkey)

end Keys

end Dict

end Trademetrix

import Mathlib.Data.List.SplitBy

/-!
# A list in turns

The turns of a list are its longest stretches of elements with one key. All but
the last are closed: an element with another key follows them.
-/

namespace Trademetrix

variable {α κ : Type} {f : α → κ} {g : List α} {gs : List (List α)} {xs : List α} {k : κ}

def Keyed (f : α → κ) (gs : List (List α)) : Prop := ∀ g ∈ gs, g ≠ [] ∧ ∃ k, ∀ x ∈ g, f x = k

def keys (f : α → κ) (gs : List (List α)) : List κ := gs.filterMap fun g => g.head?.map f

theorem Keyed.sublist {hs : List (List α)} (h : Keyed f gs) (hsub : hs.Sublist gs) : Keyed f hs :=
  fun g hg => h g (hsub.subset hg)

theorem keys_append (gs hs : List (List α)) : keys f (gs ++ hs) = keys f gs ++ keys f hs :=
  List.filterMap_append

theorem keys_cons (hne : g ≠ []) (h : ∀ x ∈ g, f x = k) : keys f (g :: gs) = k :: keys f gs := by
  cases g with
  | nil => exact absurd rfl hne
  | cons a g => simp [keys, h a List.mem_cons_self]

theorem mem_keys (h : Keyed f gs) : k ∈ keys f gs ↔ ∃ x ∈ gs.flatten, f x = k := by
  induction gs with
  | nil => simp [keys]
  | cons g gs ih =>
    obtain ⟨⟨hne, l, hl⟩, hgs⟩ := List.forall_mem_cons.mp h
    rw [keys_cons hne hl, List.mem_cons, ih hgs]
    obtain ⟨a, ha⟩ := List.exists_mem_of_ne_nil g hne
    constructor
    · rintro (rfl | ⟨x, hx, hk⟩)
      · exact ⟨a, List.mem_append_left _ ha, hl a ha⟩
      · exact ⟨x, List.mem_append_right _ hx, hk⟩
    · rintro ⟨x, hx, rfl⟩
      rcases List.mem_append.mp hx with hx | hx
      · exact .inl (hl x hx)
      · exact .inr ⟨x, hx, rfl⟩

section Filtering

variable [DecidableEq κ]

theorem filter_of_forall_key (h : ∀ x ∈ g, f x = k) : g.filter (fun x => f x = k) = g :=
  List.filter_eq_self.mpr fun x hx => decide_eq_true (h x hx)

theorem filter_of_notMem_keys (h : Keyed f gs) (hk : k ∉ keys f gs) :
    gs.flatten.filter (fun x => f x = k) = [] := by
  refine List.filter_eq_nil_iff.mpr fun x hx hfx => ?_
  exact hk ((mem_keys h).mpr ⟨x, hx, of_decide_eq_true hfx⟩)

theorem filter_of_nodup_keys (h : Keyed f gs) (hnodup : (keys f gs).Nodup) (hg : g ∈ gs)
    (hk : ∀ x ∈ g, f x = k) : gs.flatten.filter (fun x => f x = k) = g := by
  induction gs with
  | nil => cases hg
  | cons g' gs ih =>
    obtain ⟨⟨hne, l, hl⟩, hgs⟩ := List.forall_mem_cons.mp h
    rw [keys_cons hne hl, List.nodup_cons] at hnodup
    rw [List.flatten_cons, List.filter_append]
    rcases List.mem_cons.mp hg with rfl | hg
    · obtain ⟨a, ha⟩ := List.exists_mem_of_ne_nil g hne
      have hkl : k = l := (hk a ha).symm.trans (hl a ha)
      rw [filter_of_forall_key hk, filter_of_notMem_keys hgs (hkl ▸ hnodup.1), List.append_nil]
    · have hother : g'.filter (fun x => f x = k) = [] := by
        refine List.filter_eq_nil_iff.mpr fun x hx hfx => hnodup.1 ?_
        have hlk : l = k := (hl x hx).symm.trans (of_decide_eq_true hfx)
        obtain ⟨a, ha⟩ := List.exists_mem_of_ne_nil g (hgs g hg).1
        exact (mem_keys hgs).mpr ⟨a, List.mem_flatten_of_mem hg ha, (hk a ha).trans hlk.symm⟩
      rw [hother, List.nil_append]
      exact ih hgs hnodup.2 hg

end Filtering

section Turns

variable [DecidableEq κ]

def turns (f : α → κ) (xs : List α) : List (List α) := xs.splitBy fun a b => f a = f b

def Passed (f : α → κ) (xs : List α) (k : κ) : Prop :=
  ∃ us vs, xs = us ++ vs ∧ (∃ x ∈ us, f x = k) ∧ ∃ x ∈ vs, f x ≠ k

@[simp] theorem flatten_turns (f : α → κ) (xs : List α) : (turns f xs).flatten = xs :=
  List.flatten_splitBy _ xs

theorem turns_of_forall_key (hne : g ≠ []) (h : ∀ x ∈ g, f x = k) : turns f g = [g] := by
  refine List.splitBy_of_isChain hne ?_
  refine List.Pairwise.isChain (List.pairwise_of_forall_mem_list fun a ha b hb => ?_)
  rw [h a ha, h b hb, decide_eq_true rfl]

theorem turns_append_cons (hne : g ≠ []) (h : ∀ x ∈ g, f x = k) {t : α} (ht : f t ≠ k) (ts : List α) :
    turns f (g ++ t :: ts) = g :: turns f (t :: ts) := by
  have hsplit : turns f (g ++ t :: ts) = turns f g ++ turns f (t :: ts) := by
    refine List.splitBy_append_cons ts fun x hx => decide_eq_false ?_
    rw [h x (List.mem_of_mem_getLast? hx)]
    exact Ne.symm ht
  rw [hsplit, turns_of_forall_key hne h, List.singleton_append]

theorem turns_ne_nil (t : α) (ts : List α) : turns f (t :: ts) ≠ [] :=
  List.splitBy_ne_nil.mpr (List.cons_ne_nil t ts)

theorem keyed_turns (f : α → κ) (xs : List α) : Keyed f (turns f xs) := by
  intro g hg
  have hne : g ≠ [] := List.ne_nil_of_mem_splitBy hg
  refine ⟨hne, f (g.head hne), fun x hx => ?_⟩
  have hpair : g.Pairwise fun a b => f a = f b := by
    have htrans : IsTrans α fun a b => f a = f b := ⟨fun _ _ _ => Eq.trans⟩
    refine List.isChain_iff_pairwise.mp ?_
    exact (List.isChain_of_mem_splitBy hg).imp fun _ _ hab => of_decide_eq_true hab
  cases g with
  | nil => cases hx
  | cons a g =>
    rcases List.mem_cons.mp hx with rfl | hx
    · rfl
    · exact ((List.pairwise_cons.mp hpair).1 x hx).symm

theorem passed_iff : Passed f xs k ↔ k ∈ keys f (turns f xs).dropLast := by
  have hkeyed := keyed_turns f xs
  have hclosed := hkeyed.sublist (List.dropLast_sublist _)
  rw [mem_keys hclosed]
  rcases List.eq_nil_or_concat (turns f xs) with hnil | ⟨closed, last, hturns⟩
  · have hxs : xs = [] := by rw [← flatten_turns f xs, hnil]; rfl
    subst hxs
    simp [Passed, turns]
  · have hflat : xs = closed.flatten ++ last := by
      rw [← flatten_turns f xs, hturns]
      simp
    obtain ⟨hne, l, hl⟩ := hkeyed last (by rw [hturns]; simp)
    rw [hturns, List.concat_eq_append, List.dropLast_concat]
    constructor
    · rintro ⟨us, vs, hxs, ⟨x, hx, hxk⟩, v, hv, hvk⟩
      rcases List.append_eq_append_iff.mp (hxs.symm.trans hflat) with ⟨c, hc, -⟩ | ⟨c, hc, hlast⟩
      · exact ⟨x, hc ▸ List.mem_append_left _ hx, hxk⟩
      · -- what is beyond the closed turns all has the key of the last one
        rcases List.mem_append.mp (hc ▸ hx) with hx | hx
        · exact ⟨x, hx, hxk⟩
        · have hlk : l = k := (hl x (hlast ▸ List.mem_append_left _ hx)).symm.trans hxk
          exact absurd ((hl v (hlast ▸ List.mem_append_right _ hv)).trans hlk) hvk
    · rintro ⟨x, hx, rfl⟩
      obtain ⟨g, hg, hxg⟩ := List.mem_flatten.mp hx
      obtain ⟨before, after, rfl⟩ := List.append_of_mem hg
      obtain ⟨-, m, hm⟩ := hkeyed g (by rw [hturns]; simp)
      -- the turn that comes next begins with another key
      obtain ⟨next, rest, hnext⟩ : ∃ next rest, after ++ [last] = next :: rest := by
        cases after with
        | nil => exact ⟨last, [], rfl⟩
        | cons a after => exact ⟨a, after ++ [last], rfl⟩
      have hall : turns f xs = before ++ g :: next :: rest := by
        rw [hturns, ← hnext]
        simp
      have hchain := List.isChain_getLast_head_splitBy (fun a b => decide (f a = f b)) xs
      change (turns f xs).IsChain _ at hchain
      rw [hall] at hchain
      obtain ⟨hgne, hnne, hdiff⟩ := (List.isChain_cons_cons.mp hchain.right_of_append).1
      refine ⟨before.flatten ++ g, (next :: rest).flatten, ?_, ⟨x, List.mem_append_right _ hxg, rfl⟩,
        next.head hnne, ?_, ?_⟩
      · conv_lhs => rw [← flatten_turns f xs, hall]
        simp
      · exact List.mem_append_left _ (List.head_mem hnne)
      · rw [hm x hxg, ← hm _ (List.getLast_mem hgne)]
        exact Ne.symm (of_decide_eq_false hdiff)

end Turns

end Trademetrix

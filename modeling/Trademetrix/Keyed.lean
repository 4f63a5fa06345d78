import Mathlib.Data.List.Sort
import Mathlib.Data.List.Nodup
import Mathlib.Data.List.Perm.Subperm

/-!
# Lists with distinct keys

Each element of a list has a key, and no two have the same. Such a list in the order
of the keys is strictly so; sorted by something else it is in that order just if the
two agree. Parts of two such lists have the same values just if the values of the one
are found in the other, and at one key both parts have the element or neither.
-/

namespace Trademetrix

variable {α κ : Type} {key : α → κ} {l m : List α}

theorem find?_key_iff [DecidableEq κ] (hl : (l.map key).Nodup) {k : κ} {a : α} :
    (l.find? fun x => key x = k) = some a ↔ a ∈ l ∧ key a = k := by
  constructor
  · intro h
    have hkey := List.find?_some h
    rw [decide_eq_true_eq] at hkey
    exact ⟨List.mem_of_find?_eq_some h, hkey⟩
  · rintro ⟨ha, rfl⟩
    cases hfind : l.find? fun x => key x = key a with
    | none => exact absurd (decide_eq_true rfl) (List.find?_eq_none.mp hfind a ha)
    | some b =>
      have hkey := List.find?_some hfind
      rw [decide_eq_true_eq] at hkey
      rw [List.inj_on_of_nodup_map hl (List.mem_of_find?_eq_some hfind) ha hkey]

section Order

theorem pairwise_lt_iff_nodup [PartialOrder κ] (h : l.Pairwise fun a b => key a ≤ key b) :
    (l.Pairwise fun a b => key a < key b) ↔ (l.map key).Nodup := by
  rw [List.Nodup, List.pairwise_map]
  constructor
  · exact List.Pairwise.imp fun hlt => hlt.ne
  · exact fun hne => (h.and hne).imp fun hboth => lt_of_le_of_ne hboth.1 hboth.2

variable [LinearOrder κ]

theorem insertionSort_increasing (h : (l.map key).Nodup) :
    (l.insertionSort fun a b => key a ≤ key b).Pairwise fun a b => key a < key b := by
  rw [pairwise_lt_iff_nodup (List.pairwise_insertionSort (fun a b => key a ≤ key b) l)]
  exact ((List.perm_insertionSort _ l).map _).nodup_iff.mpr h

theorem insertionSort_increasing_iff {τ : Type} [LinearOrder τ] {text : α → τ}
    (htext : ∀ a b, text a = text b → key a = key b) (hl : (l.map key).Nodup) :
    (l.insertionSort fun a b => text a ≤ text b).Pairwise (fun a b => key a < key b) ↔
      ∀ a ∈ l, ∀ b ∈ l, key a < key b → text a < text b := by
  have hperm := List.perm_insertionSort (fun a b => text a ≤ text b) l
  have hsorted := List.pairwise_insertionSort (fun a b => text a ≤ text b) l
  constructor
  · intro h a ha b hb hlt
    rw [← hperm.mem_iff] at ha hb
    refine lt_of_le_of_ne ?_ fun heq => hlt.ne (htext a b heq)
    have hboth := hsorted.and h
    obtain ⟨i, hi, rfl⟩ := List.mem_iff_getElem.mp ha
    obtain ⟨j, hj, rfl⟩ := List.mem_iff_getElem.mp hb
    rw [List.pairwise_iff_getElem] at hboth
    rcases lt_trichotomy i j with hij | rfl | hji
    · exact (hboth i j hi hj hij).1
    · exact le_refl _
    · exact absurd (hboth j i hj hi hji).2 (not_lt.mpr hlt.le)
  · intro h
    have hkeys : (l.insertionSort fun a b => text a ≤ text b).Pairwise fun a b => key a ≠ key b :=
      List.pairwise_map.mp (((hperm.map _).nodup_iff).mpr hl)
    refine (hsorted.and hkeys).imp_of_mem fun {a b} ha hb hboth => ?_
    refine lt_of_le_of_ne (not_lt.mp fun hlt => ?_) hboth.2
    exact absurd hboth.1 (not_le.mpr (h b (hperm.mem_iff.mp hb) a (hperm.mem_iff.mp ha) hlt))

end Order

section Values

variable {β : Type} {value : α → β} {p q : α → Bool}

theorem nodup_map_of_key (hvalue : ∀ a b, value a = value b → key a = key b) (hl : (l.map key).Nodup) :
    (l.map value).Nodup := by
  rw [List.Nodup, List.pairwise_map] at hl ⊢
  exact hl.imp fun hne heq => hne (hvalue _ _ heq)

theorem filter_values_perm_iff (hvalue : ∀ a b, value a = value b → key a = key b) (hl : (l.map key).Nodup)
    (hm : (m.map key).Nodup) (hkeys : ∀ b ∈ m, ∃ a ∈ l, key a = key b) :
    ((m.filter q).map value).Perm ((l.filter p).map value) ↔
      (∀ a ∈ l, p a → ∃ b ∈ m, value b = value a) ∧
        ∀ a ∈ l, ∀ b ∈ m, key a = key b → (p a ↔ q b) := by
  have hnodup : ∀ {l : List α} (p : α → Bool), (l.map key).Nodup → ((l.filter p).map value).Nodup :=
    fun p hl => nodup_map_of_key hvalue (hl.sublist (List.filter_sublist.map _))
  rw [List.perm_ext_iff_of_nodup (hnodup q hm) (hnodup p hl)]
  constructor
  · intro h
    have hfound : ∀ a ∈ l, p a → ∃ b ∈ m, q b ∧ value b = value a := by
      intro a ha hp
      obtain ⟨b, hb, hab⟩ := List.mem_map.mp ((h _).mpr (List.mem_map_of_mem (List.mem_filter.mpr ⟨ha, hp⟩)))
      exact ⟨b, (List.mem_filter.mp hb).1, (List.mem_filter.mp hb).2, hab⟩
    refine ⟨fun a ha hp => ?_, fun a ha b hb hkey => ⟨fun hp => ?_, fun hq => ?_⟩⟩
    · obtain ⟨b, hb, -, hab⟩ := hfound a ha hp
      exact ⟨b, hb, hab⟩
    · obtain ⟨b', hb', hq, hab⟩ := hfound a ha hp
      rwa [← List.inj_on_of_nodup_map hm hb' hb ((hvalue b' a hab).trans hkey)]
    · obtain ⟨a', ha', hab⟩ := List.mem_map.mp ((h _).mp (List.mem_map_of_mem (List.mem_filter.mpr ⟨hb, hq⟩)))
      obtain ⟨ha', hp⟩ := List.mem_filter.mp ha'
      rwa [← List.inj_on_of_nodup_map hl ha' ha ((hvalue a' b hab).trans hkey.symm)]
  · rintro ⟨hfound, hsame⟩ v
    constructor
    · intro hv
      obtain ⟨b, hb, rfl⟩ := List.mem_map.mp hv
      obtain ⟨hb, hq⟩ := List.mem_filter.mp hb
      obtain ⟨a, ha, hkey⟩ := hkeys b hb
      have hp : p a := (hsame a ha b hb hkey).mpr hq
      obtain ⟨b', hb', hab⟩ := hfound a ha hp
      have heq : b' = b := List.inj_on_of_nodup_map hm hb' hb ((hvalue b' a hab).trans hkey)
      exact List.mem_map.mpr ⟨a, List.mem_filter.mpr ⟨ha, hp⟩, by rw [← hab, heq]⟩
    · intro hv
      obtain ⟨a, ha, rfl⟩ := List.mem_map.mp hv
      obtain ⟨ha, hp⟩ := List.mem_filter.mp ha
      obtain ⟨b, hb, hab⟩ := hfound a ha hp
      have hq : q b := (hsame a ha b hb (hvalue b a hab).symm).mp hp
      exact List.mem_map.mpr ⟨b, List.mem_filter.mpr ⟨hb, hq⟩, hab⟩

end Values

end Trademetrix

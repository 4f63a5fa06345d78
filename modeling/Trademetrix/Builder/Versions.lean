import Trademetrix.Builder.Requests
import Trademetrix.Keyed

/-!
# The history of a strategy

Whatever the order of the requests, a snapshot is never altered: the history gains entries at
its end and loses the oldest beyond fifty. When each request ends before the next begins,
its numbers rise and the last is that of the strategy, so a rollback brings back a version
under the next number.
-/

namespace Trademetrix.Builder

variable {s t : Manager} {u sid : String} {ref : ℕ} {d : Stored} {call : Call} {entries : List VersionEntry}

section Histories

def Extends (old new : List VersionEntry) : Prop :=
  ∃ added n, new = (old ++ added).drop n ∧ (n = 0 ∨ Manager.maxVersions ≤ new.length)

theorem Extends.refl (l : List VersionEntry) : Extends l l := ⟨[], 0, by simp, .inl rfl⟩

theorem Extends.trans {l m r : List VersionEntry} (h : Extends l m) (h' : Extends m r) : Extends l r := by
  obtain ⟨added, n, hm, hn⟩ := h
  obtain ⟨added', n', hr, hn'⟩ := h'
  have hle : n ≤ (l ++ added).length ∨ m = [] := by
    by_cases hlong : n ≤ (l ++ added).length
    · exact .inl hlong
    · exact .inr (hm.trans (List.drop_eq_nil_of_le (Nat.le_of_not_le hlong)))
  cases hn with
  | inl hzero =>
    refine ⟨added ++ added', n', ?_, hn'⟩
    rw [hr, hm, hzero, List.drop_zero, List.append_assoc]
  | inr hfull =>
    have hlen : n ≤ (l ++ added).length := by
      refine hle.resolve_right fun hnil => ?_
      rw [hnil] at hfull
      exact absurd hfull (by decide)
    refine ⟨added ++ added', n + n', ?_, ?_⟩
    · rw [hr, hm, ← List.append_assoc, ← List.drop_drop, List.drop_append_of_le_length hlen]
    · cases hn' with
      | inl hzero =>
        refine .inr (hfull.trans ?_)
        rw [hr, hzero, List.drop_zero, List.length_append]
        omega
      | inr hfull' => exact .inr hfull'

theorem extends_capped (l : List VersionEntry) (e : VersionEntry) : Extends l (Manager.capped (l ++ [e])) := by
  refine ⟨[e], (l ++ [e]).length - Manager.maxVersions, rfl, ?_⟩
  rw [Manager.capped, List.length_drop]
  omega

/-- The request makes the history of the id anew or ends it, or it is that of an import, the only
one to change settings in place and so those of a snapshot with them. -/
def Call.Resets (sid : String) : Call → Prop
  | .create id _ _ _ _ _ => id = sid
  | .update _ sid' updates _ => sid' = sid ∧ updates.versionNumber.isSome
  | .clone _ id _ => id = sid
  | .delete sid' => sid' = sid
  | _ => False

theorem versionsOf_fresh {snapshot : Stored} {savedAt : String} (sid' : String) :
    (s.fresh sid d snapshot savedAt).versionsOf sid' =
      if sid' = sid then [⟨1, snapshot, savedAt⟩] else s.versionsOf sid' :=
  versionsOf_set (s := s.bind sid d) _ sid'

theorem extends_set {sid' : String} {entries : List VersionEntry} (h : Extends (s.versionsOf sid') entries) :
    Extends (s.versionsOf sid)
      (({ s with versions := s.versions.set sid' entries } : Manager).versionsOf sid) := by
  rw [versionsOf_set]
  split
  · next heq => rw [heq]; exact h
  · exact .refl _

theorem extends_snapshot {w : Waiting} : Extends (s.versionsOf sid) ((s.snapshot w).versionsOf sid) := by
  simp only [Manager.snapshot]
  split
  · exact .refl _
  · exact extends_set (s := s.renew w) (extends_capped _ _)

theorem extends_step (h : ¬call.Resets sid) : Extends (s.versionsOf sid) ((s.step u call).1.versionsOf sid) := by
  have hstatus : ∀ {sid' status now},
      Extends (s.versionsOf sid) ((s.setStatus u sid' status now).1.versionsOf sid) := by
    intro sid' status now
    simp only [Manager.setStatus]
    split
    · exact .refl _
    split
    · exact .refl _
    · exact .refl _
  cases call with
  | get sid' | list status | getVersions sid' | getVersion sid' version => exact .refl _
  | publish sid' now | archive sid' now | setStatus sid' status now => exact hstatus
  | create id name description author template now =>
    have hne : sid ≠ id := fun heq => h heq.symm
    simp only [Manager.step, Manager.create]
    rw [versionsOf_fresh, if_neg hne]
    exact .refl _
  | update token sid' updates now =>
    simp only [Manager.step, Manager.update]
    split
    · exact .refl _
    · exact .refl _
  | resume token =>
    simp only [Manager.step, Manager.resume]
    split
    · exact .refl _
    split
    · exact extends_snapshot
    · exact .refl _
  | delete sid' =>
    simp only [Manager.step, Manager.delete]
    split
    · exact .refl _
    · have hpop := versionsOf_pop (s := s) sid' sid
      rw [if_neg fun heq => h heq.symm] at hpop
      have hsame : ({ s with strategies := s.strategies.pop sid', versions := s.versions.pop sid' } :
          Manager).versionsOf sid = s.versionsOf sid := hpop
      rw [hsame]
      exact .refl _
  | clone sid' id now =>
    have hne : sid ≠ id := fun heq => h heq.symm
    simp only [Manager.step, Manager.clone]
    split
    · exact .refl _
    split
    · exact .refl _
    · rw [versionsOf_fresh, if_neg hne]
      exact .refl _
  | rollback sid' version now =>
    simp only [Manager.step, Manager.rollback]
    split
    · exact .refl _
    split
    · exact .refl _
    split
    · exact .refl _
    · exact extends_set (s := s.bind sid' _) ⟨_, 0, rfl, .inl rfl⟩

end Histories

section Numbers

structure Rising (entries : List VersionEntry) (number : ℤ) : Prop where
  sorted : (entries.map VersionEntry.version).Pairwise (· < ·)
  last : (entries.map VersionEntry.version).getLast? = some number

def Numbered (s : Manager) : Prop :=
  ∀ sid d, s.stored sid = some d → Rising (s.versionsOf sid) d.versionNumber

def Request.Numbers : Request → Prop
  | .call (.update _ _ updates _) => updates.versionNumber = none
  | .importStrategy _ _ file _ => 1 ≤ file.versionNumber
  | _ => True

theorem rising_singleton {e : VersionEntry} {n : ℤ} (h : e.version = n) : Rising [e] n :=
  ⟨List.pairwise_singleton .., by rw [← h]; rfl⟩

theorem Rising.le {entries : List VersionEntry} {n : ℤ} (h : Rising entries n) {e : VersionEntry}
    (he : e ∈ entries) : e.version ≤ n := by
  obtain ⟨l, hl⟩ := List.getLast?_eq_some_iff.mp h.last
  have hmem : e.version ∈ l ++ [n] := hl ▸ List.mem_map_of_mem he
  have hsorted := h.sorted
  rw [hl, List.pairwise_append] at hsorted
  cases List.mem_append.mp hmem with
  | inl hmem => exact (hsorted.2.2 _ hmem n (List.mem_singleton_self n)).le
  | inr hmem => exact (List.mem_singleton.mp hmem).le

theorem Rising.concat {entries : List VersionEntry} {n : ℤ} (h : Rising entries n) {e : VersionEntry}
    (he : n < e.version) : Rising (entries ++ [e]) e.version := by
  refine ⟨?_, by rw [List.map_append, List.map_singleton, List.getLast?_concat]⟩
  rw [List.map_append, List.pairwise_append]
  refine ⟨h.sorted, List.pairwise_singleton .., fun m hm m' hm' => ?_⟩
  obtain ⟨e', he', heq⟩ := List.mem_map.mp hm
  rw [List.mem_singleton.mp hm', ← heq]
  exact (h.le he').trans_lt he

theorem Rising.capped {entries : List VersionEntry} {n : ℤ} (h : Rising entries n) :
    Rising (Manager.capped entries) n := by
  have hne : entries ≠ [] := by
    intro hnil
    have hlast := h.last
    rw [hnil] at hlast
    cases hlast
  have hlen : ¬(entries.map VersionEntry.version).length ≤ entries.length - Manager.maxVersions := by
    have hpos := List.length_pos_iff.mpr hne
    have hmax : 0 < Manager.maxVersions := by decide
    rw [List.length_map]
    omega
  rw [Manager.capped]
  refine ⟨?_, ?_⟩
  · rw [List.map_drop]
    exact h.sorted.sublist (List.drop_sublist _ _)
  · rw [List.map_drop, List.getLast?_drop, if_neg hlen]
    exact h.last

theorem Rising.max? {entries : List VersionEntry} {n : ℤ} (h : Rising entries n) :
    (entries.map VersionEntry.version).max? = some n := by
  rw [List.max?_eq_some_iff]
  refine ⟨List.mem_of_getLast? h.last, fun m hm => ?_⟩
  obtain ⟨e, he, heq⟩ := List.mem_map.mp hm
  exact heq ▸ h.le he

theorem Numbered.puts (hs : Numbered s) (h : Puts s t sid d entries) (hd : Rising entries d.versionNumber) :
    Numbered t := by
  intro sid' d' hd'
  rw [h.stored] at hd'
  rw [h.versions]
  split at hd'
  · next heq =>
    rw [if_pos heq, ← Option.some.inj hd']
    exact hd
  · next hne =>
    rw [if_neg hne]
    exact hs sid' d' hd'

theorem Numbered.removes (hs : Numbered s) (h : Removes s t sid) : Numbered t := by
  intro sid' d' hd'
  rw [h.stored] at hd'
  rw [h.versions]
  split at hd'
  · cases hd'
  · next hne =>
    rw [if_neg hne]
    exact hs sid' d' hd'

theorem Numbered.seen (hs : Numbered s) (h : s.seen u sid = some d) :
    Rising (s.versionsOf sid) d.versionNumber :=
  hs sid d (Option.filter_eq_some_iff.mp h).1

theorem rising_history {updates : Updates} {now : String} (h : Rising entries d.versionNumber)
    (hupdates : updates.versionNumber = none) :
    Rising (Manager.history entries (d.saved updates now) updates) (d.saved updates now).versionNumber := by
  have hnumber : (d.update updates now).versionNumber = d.versionNumber := by
    simp only [Stored.update, hupdates, Option.getD_none]
  simp only [Manager.history, Stored.saved]
  split
  · refine Rising.capped (h.concat (e := ⟨_, _, _⟩) ?_)
    rw [Stored.next, hnumber]
    exact Int.lt_succ _
  · rw [hnumber]
    exact h

theorem draft_versionNumber (id name description author : String) (template : Option Stored) (now : String) :
    (Manager.draft id name description author template now).versionNumber = 1 := by
  cases template with
  | none => rfl
  | some t => rfl

theorem Effect.rising {r : Request} (hs : Numbered s) (hr : r.Numbers)
    (hnew : ∀ id, r.drawn = some id → s.stored id = none) (h : Effect s u r sid d entries) :
    Rising entries d.versionNumber := by
  cases h with
  | create => exact rising_singleton (draft_versionNumber ..).symm
  | clone hseen => exact rising_singleton rfl
  | importNobody hu => exact rising_singleton rfl
  | update hseen => exact rising_history (hs.seen hseen) hr
  | setStatus hseen =>
    have hrising := hs.seen hseen
    exact hrising
  | rollback hseen htarget hnumber =>
    have hrising := hs.seen hseen
    rw [hrising.max?, Option.getD_some] at hnumber
    exact hrising.concat (e := ⟨_, _, _⟩) (hnumber ▸ Int.lt_succ _)
  | importNew hu hseen =>
    exact (rising_singleton rfl).concat (e := ⟨_, _, _⟩) (Int.lt_add_one_of_le hr)
  | importOver hseen =>
    have hstored := (Option.filter_eq_some_iff.mp hseen).1
    rw [hnew _ rfl] at hstored
    cases hstored

theorem numbered_serveAll (rs : List (String × Request)) (hrs : ∀ r ∈ rs, r.2.Numbers)
    (hdrawn : (drawnIds rs).Nodup) : Numbered (Manager.serveAll {} rs) := by
  have hnil : Numbered {} := fun _ _ hd => nomatch hd
  exact (serveAll_keeps rs hdrawn hnil
    (fun hs hr hnew hput heffect => hs.puts hput (heffect.rising hs (hrs _ hr) hnew)) Numbered.removes).1

def sample : List (String × Request) :=
  [(profile, .call (.create "x" "Trend" "" profile none "t")),
    (profile, .call (.update 0 "x" { name := some "Long" } "u")),
    (profile, .importStrategy 1 "y" { id := "z", createdAt := "t", updatedAt := "t", versionNumber := 3 } "v"),
    (profile, .call (.rollback "x" 1 "w"))]

theorem sample_numbers : ∀ r ∈ sample, r.2.Numbers := by
  intro r hr
  fin_cases hr
  · exact trivial
  · rfl
  · exact show (1 : ℤ) ≤ 3 by decide
  · exact trivial

end Numbers

end Trademetrix.Builder

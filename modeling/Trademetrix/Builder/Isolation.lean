import Mathlib.Tactic.FinCases
import Trademetrix.Builder.Manager
import Trademetrix.Noninterference

/-!
# Isolation of tenants

What is kept under an id stays of the user it was made for, whatever is requested and in
whatever order; and so no user can tell that there are others.
-/

/-!
## Tenants of the store

Every id is made for one user. As long as no update gives a strategy away, what a user is
answered in a run, and what it finds stored at the end, is what it would be without the
requests of all others.
-/

namespace Trademetrix.Builder

variable {home : String → String} {s t : Manager} {u v sid : String} {ref : ℕ} {d : Stored}

def madeFor (home : String → String) (u sid : String) : Bool := home sid = u

theorem ne_of_home {sid' : String} (hsid : home sid ≠ u) (hsid' : home sid' = u) : sid' ≠ sid :=
  fun heq => hsid (heq ▸ hsid')

structure OwnedBy (u : String) (d : Stored) : Prop where
  userId : ∀ o, d.userId = some o → o = "" ∨ o = u
  author : isUuid d.author = true → d.author = u

theorem OwnedBy.eq_of_visible (h : OwnedBy u d) (hv : visibleTo d v = true) : v = u := by
  have howner : ownerOf d = some v := of_decide_eq_true hv
  have hauthor : (if isUuid d.author then some d.author else none) = some v → v = u := by
    intro heq
    split at heq
    · next huuid => exact (Option.some.inj heq).symm.trans (h.author huuid)
    · cases heq
  simp only [ownerOf] at howner
  split at howner
  · next o ho =>
    split at howner
    · next hne => exact (Option.some.inj howner) ▸ (h.userId o ho).resolve_left hne
    · exact hauthor howner
  · exact hauthor howner

/-- Everything that is kept under an id is of the user it was made for, as far as `P` says. -/
structure Kept (P : String → Stored → Prop) (home : String → String) (s : Manager) : Prop where
  objects : ∀ sid, ∀ d ∈ s.objectsOf sid, P (home sid) d
  versions : ∀ sid, ∀ e ∈ s.versionsOf sid, P (home sid) e.data
  waiting : ∀ w ∈ s.waiting, home w.sid = w.user

abbrev Homed : (String → String) → Manager → Prop := Kept OwnedBy

structure Agree (home : String → String) (u : String) (s t : Manager) : Prop where
  strategies : s.strategies.onKeys (madeFor home u) = t.strategies.onKeys (madeFor home u)
  objects : ∀ sid, home sid = u → s.objectsOf sid = t.objectsOf sid
  versions : ∀ sid, home sid = u → s.versionsOf sid = t.versionsOf sid
  waiting : s.waiting.filter (·.user = u) = t.waiting.filter (·.user = u)

/-- New ids are made for the user, and what is stored for it is in `P`. -/
def Call.Fits (P : String → Stored → Prop) (home : String → String) (user : String) : Call → Prop
  | .create id name description author template now =>
    home id = user ∧ P user (Manager.draft id name description author template now) ∧
      P user { Manager.draft id name description author template now with userId := some user }
  | .update _ _ updates now => ∀ d, P user d → P user (d.update updates now)
  | .clone _ id _ => home id = user
  | _ => True

section Parts

theorem stored_mem (h : s.stored sid = some d) : d ∈ s.objectsOf sid := by
  rw [Manager.stored, Option.bind_eq_some_iff] at h
  obtain ⟨ref, -, h⟩ := h
  exact List.mem_of_getElem? h

theorem Homed.home_eq_of_seen (hs : Homed home s) (h : s.seen u sid = some d) : home sid = u := by
  obtain ⟨hstored, hvisible⟩ := Option.filter_eq_some_iff.mp h
  exact ((hs.objects sid d (stored_mem hstored)).eq_of_visible hvisible).symm

theorem Agree.get_strategies (h : Agree home u s t) (hsid : home sid = u) :
    s.strategies.get sid = t.strategies.get sid := by
  have hkey : madeFor home u sid = true := decide_eq_true hsid
  rw [← Dict.get_onKeys _ s.strategies sid hkey, h.strategies, Dict.get_onKeys _ t.strategies sid hkey]

theorem Agree.seen (hs : Homed home s) (ht : Homed home t) (h : Agree home u s t) :
    s.seen u sid = t.seen u sid := by
  by_cases hsid : home sid = u
  · rw [Manager.seen, Manager.seen, Manager.stored, Manager.stored, h.get_strategies hsid,
      h.objects sid hsid]
  · have hnone : ∀ r : Manager, Homed home r → r.seen u sid = none := by
      intro r hr
      cases hseen : r.seen u sid with
      | none => rfl
      | some d => exact absurd (hr.home_eq_of_seen hseen) hsid
    rw [hnone s hs, hnone t ht]

theorem objectsOf_bind (sid' : String) :
    (s.bind sid d).objectsOf sid' = if sid' = sid then s.objectsOf sid ++ [d] else s.objectsOf sid' := by
  simp only [Manager.objectsOf, Manager.bind, Dict.get_set]
  split
  · rfl
  · rfl

theorem objectsOf_mutate (f : Stored → Stored) (sid' : String) :
    (s.mutate sid ref f).objectsOf sid' =
      if sid' = sid then (s.objectsOf sid).modify ref f else s.objectsOf sid' := by
  simp only [Manager.objectsOf, Manager.mutate, Dict.get_set]
  split
  · rfl
  · rfl

theorem versionsOf_set (entries : List VersionEntry) (sid' : String) :
    ({ s with versions := s.versions.set sid entries } : Manager).versionsOf sid' =
      if sid' = sid then entries else s.versionsOf sid' := by
  simp only [Manager.versionsOf, Dict.get_set]
  split
  · rfl
  · rfl

end Parts

section Agreement

variable {entries : List VersionEntry} {ws ws' : List Waiting}

theorem Agree.bind (h : Agree home u s t) (hsid : home sid = u) :
    Agree home u (s.bind sid d) (t.bind sid d) := by
  refine ⟨?_, fun sid' hsid' => ?_, h.versions, h.waiting⟩
  · simp only [Manager.bind]
    rw [Dict.onKeys_set (madeFor home u) _ _ _ (decide_eq_true hsid),
      Dict.onKeys_set (madeFor home u) _ _ _ (decide_eq_true hsid),
      h.strategies, h.objects sid hsid]
  · rw [objectsOf_bind, objectsOf_bind, h.objects sid hsid, h.objects sid' hsid']

theorem Agree.bind_of_ne (h : Agree home u s t) (hsid : home sid ≠ u) : Agree home u (s.bind sid d) t := by
  have hkey : ¬madeFor home u sid = true := by simpa [madeFor] using hsid
  refine ⟨?_, fun sid' hsid' => ?_, h.versions, h.waiting⟩
  · simp only [Manager.bind]
    rw [Dict.onKeys_set_of_not _ _ _ _ hkey, h.strategies]
  · rw [objectsOf_bind, if_neg (ne_of_home hsid hsid'), h.objects sid' hsid']

theorem Agree.mutate (f : Stored → Stored) (h : Agree home u s t) :
    Agree home u (s.mutate sid ref f) (t.mutate sid ref f) := by
  refine ⟨h.strategies, fun sid' hsid' => ?_, h.versions, h.waiting⟩
  rw [objectsOf_mutate, objectsOf_mutate]
  split
  · next heq => rw [h.objects sid (heq ▸ hsid')]
  · exact h.objects sid' hsid'

theorem Agree.mutate_of_ne (f : Stored → Stored) (h : Agree home u s t) (hsid : home sid ≠ u) :
    Agree home u (s.mutate sid ref f) t := by
  refine ⟨h.strategies, fun sid' hsid' => ?_, h.versions, h.waiting⟩
  rw [objectsOf_mutate, if_neg (ne_of_home hsid hsid'), h.objects sid' hsid']

theorem Agree.setVersions (h : Agree home u s t) :
    Agree home u { s with versions := s.versions.set sid entries }
      { t with versions := t.versions.set sid entries } := by
  refine ⟨h.strategies, h.objects, fun sid' hsid' => ?_, h.waiting⟩
  rw [versionsOf_set, versionsOf_set, h.versions sid' hsid']

theorem Agree.setVersions_of_ne (h : Agree home u s t) (hsid : home sid ≠ u) :
    Agree home u { s with versions := s.versions.set sid entries } t := by
  refine ⟨h.strategies, h.objects, fun sid' hsid' => ?_, h.waiting⟩
  rw [versionsOf_set, if_neg (ne_of_home hsid hsid'), h.versions sid' hsid']

theorem Agree.setCurrent (h : Agree home u s t) (hsid : home sid = u) :
    Agree home u { s with strategies := s.strategies.set sid ref }
      { t with strategies := t.strategies.set sid ref } := by
  refine ⟨?_, h.objects, h.versions, h.waiting⟩
  dsimp only
  rw [Dict.onKeys_set (madeFor home u) _ _ _ (decide_eq_true hsid),
    Dict.onKeys_set (madeFor home u) _ _ _ (decide_eq_true hsid), h.strategies]

theorem Agree.setCurrent_of_ne (h : Agree home u s t) (hsid : home sid ≠ u) :
    Agree home u { s with strategies := s.strategies.set sid ref } t := by
  have hkey : ¬madeFor home u sid = true := by simpa [madeFor] using hsid
  refine ⟨?_, h.objects, h.versions, h.waiting⟩
  dsimp only
  rw [Dict.onKeys_set_of_not _ _ _ _ hkey, h.strategies]

theorem Agree.setWaiting (h : Agree home u s t) (hws : ws.filter (·.user = u) = ws'.filter (·.user = u)) :
    Agree home u { s with waiting := ws } { t with waiting := ws' } :=
  ⟨h.strategies, h.objects, h.versions, hws⟩

theorem versionsOf_pop (sid sid' : String) :
    ({ s with versions := s.versions.pop sid } : Manager).versionsOf sid' =
      if sid' = sid then [] else s.versionsOf sid' := by
  simp only [Manager.versionsOf, Dict.get_pop]
  split
  · rfl
  · rfl

theorem Agree.drop (h : Agree home u s t) :
    Agree home u { s with strategies := s.strategies.pop sid, versions := s.versions.pop sid }
      { t with strategies := t.strategies.pop sid, versions := t.versions.pop sid } := by
  refine ⟨?_, h.objects, fun sid' hsid' => ?_, h.waiting⟩
  · dsimp only
    rw [Dict.onKeys_pop, Dict.onKeys_pop, h.strategies]
  · have hs := versionsOf_pop (s := s) sid sid'
    have ht := versionsOf_pop (s := t) sid sid'
    rw [← h.versions sid' hsid', ← hs] at ht
    exact ht.symm

theorem Agree.drop_of_ne (h : Agree home u s t) (hsid : home sid ≠ u) :
    Agree home u { s with strategies := s.strategies.pop sid, versions := s.versions.pop sid } t := by
  have hkey : ¬madeFor home u sid = true := by simpa [madeFor] using hsid
  refine ⟨?_, h.objects, fun sid' hsid' => ?_, h.waiting⟩
  · dsimp only
    rw [Dict.onKeys_pop_of_not _ _ _ hkey, h.strategies]
  · have hs := versionsOf_pop (s := s) sid sid'
    rw [if_neg (ne_of_home hsid hsid')] at hs
    exact hs.trans (h.versions sid' hsid')

theorem Agree.fresh {snapshot : Stored} {savedAt : String} (h : Agree home u s t) (hsid : home sid = u) :
    Agree home u (s.fresh sid d snapshot savedAt) (t.fresh sid d snapshot savedAt) :=
  (h.bind hsid).setVersions

theorem Agree.fresh_of_ne {snapshot : Stored} {savedAt : String} (h : Agree home u s t)
    (hsid : home sid ≠ u) : Agree home u (s.fresh sid d snapshot savedAt) t :=
  (h.bind_of_ne hsid).setVersions_of_ne hsid

theorem Agree.renew {w : Waiting} (h : Agree home u s t) (hsid : home w.sid = u) :
    Agree home u (s.renew w) (t.renew w) :=
  (h.mutate _).setCurrent hsid

theorem Agree.snapshot {w : Waiting} (h : Agree home u s t) (hsid : home w.sid = u) :
    Agree home u (s.snapshot w) (t.snapshot w) := by
  have hrenew := h.renew hsid
  simp only [Manager.snapshot]
  rw [hrenew.objects w.sid hsid, hrenew.versions w.sid hsid]
  split
  · exact hrenew
  · exact hrenew.setVersions

theorem Agree.snapshot_of_ne {w : Waiting} (h : Agree home u s t) (hsid : home w.sid ≠ u) :
    Agree home u (s.snapshot w) t := by
  have hrenew : Agree home u (s.renew w) t := (h.mutate_of_ne _ hsid).setCurrent_of_ne hsid
  simp only [Manager.snapshot]
  split
  · exact hrenew
  · exact hrenew.setVersions_of_ne hsid

end Agreement

section Waits

variable {token : ℕ} {w : Waiting}

theorem settled_user : (Manager.settled v token w).user = w.user := by
  rw [Manager.settled]
  split <;> rfl

theorem settled_sid : (Manager.settled v token w).sid = w.sid := by
  rw [Manager.settled]
  split <;> rfl

theorem settled_ref : (Manager.settled v token w).ref = w.ref := by
  rw [Manager.settled]
  split <;> rfl

theorem snapshot_waiting : (s.snapshot w).waiting = s.waiting := by
  simp only [Manager.snapshot]
  split <;> rfl

theorem user_of_held (h : Manager.held v token w = true) : w.user = v := by
  simp only [Manager.held, Bool.and_eq_true, decide_eq_true_eq] at h
  exact h.1

theorem filter_settled (ws : List Waiting) :
    (ws.map (Manager.settled v token)).filter (·.user = u) =
      (ws.filter (·.user = u)).map (Manager.settled v token) := by
  rw [List.filter_map]
  congr 2
  funext w
  rw [Function.comp_apply, settled_user]

theorem filter_settled_of_ne (hne : v ≠ u) (ws : List Waiting) :
    (ws.map (Manager.settled v token)).filter (·.user = u) = ws.filter (·.user = u) := by
  rw [filter_settled]
  refine (List.map_congr_left fun w hw => ?_).trans (List.map_id _)
  have huser : w.user = u := of_decide_eq_true (List.mem_filter.mp hw).2
  have hnot : ¬Manager.held v token w = true := fun hheld => hne ((user_of_held hheld).symm.trans huser)
  rw [Manager.settled, if_neg hnot, id]

theorem filter_dropped (ws : List Waiting) :
    (ws.filter fun w => !Manager.held v token w).filter (·.user = u) =
      (ws.filter (·.user = u)).filter fun w => !Manager.held v token w := by
  rw [List.filter_filter, List.filter_filter]
  congr 1
  funext w
  rw [Bool.and_comm]

theorem filter_dropped_of_ne (hne : v ≠ u) (ws : List Waiting) :
    (ws.filter fun w => !Manager.held v token w).filter (·.user = u) = ws.filter (·.user = u) := by
  rw [filter_dropped, List.filter_eq_self]
  intro w hw
  have huser : w.user = u := of_decide_eq_true (List.mem_filter.mp hw).2
  have hnot : ¬Manager.held v token w = true := fun hheld => hne ((user_of_held hheld).symm.trans huser)
  simpa using hnot

theorem find_held (ws : List Waiting) :
    (ws.filter (·.user = u)).find? (Manager.held u token) = ws.find? (Manager.held u token) := by
  rw [List.find?_filter]
  congr 1
  funext w
  by_cases hheld : Manager.held u token w = true
  · simp [hheld, user_of_held hheld]
  · simp [hheld]

end Waits

section Steps

theorem Agree.setStatus_of_ne {status : StrategyStatus} {now : String}
    (hother : ∀ {d}, s.seen v sid = some d → home sid ≠ u) (h : Agree home u s t) :
    Agree home u (s.setStatus v sid status now).1 t := by
  simp only [Manager.setStatus]
  split
  · exact h
  next d hseen =>
  split
  · exact h
  · exact h.bind_of_ne (hother hseen)

theorem Agree.step_of_ne {call : Call} (hs : Homed home s) (hcall : call.Fits OwnedBy home v) (hne : v ≠ u)
    (h : Agree home u s t) : Agree home u (s.step v call).1 t := by
  have hother : ∀ {sid d}, s.seen v sid = some d → home sid ≠ u := fun hseen heq =>
    hne ((hs.home_eq_of_seen hseen).symm.trans heq)
  cases call with
  | create id name description author template now =>
    exact h.fresh_of_ne fun heq => hne (hcall.1.symm.trans heq)
  | get sid | list status | getVersions sid | getVersion sid version => exact h
  | update token sid updates now =>
    simp only [Manager.step, Manager.update]
    split
    · exact h
    next d hseen =>
    refine Agree.setWaiting (h.mutate_of_ne _ (hother hseen)) ?_
    rw [List.filter_append, List.filter_cons_of_neg (by simpa using hne), List.filter_nil, List.append_nil]
    exact h.waiting
  | resume token =>
    simp only [Manager.step, Manager.resume]
    split
    · exact h
    next w hw =>
    have huser : w.user = v := user_of_held (List.find?_some hw)
    have hhome : home w.sid ≠ u := by
      rw [hs.waiting w (List.mem_of_find?_eq_some hw), huser]
      exact hne
    split
    · exact (h.snapshot_of_ne hhome).setWaiting ((filter_settled_of_ne hne _).trans h.waiting)
    · exact h.setWaiting ((filter_dropped_of_ne hne _).trans h.waiting)
  | delete sid =>
    simp only [Manager.step, Manager.delete]
    split
    · exact h
    · next d hseen => exact h.drop_of_ne (hother hseen)
  | publish sid now | archive sid now | setStatus sid status now => exact h.setStatus_of_ne hother
  | clone sid id now =>
    simp only [Manager.step, Manager.clone]
    split
    · exact h
    split
    · exact h
    · exact h.fresh_of_ne fun heq => hne (hcall.symm.trans heq)
  | rollback sid version now =>
    simp only [Manager.step, Manager.rollback]
    split
    · exact h
    next d hseen =>
    split
    · exact h
    split
    · exact h
    · exact (h.bind_of_ne (hother hseen)).setVersions_of_ne (hother hseen)

theorem Agree.setStatus {status : StrategyStatus} {now : String} (hs : Homed home s) (ht : Homed home t)
    (h : Agree home u s t) :
    Agree home u (s.setStatus u sid status now).1 (t.setStatus u sid status now).1 ∧
      (s.setStatus u sid status now).2 = (t.setStatus u sid status now).2 := by
  simp only [Manager.setStatus]
  rw [← h.seen hs ht]
  split
  · exact ⟨h, rfl⟩
  next d hseen =>
  split
  · exact ⟨h, rfl⟩
  · exact ⟨h.bind (hs.home_eq_of_seen hseen), rfl⟩

theorem Agree.list {status : Option StrategyStatus} (hs : Homed home s) (ht : Homed home t)
    (h : Agree home u s t) : s.list u status = t.list u status := by
  have hown : ∀ r : Manager, Homed home r →
      (r.strategies.filterMap fun e => (r.objectsOf e.1)[e.2]?).filter (visibleTo · u) =
        ((r.strategies.onKeys (madeFor home u)).filterMap fun e => (r.objectsOf e.1)[e.2]?).filter
          (visibleTo · u) := by
    intro r hr
    rw [Dict.onKeys, List.filter_filterMap, List.filter_filterMap, List.filterMap_filter]
    refine List.filterMap_congr fun e _ => ?_
    split
    · rfl
    next hnot =>
    cases hobj : (r.objectsOf e.1)[e.2]? with
    | none => rfl
    | some d =>
      have hinvisible : ¬visibleTo d u = true := fun hvisible =>
        hnot (decide_eq_true ((hr.objects e.1 d (List.mem_of_getElem? hobj)).eq_of_visible hvisible).symm)
      simp [hinvisible]
  have hsame : (s.strategies.onKeys (madeFor home u)).filterMap (fun e => (s.objectsOf e.1)[e.2]?) =
      (t.strategies.onKeys (madeFor home u)).filterMap fun e => (t.objectsOf e.1)[e.2]? := by
    rw [h.strategies]
    refine List.filterMap_congr fun e he => ?_
    rw [h.objects e.1 (of_decide_eq_true (List.mem_filter.mp he).2)]
  simp only [Manager.list]
  rw [hown s hs, hown t ht, hsame]

theorem Agree.step {call : Call} (hs : Homed home s) (ht : Homed home t) (hcall : call.Fits OwnedBy home u)
    (h : Agree home u s t) :
    Agree home u (s.step u call).1 (t.step u call).1 ∧ (s.step u call).2 = (t.step u call).2 := by
  cases call with
  | create id name description author template now => exact ⟨h.fresh hcall.1, rfl⟩
  | get sid => exact ⟨h, by simp only [Manager.step, Manager.get, h.seen hs ht]⟩
  | list status => exact ⟨h, h.list hs ht⟩
  | getVersions sid =>
    refine ⟨h, ?_⟩
    simp only [Manager.step, Manager.getVersions]
    rw [← h.seen hs ht]
    split
    · rfl
    · next d hseen => rw [h.versions sid (hs.home_eq_of_seen hseen)]
  | getVersion sid version =>
    refine ⟨h, ?_⟩
    simp only [Manager.step, Manager.getVersion]
    rw [← h.seen hs ht]
    split
    · rfl
    · next d hseen => rw [h.versions sid (hs.home_eq_of_seen hseen)]
  | update token sid updates now =>
    simp only [Manager.step, Manager.update]
    rw [← h.seen hs ht]
    split
    · exact ⟨h, rfl⟩
    next d hseen =>
    rw [← h.get_strategies (hs.home_eq_of_seen hseen)]
    refine ⟨Agree.setWaiting (h.mutate _) ?_, rfl⟩
    rw [List.filter_append, List.filter_append]
    exact congrArg (· ++ _) h.waiting
  | resume token =>
    have hfind : s.waiting.find? (Manager.held u token) = t.waiting.find? (Manager.held u token) := by
      rw [← find_held s.waiting, ← find_held t.waiting, h.waiting]
    simp only [Manager.step, Manager.resume]
    rw [← hfind]
    split
    · exact ⟨h, rfl⟩
    next w hw =>
    have hhome : home w.sid = u :=
      (hs.waiting w (List.mem_of_find?_eq_some hw)).trans (user_of_held (List.find?_some hw))
    split
    · refine ⟨(h.snapshot hhome).setWaiting ?_, rfl⟩
      rw [filter_settled, filter_settled, h.waiting]
    · refine ⟨h.setWaiting ?_, by rw [h.objects w.sid hhome]⟩
      rw [filter_dropped, filter_dropped, h.waiting]
  | delete sid =>
    simp only [Manager.step, Manager.delete]
    rw [← h.seen hs ht]
    split
    · exact ⟨h, rfl⟩
    · exact ⟨h.drop, rfl⟩
  | publish sid now | archive sid now | setStatus sid status now => exact h.setStatus hs ht
  | clone sid id now =>
    simp only [Manager.step, Manager.clone]
    rw [← h.seen hs ht]
    split
    · exact ⟨h, rfl⟩
    split
    · exact ⟨h, rfl⟩
    · exact ⟨h.fresh hcall, rfl⟩
  | rollback sid version now =>
    simp only [Manager.step, Manager.rollback]
    rw [← h.seen hs ht]
    split
    · exact ⟨h, rfl⟩
    next d hseen =>
    have hhome := hs.home_eq_of_seen hseen
    rw [← h.versions sid hhome]
    split
    · exact ⟨h, rfl⟩
    split
    · exact ⟨h, rfl⟩
    · exact ⟨(h.bind hhome).setVersions, rfl⟩

end Steps

end Trademetrix.Builder

namespace Trademetrix.Builder

variable {P : String → Stored → Prop} {home : String → String} {s t : Manager} {u v sid : String}
  {ref : ℕ} {d : Stored}

section Homes

structure Ownership (P : String → Stored → Prop) : Prop where
  owned : ∀ {u d}, P u d → OwnedBy u d
  congr : ∀ {u} {d d' : Stored}, P u d → d'.userId = d.userId → d'.author = d.author → P u d'

variable {entries : List VersionEntry} {f : Stored → Stored}

theorem ownership_ownedBy : Ownership OwnedBy where
  owned h := h
  congr h huser hauthor := by
    refine ⟨fun o ho => h.userId o (huser ▸ ho), fun huuid => ?_⟩
    rw [hauthor] at huuid ⊢
    exact h.author huuid

theorem Kept.homed (hP : Ownership P) (hs : Kept P home s) : Homed home s :=
  ⟨fun sid d hd => hP.owned (hs.objects sid d hd), fun sid e he => hP.owned (hs.versions sid e he), hs.waiting⟩

theorem Kept.of_seen (hs : Kept P home s) (h : s.seen u sid = some d) : P (home sid) d :=
  hs.objects sid d (stored_mem (Option.filter_eq_some_iff.mp h).1)

theorem Kept.bind (hs : Kept P home s) (hd : P (home sid) d) : Kept P home (s.bind sid d) := by
  refine ⟨fun sid' d' hd' => ?_, hs.versions, hs.waiting⟩
  rw [objectsOf_bind] at hd'
  split at hd'
  · next heq =>
    rw [heq]
    cases List.mem_append.mp hd' with
    | inl hd' => exact hs.objects sid d' hd'
    | inr hd' => exact List.mem_singleton.mp hd' ▸ hd
  · exact hs.objects sid' d' hd'

theorem Kept.mutate (hs : Kept P home s) (hf : ∀ d, P (home sid) d → P (home sid) (f d)) :
    Kept P home (s.mutate sid ref f) := by
  refine ⟨fun sid' d' hd' => ?_, hs.versions, hs.waiting⟩
  rw [objectsOf_mutate] at hd'
  split at hd'
  · next heq =>
    rw [heq]
    obtain ⟨i, hi, hget⟩ := List.mem_iff_getElem.mp hd'
    rw [List.getElem_modify] at hget
    split at hget
    · exact hget ▸ hf _ (hs.objects sid _ (List.getElem_mem _))
    · exact hget ▸ hs.objects sid _ (List.getElem_mem _)
  · exact hs.objects sid' d' hd'

theorem Kept.setVersions (hs : Kept P home s) (hentries : ∀ e ∈ entries, P (home sid) e.data) :
    Kept P home { s with versions := s.versions.set sid entries } := by
  refine ⟨hs.objects, fun sid' e he => ?_, hs.waiting⟩
  rw [versionsOf_set] at he
  split at he
  · next heq => exact heq ▸ hentries e he
  · exact hs.versions sid' e he

theorem Kept.addVersion {e : VersionEntry} {n : ℕ} (hs : Kept P home s) (he : P (home sid) e.data) :
    Kept P home { s with versions := s.versions.set sid ((s.versionsOf sid ++ [e]).drop n) } := by
  refine hs.setVersions fun e' he' => ?_
  cases List.mem_append.mp (List.mem_of_mem_drop he') with
  | inl he' => exact hs.versions sid e' he'
  | inr he' => exact List.mem_singleton.mp he' ▸ he

theorem Kept.snapshot {w : Waiting} (hP : Ownership P) (hs : Kept P home s) : Kept P home (s.snapshot w) := by
  have hmutate : Kept P home (s.mutate w.sid w.ref fun d => { d with versionNumber := d.versionNumber + 1 }) :=
    hs.mutate fun d hd => hP.congr hd rfl rfl
  have hrenew : Kept P home (s.renew w) := ⟨hmutate.objects, hmutate.versions, hmutate.waiting⟩
  simp only [Manager.snapshot]
  split
  · exact hrenew
  · next data hdata => exact hrenew.addVersion (hrenew.objects w.sid data (List.mem_of_getElem? hdata))

theorem parsed_eq {dsl : Stored} (h : d.parsed = some dsl) : dsl = d := by
  rw [Stored.parsed] at h
  split at h
  · cases h
  · exact (Option.some.inj h).symm

theorem Kept.setStatus {status : StrategyStatus} {now : String} (hP : Ownership P) (hs : Kept P home s) :
    Kept P home (s.setStatus v sid status now).1 := by
  simp only [Manager.setStatus]
  split
  · exact hs
  next d hseen =>
  split
  · exact hs
  next dsl hdsl =>
  have hd := hs.of_seen hseen
  rw [← parsed_eq hdsl] at hd
  exact hs.bind (hP.congr hd rfl rfl)

theorem Kept.step {call : Call} (hP : Ownership P) (hs : Kept P home s) (hcall : call.Fits P home u) :
    Kept P home (s.step u call).1 := by
  have hhome : ∀ {sid d}, s.seen u sid = some d → home sid = u := fun hseen =>
    (hs.homed hP).home_eq_of_seen hseen
  cases call with
  | get sid | list status | getVersions sid | getVersion sid version => exact hs
  | publish sid now | archive sid now | setStatus sid status now => exact hs.setStatus hP
  | create id name description author template now =>
    obtain ⟨hid, hdraft, howned⟩ := hcall
    subst hid
    refine Kept.setVersions (Kept.bind hs howned) fun e he => ?_
    rw [List.mem_singleton.mp he]
    exact hdraft
  | update token sid updates now =>
    simp only [Manager.step, Manager.update]
    split
    · exact hs
    next d hseen =>
    have hmutate : Kept P home (s.mutate sid ((s.strategies.get sid).getD 0) (·.update updates now)) := by
      refine hs.mutate fun d hd => ?_
      rw [hhome hseen] at hd ⊢
      exact hcall d hd
    refine ⟨hmutate.objects, hmutate.versions, fun w hw => ?_⟩
    cases List.mem_append.mp hw with
    | inl hw => exact hmutate.waiting w hw
    | inr hw => exact List.mem_singleton.mp hw ▸ hhome hseen
  | resume token =>
    simp only [Manager.step, Manager.resume]
    split
    · exact hs
    next w hw =>
    split
    · have hsnapshot := hs.snapshot (w := w) hP
      refine ⟨hsnapshot.objects, hsnapshot.versions, fun w hw => ?_⟩
      obtain ⟨w', hw', heq⟩ := List.mem_map.mp hw
      rw [← heq, settled_sid, settled_user]
      exact hs.waiting w' hw'
    · exact ⟨hs.objects, hs.versions, fun w hw => hs.waiting w (List.mem_of_mem_filter hw)⟩
  | delete sid =>
    simp only [Manager.step, Manager.delete]
    split
    · exact hs
    refine ⟨hs.objects, fun sid' e he => ?_, hs.waiting⟩
    have hpop : e ∈ ({ s with versions := s.versions.pop sid } : Manager).versionsOf sid' := he
    rw [versionsOf_pop] at hpop
    split at hpop
    · cases hpop
    · exact hs.versions sid' e hpop
  | clone sid id now =>
    simp only [Manager.step, Manager.clone]
    split
    · exact hs
    next d hseen =>
    split
    · exact hs
    next dsl hdsl =>
    have hd := hs.of_seen hseen
    rw [hhome hseen, ← hcall, ← parsed_eq hdsl] at hd
    refine Kept.setVersions (hs.bind (hP.congr hd rfl rfl)) fun e he => ?_
    rw [List.mem_singleton.mp he]
    exact hP.congr hd rfl rfl
  | rollback sid version now =>
    simp only [Manager.step, Manager.rollback]
    split
    · exact hs
    split
    · exact hs
    next target htarget =>
    split
    · exact hs
    next dsl hdsl =>
    have hd := hs.versions sid target (List.mem_of_find?_eq_some htarget)
    rw [← parsed_eq hdsl] at hd
    refine Kept.setVersions (hs.bind (hP.congr hd rfl rfl)) fun e he => ?_
    cases List.mem_append.mp he with
    | inl he => exact hs.versions sid e he
    | inr he =>
      rw [List.mem_singleton.mp he]
      exact hP.congr hd rfl rfl

theorem kept_nil : Kept P home {} :=
  ⟨(fun _ _ hd => nomatch hd), (fun _ _ he => nomatch he), fun _ hw => nomatch hw⟩

end Homes

section Isolation

/-- What a request may do with ids and owners: new ids are of the user, and nothing is given away. -/
def Call.Keeps (home : String → String) (user : String) : Call → Prop
  | .create id _ _ author template _ =>
    home id = user ∧ (isUuid author = true → author = user) ∧ ∀ t, template = some t → t.userId = some ""
  | .update _ _ updates _ =>
    (∀ o, updates.userId = some o → o = "" ∨ o = user) ∧
      ∀ a, updates.author = some a → isUuid a = true → a = user
  | .clone _ id _ => home id = user
  | _ => True

theorem draft_author (id name description author : String) (template : Option Stored) (now : String) :
    (Manager.draft id name description author template now).author = author := by
  cases template with
  | none => rfl
  | some t => rfl

theorem draft_userId {id name description author : String} {template : Option Stored} {now : String}
    (h : ∀ t, template = some t → t.userId = some "") :
    (Manager.draft id name description author template now).userId = some "" := by
  cases template with
  | none => rfl
  | some t => exact h t rfl

theorem update_userId {updates : Updates} {now o : String} (h : (d.update updates now).userId = some o) :
    updates.userId = some o ∨ d.userId = some o := by
  simp only [Stored.update] at h
  cases hset : updates.userId with
  | none => exact .inr (by simpa [hset] using h)
  | some o' => exact .inl (by simpa [hset] using h)

theorem Call.Keeps.fits {call : Call} (h : call.Keeps home u) : call.Fits OwnedBy home u := by
  cases call with
  | create id name description author template now =>
    obtain ⟨hid, hauthor, htemplate⟩ := h
    refine ⟨hid, ⟨fun o ho => .inl ?_, fun huuid => ?_⟩, fun o ho => .inr ?_, fun huuid => ?_⟩
    · exact Option.some.inj (ho.symm.trans (draft_userId htemplate))
    · rw [draft_author] at huuid ⊢
      exact hauthor huuid
    · exact (Option.some.inj ho).symm
    · dsimp only at huuid ⊢
      rw [draft_author] at huuid ⊢
      exact hauthor huuid
  | update token sid updates now =>
    intro d hd
    refine ⟨fun o ho => ?_, fun huuid => ?_⟩
    · cases update_userId ho with
      | inl hset => exact h.1 o hset
      | inr hold => exact hd.userId o hold
    · simp only [Stored.update] at huuid ⊢
      cases hset : updates.author with
      | none =>
        rw [hset, Option.getD_none] at huuid
        exact hd.author huuid
      | some a =>
        rw [hset, Option.getD_some] at huuid
        exact h.2 a hset huuid
  | clone sid id now => exact h
  | get _ | list _ | getVersions _ | getVersion _ _ | resume _ | delete _ | publish _ _ | archive _ _
  | setStatus _ _ _ | rollback _ _ _ => trivial

def tenancy : Shared Manager (String × Call) Reply String where
  step s e := s.step e.1 e.2
  who := Prod.fst

theorem tenancy_unwinds (home : String → String) :
    tenancy.Unwinds (Homed home) (fun e => e.2.Keeps home e.1) (Agree home) where
  inv hs he := hs.step ownership_ownedBy he.fits
  others hs he hne hagree := hagree.step_of_ne hs he.fits hne
  mine hs ht he hwho hagree := by
    cases hwho
    exact hagree.step hs ht he.fits

def profile : String := "3f2b8a9c-1d4e-4f6a-8b0c-5d7e9f1a2b3c"

def neighbour : String := "8b0c5d7e-9f1a-4b3c-8d4e-2b8a9c1d4e6f"

def neighbours : List (String × Call) :=
  [(profile, .create "x" "Trend" "" profile none "t"), (neighbour, .create "y" "Range" "" neighbour none "t"),
    (neighbour, .update 0 "x" { name := some "Mine" } "u"), (profile, .clone "x" "z" "v")]

def sampleHome (sid : String) : String := if sid = "y" then neighbour else profile

end Isolation

end Trademetrix.Builder

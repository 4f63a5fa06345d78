import Trademetrix.Builder.Isolation

/-!
# Ownership of strategies

A strategy that its user creates for itself stays visible to it until the user deletes it,
through every update, rollback and change of status: where a snapshot records no owner, the
author still names it.
-/

namespace Trademetrix.Builder

variable {home : String → String} {s : Manager} {u v sid : String} {ref : ℕ} {d : Stored} {call : Call}

structure Belongs (u : String) (d : Stored) : Prop where
  author : d.author = u
  userId : d.userId = some "" ∨ d.userId = some u

theorem Belongs.visible (h : Belongs u d) (hu : isUuid u = true) : visibleTo d u = true := by
  have hne : u ≠ "" := fun heq => by
    rw [heq] at hu
    exact absurd hu (by decide)
  refine decide_eq_true ?_
  cases h.userId with
  | inl hempty => simp [ownerOf, hempty, h.author, hu]
  | inr hown => simp [ownerOf, hown, hne]

theorem ownership_belongs : Ownership Belongs where
  owned h := by
    refine ⟨fun o ho => ?_, fun _ => h.author⟩
    cases h.userId with
    | inl hempty => exact .inl (Option.some.inj (ho.symm.trans hempty))
    | inr hown => exact .inr (Option.some.inj (ho.symm.trans hown))
  congr h huser hauthor := ⟨hauthor.trans h.author, by rw [huser]; exact h.userId⟩

def Call.Routed (home : String → String) (user : String) : Call → Prop
  | .create id _ _ author template _ =>
    home id = user ∧ author = user ∧ ∀ t, template = some t → t.userId = some ""
  | .update _ _ updates _ => updates.userId = none ∧ updates.author = none
  | .clone _ id _ => home id = user
  | _ => True

theorem Call.Routed.fits (h : call.Routed home u) : call.Fits Belongs home u := by
  cases call with
  | create id name description author template now =>
    obtain ⟨hid, hauthor, htemplate⟩ := h
    refine ⟨hid, ⟨?_, .inl (draft_userId htemplate)⟩, ?_, .inr rfl⟩
    · exact (draft_author ..).trans hauthor
    · exact (draft_author ..).trans hauthor
  | update token sid updates now =>
    intro d hd
    refine ownership_belongs.congr hd ?_ ?_
    · simp only [Stored.update, h.1, Option.none_or]
    · simp only [Stored.update, h.2, Option.getD_none]
  | clone sid id now => exact h
  | get _ | list _ | getVersions _ | getVersion _ _ | resume _ | delete _ | publish _ _ | archive _ _
  | setStatus _ _ _ | rollback _ _ _ => trivial

section Places

structure Manager.Placed (s : Manager) : Prop where
  current : ∀ sid ref, s.strategies.get sid = some ref → ref < (s.objectsOf sid).length
  waiting : ∀ w ∈ s.waiting, w.ref < (s.objectsOf w.sid).length

theorem Manager.Placed.stored (hs : s.Placed) (h : (s.strategies.get sid).isSome) :
    ∃ d, s.stored sid = some d := by
  obtain ⟨ref, hget⟩ := Option.isSome_iff_exists.mp h
  have hlt := hs.current sid ref hget
  refine ⟨(s.objectsOf sid)[ref], ?_⟩
  rw [Manager.stored, hget, Option.bind_some, List.getElem?_eq_getElem hlt]

theorem length_objectsOf_bind (sid' : String) :
    (s.objectsOf sid').length ≤ ((s.bind sid d).objectsOf sid').length := by
  rw [objectsOf_bind]
  split
  · next heq => rw [heq, List.length_append]; omega
  · exact le_refl _

theorem length_objectsOf_mutate (f : Stored → Stored) (sid' : String) :
    ((s.mutate sid ref f).objectsOf sid').length = (s.objectsOf sid').length := by
  rw [objectsOf_mutate]
  split
  · next heq => rw [List.length_modify, heq]
  · rfl

theorem Manager.Placed.bind (hs : s.Placed) : (s.bind sid d).Placed := by
  refine ⟨fun sid' ref' hget => ?_, fun w hw => (hs.waiting w hw).trans_le (length_objectsOf_bind w.sid)⟩
  simp only [Manager.bind, Dict.get_set] at hget
  split at hget
  · next heq =>
    rw [heq, objectsOf_bind, if_pos rfl, List.length_append, ← Option.some.inj hget]
    exact Nat.lt_succ_self _
  · exact (hs.current sid' ref' hget).trans_le (length_objectsOf_bind sid')

theorem Manager.Placed.mutate (f : Stored → Stored) (hs : s.Placed) : (s.mutate sid ref f).Placed := by
  refine ⟨fun sid' ref' hget => ?_, fun w hw => ?_⟩
  · rw [length_objectsOf_mutate]
    exact hs.current sid' ref' hget
  · rw [length_objectsOf_mutate]
    exact hs.waiting w hw

theorem Manager.Placed.renew {w : Waiting} (hs : s.Placed) (hw : w ∈ s.waiting) : (s.renew w).Placed := by
  have hmutate : (s.mutate w.sid w.ref fun d => { d with versionNumber := d.versionNumber + 1 }).Placed := hs.mutate _
  refine ⟨fun sid' ref' hget => ?_, hmutate.waiting⟩
  simp only [Manager.renew, Dict.get_set] at hget
  split at hget
  · next heq =>
    rw [heq, ← Option.some.inj hget]
    exact hmutate.waiting w hw
  · exact hmutate.current sid' ref' hget

theorem Manager.Placed.setVersions (versions : Dict String (List VersionEntry)) (hs : s.Placed) :
    ({ s with versions := versions } : Manager).Placed := ⟨hs.current, hs.waiting⟩

theorem Manager.Placed.snapshot {w : Waiting} (hs : s.Placed) (hw : w ∈ s.waiting) :
    (s.snapshot w).Placed := by
  simp only [Manager.snapshot]
  split
  · exact hs.renew hw
  · exact (hs.renew hw).setVersions _

theorem Manager.Placed.setStatus {status : StrategyStatus} {now : String} (hs : s.Placed) :
    (s.setStatus v sid status now).1.Placed := by
  simp only [Manager.setStatus]
  split
  · exact hs
  split
  · exact hs
  · exact hs.bind

theorem Manager.Placed.step (hs : s.Placed) : (s.step u call).1.Placed := by
  cases call with
  | get sid | list status | getVersions sid | getVersion sid version => exact hs
  | publish sid now | archive sid now | setStatus sid status now => exact hs.setStatus
  | create id name description author template now => exact hs.bind.setVersions _
  | update token sid updates now =>
    simp only [Manager.step, Manager.update]
    split
    · exact hs
    next d hseen =>
    have hmutate : (s.mutate sid ((s.strategies.get sid).getD 0) (·.update updates now)).Placed := hs.mutate _
    refine ⟨hmutate.current, fun w hw => ?_⟩
    cases List.mem_append.mp hw with
    | inl hw => exact hmutate.waiting w hw
    | inr hw =>
      rw [List.mem_singleton.mp hw]
      have hstored := (Option.filter_eq_some_iff.mp hseen).1
      rw [Manager.stored, Option.bind_eq_some_iff] at hstored
      obtain ⟨ref, hget, -⟩ := hstored
      refine hmutate.current sid _ ?_
      rw [hget]
      exact hget
  | resume token =>
    simp only [Manager.step, Manager.resume]
    split
    · exact hs
    next w hw =>
    split
    · have hsnapshot := hs.snapshot (List.mem_of_find?_eq_some hw)
      refine ⟨hsnapshot.current, fun w' hw' => ?_⟩
      obtain ⟨w₀, hw₀, heq⟩ := List.mem_map.mp hw'
      rw [← heq, settled_sid, settled_ref]
      refine hsnapshot.waiting w₀ ?_
      rw [snapshot_waiting]
      exact hw₀
    · exact ⟨hs.current, fun w hw => hs.waiting w (List.mem_of_mem_filter hw)⟩
  | delete sid =>
    simp only [Manager.step, Manager.delete]
    split
    · exact hs
    refine ⟨fun sid' ref' hget => ?_, hs.waiting⟩
    rw [Dict.get_pop] at hget
    split at hget
    · cases hget
    · exact hs.current sid' ref' hget
  | clone sid id now =>
    simp only [Manager.step, Manager.clone]
    split
    · exact hs
    split
    · exact hs
    · exact hs.bind.setVersions _
  | rollback sid version now =>
    simp only [Manager.step, Manager.rollback]
    split
    · exact hs
    split
    · exact hs
    split
    · exact hs
    · exact hs.bind.setVersions _

end Places

section Lasting

theorem get_strategies_snapshot {w : Waiting} (h : (s.strategies.get sid).isSome) :
    ((s.snapshot w).strategies.get sid).isSome := by
  have hrenew : ((s.renew w).strategies.get sid).isSome := Dict.isSome_get_set w.sid w.ref h
  simp only [Manager.snapshot]
  split
  · exact hrenew
  · exact hrenew

theorem Homed.step_isSome (hs : Homed home s) (h : (s.strategies.get sid).isSome)
    (hcall : ¬(home sid = u ∧ call = .delete sid)) : ((s.step u call).1.strategies.get sid).isSome := by
  have hstatus : ∀ {sid' status now}, ((s.setStatus u sid' status now).1.strategies.get sid).isSome := by
    intro sid' status now
    simp only [Manager.setStatus]
    split
    · exact h
    split
    · exact h
    · exact Dict.isSome_get_set sid' _ h
  cases call with
  | get sid' | list status | getVersions sid' | getVersion sid' version => exact h
  | publish sid' now | archive sid' now | setStatus sid' status now => exact hstatus
  | create id name description author template now =>
    exact Dict.isSome_get_set id _ h
  | update token sid' updates now =>
    simp only [Manager.step, Manager.update]
    split
    · exact h
    · exact h
  | resume token =>
    simp only [Manager.step, Manager.resume]
    split
    · exact h
    split
    · exact get_strategies_snapshot h
    · exact h
  | delete sid' =>
    simp only [Manager.step, Manager.delete]
    split
    · exact h
    next d hseen =>
    dsimp only
    rw [Dict.get_pop, if_neg]
    · exact h
    · intro heq
      rw [heq] at hcall
      exact hcall ⟨hs.home_eq_of_seen hseen, rfl⟩
  | clone sid' id now =>
    simp only [Manager.step, Manager.clone]
    split
    · exact h
    split
    · exact h
    · exact Dict.isSome_get_set id _ h
  | rollback sid' version now =>
    simp only [Manager.step, Manager.rollback]
    split
    · exact h
    split
    · exact h
    split
    · exact h
    · exact Dict.isSome_get_set sid' _ h

structure Routes (home : String → String) (s : Manager) : Prop where
  kept : Kept Belongs home s
  placed : s.Placed

theorem Routes.step (hs : Routes home s) (hcall : call.Routed home u) : Routes home (s.step u call).1 :=
  ⟨hs.kept.step ownership_belongs hcall.fits, hs.placed.step⟩

theorem Routes.run {es : List (String × Call)} (hs : Routes home s) (hes : ∀ e ∈ es, e.2.Routed home e.1) :
    Routes home (tenancy.run s es) := by
  induction es generalizing s with
  | nil => exact hs
  | cons e es ih =>
    exact ih (hs.step (hes e (List.mem_cons_self ..))) fun e' he' => hes e' (List.mem_cons_of_mem _ he')

theorem Routes.run_isSome {es : List (String × Call)} (hs : Routes home s)
    (hes : ∀ e ∈ es, e.2.Routed home e.1) (h : (s.strategies.get sid).isSome)
    (hdelete : (home sid, Call.delete sid) ∉ es) : ((tenancy.run s es).strategies.get sid).isSome := by
  induction es generalizing s with
  | nil => exact h
  | cons e es ih =>
    have hstep : ((s.step e.1 e.2).1.strategies.get sid).isSome := by
      refine (hs.kept.homed ownership_belongs).step_isSome h fun hboth => ?_
      exact hdelete (by rw [hboth.1, ← hboth.2]; exact List.mem_cons_self ..)
    exact ih (hs.step (hes e (List.mem_cons_self ..))) (fun e' he' => hes e' (List.mem_cons_of_mem _ he')) hstep
      fun hmem => hdelete (List.mem_cons_of_mem _ hmem)

theorem Routes.seen (hs : Routes home s) (hu : isUuid (home sid) = true)
    (h : (s.strategies.get sid).isSome) : ∃ d, s.seen (home sid) sid = some d := by
  obtain ⟨d, hd⟩ := hs.placed.stored h
  refine ⟨d, ?_⟩
  rw [Manager.seen, hd]
  exact Option.filter_eq_some_iff.mpr ⟨rfl, (hs.kept.objects sid d (stored_mem hd)).visible hu⟩

/-- A strategy that a user has created through the routes is there for it until the user deletes it. -/
theorem created_strategies_stay_visible (es es' : List (String × Call)) (u id name description : String)
    (template : Option Stored) (now : String) (hu : isUuid u = true)
    (hes : ∀ e ∈ es ++ (u, .create id name description u template now) :: es', e.2.Routed home e.1)
    (hdelete : (u, Call.delete id) ∉ es') :
    ∃ d, (tenancy.run {} (es ++ (u, .create id name description u template now) :: es')).seen u id =
      some d := by
  have hhome : home id = u := (hes _ (List.mem_append_right _ (List.mem_cons_self ..))).1
  have hnil : Routes home {} := ⟨kept_nil, ⟨(fun _ _ hget => nomatch hget), fun _ hw => nomatch hw⟩⟩
  have hbefore := hnil.run fun e he => hes e (List.mem_append_left _ he)
  have hcreated := hbefore.step (hes _ (List.mem_append_right _ (List.mem_cons_self ..)))
  have hafter : ∀ e ∈ es', e.2.Routed home e.1 := fun e he =>
    hes e (List.mem_append_right _ (List.mem_cons_of_mem _ he))
  have hrun : tenancy.run {} (es ++ (u, .create id name description u template now) :: es') =
      tenancy.run ((tenancy.run {} es).step u (.create id name description u template now)).1 es' := by
    rw [Shared.run, List.foldl_append]
    rfl
  rw [hrun]
  subst hhome
  refine (hcreated.run hafter).seen hu (hcreated.run_isSome hafter ?_ hdelete)
  simp only [Manager.step, Manager.create, Manager.fresh, Manager.bind, Dict.get_set]
  rfl

def visits : List (String × Call) :=
  [(profile, .update 0 "x" { name := some "Long" } "u"), (neighbour, .delete "x"), (profile, .rollback "x" 1 "v")]

theorem created_strategies_stay_visible_after_a_rollback : ∃ d,
    (tenancy.run {} ([] ++ (profile, .create "x" "Trend" "" profile none "t") :: visits)).seen profile "x" =
      some d := by
  have hes : ∀ e ∈ [] ++ (profile, .create "x" "Trend" "" profile none "t") :: visits,
      e.2.Routed sampleHome e.1 := by
    intro e he
    fin_cases he
    · exact ⟨rfl, rfl, fun _ ht => nomatch ht⟩
    · exact ⟨rfl, rfl⟩
    · exact trivial
    · exact trivial
  exact created_strategies_stay_visible [] visits profile "x" "Trend" "" none "t" (by decide) hes
    (by simp [visits, profile, neighbour])

end Lasting

end Trademetrix.Builder

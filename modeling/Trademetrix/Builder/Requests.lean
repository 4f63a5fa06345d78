import Trademetrix.Builder.Ownership

/-!
# Requests one after another

A request is served from its start to its end before the next begins, an import as the calls
that its route makes. Each puts at most one strategy, with its history, in place.
-/

namespace Trademetrix.Builder

variable {s t : Manager} {u v sid : String} {ref : ℕ} {d : Stored} {entries : List VersionEntry}

/-- `dsl.model_dump()`; a file without an owner gets the empty one of the model. -/
def Updates.ofFile (file : Stored) : Updates where
  version := some file.version
  name := some file.name
  description := some file.description
  author := some file.author
  status := some file.status
  tags := some file.tags
  settings := some file.settings
  nodes := some file.nodes
  edges := some file.edges
  parentId := some file.parentId
  versionNumber := some file.versionNumber
  deployment := some file.deployment
  userId := some (file.userId.getD "")

inductive Request
  | call (c : Call)
  | importStrategy (token : ℕ) (id : String) (file : Stored) (now : String)

def Call.served : Call → List Call
  | .update token sid updates now => [.update token sid updates now, .resume token, .resume token]
  | call => [call]

def Request.calls (s : Manager) (user : String) : Request → List Call
  | .call c => c.served
  | .importStrategy token id file now =>
    let update := Call.served (.update token id (.ofFile file) now)
    match s.get user file.id with
    | .raised => []
    | .dsl _ => update
    | _ => .create id file.name "" "user" none now :: update

def Manager.serve (s : Manager) (user : String) (r : Request) : Manager :=
  tenancy.run s ((r.calls s user).map fun call => (user, call))

def Manager.serveAll (s : Manager) (rs : List (String × Request)) : Manager :=
  rs.foldl (fun s r => s.serve r.1 r.2) s

section Puts

structure Puts (s t : Manager) (sid : String) (d : Stored) (entries : List VersionEntry) : Prop where
  stored : ∀ sid', t.stored sid' = if sid' = sid then some d else s.stored sid'
  versions : ∀ sid', t.versionsOf sid' = if sid' = sid then entries else s.versionsOf sid'
  waiting : t.waiting = s.waiting

theorem Puts.stored_self (h : Puts s t sid d entries) : t.stored sid = some d := by
  rw [h.stored, if_pos rfl]

theorem Puts.versions_self (h : Puts s t sid d entries) : t.versionsOf sid = entries := by
  rw [h.versions, if_pos rfl]

theorem Puts.trans {r : Manager} {d' : Stored} {entries' : List VersionEntry} (h : Puts s t sid d entries)
    (h' : Puts t r sid d' entries') : Puts s r sid d' entries' := by
  refine ⟨fun sid' => ?_, fun sid' => ?_, h'.waiting.trans h.waiting⟩
  · rw [h'.stored, h.stored]
    split
    · rfl
    · rfl
  · rw [h'.versions, h.versions]
    split
    · rfl
    · rfl

theorem puts_bind : Puts s (s.bind sid d) sid d (s.versionsOf sid) := by
  refine ⟨fun sid' => ?_, fun sid' => ?_, rfl⟩
  · simp only [Manager.stored]
    rw [objectsOf_bind]
    simp only [Manager.bind, Dict.get_set]
    split
    · rw [Option.bind_some, List.getElem?_concat_length]
    · rfl
  · split
    · next heq => rw [heq]; rfl
    · rfl

theorem Puts.setVersions {entries' : List VersionEntry} (h : Puts s t sid d entries) :
    Puts s { t with versions := t.versions.set sid entries' } sid d entries' := by
  refine ⟨h.stored, fun sid' => ?_, h.waiting⟩
  rw [versionsOf_set, h.versions]
  split
  · rfl
  · rfl

theorem puts_fresh {snapshot : Stored} {savedAt : String} :
    Puts s (s.fresh sid d snapshot savedAt) sid d [⟨1, snapshot, savedAt⟩] :=
  puts_bind.setVersions

theorem puts_mutate (f : Stored → Stored) (hget : s.strategies.get sid = some ref) (hd : s.stored sid = some d) :
    Puts s (s.mutate sid ref f) sid (f d) (s.versionsOf sid) := by
  refine ⟨fun sid' => ?_, fun sid' => ?_, rfl⟩
  · simp only [Manager.stored]
    rw [objectsOf_mutate]
    simp only [Manager.mutate]
    split
    · next heq =>
      rw [Manager.stored, hget, Option.bind_some] at hd
      rw [heq, hget, Option.bind_some, List.getElem?_modify_eq, hd]
      rfl
    · rfl
  · split
    · next heq => rw [heq]; rfl
    · rfl

theorem stored_setCurrent (hget : s.strategies.get sid = some ref) (sid' : String) :
    ({ s with strategies := s.strategies.set sid ref } : Manager).stored sid' = s.stored sid' := by
  have hcurrent : (s.strategies.set sid ref).get sid' = s.strategies.get sid' := by
    rw [Dict.get_set]
    split
    · next heq => rw [heq, hget]
    · rfl
  simp only [Manager.stored]
  rw [hcurrent]
  rfl

/-- The data with the next number, as `renew` leaves it. -/
def Stored.next (d : Stored) : Stored := { d with versionNumber := d.versionNumber + 1 }

theorem puts_renew {w : Waiting} (hget : s.strategies.get w.sid = some w.ref) (hd : s.stored w.sid = some d) :
    Puts s (s.renew w) w.sid d.next (s.versionsOf w.sid) := by
  have hmutate := puts_mutate Stored.next hget hd
  refine ⟨fun sid' => ?_, hmutate.versions, hmutate.waiting⟩
  rw [← hmutate.stored]
  exact stored_setCurrent (s := s.mutate w.sid w.ref Stored.next) hget sid'

theorem puts_snapshot {w : Waiting} (hget : s.strategies.get w.sid = some w.ref) (hd : s.stored w.sid = some d) :
    Puts s (s.snapshot w) w.sid d.next
      (Manager.capped (s.versionsOf w.sid ++ [⟨d.next.versionNumber, d.next, d.next.updatedAt⟩])) := by
  have hrenew := puts_renew hget hd
  have hobject : ((s.renew w).objectsOf w.sid)[w.ref]? = some d.next := by
    have hstored := hrenew.stored_self
    rw [Manager.stored] at hstored
    simp only [Manager.renew, Dict.get_set, if_true, Option.bind_some] at hstored
    exact hstored
  simp only [Manager.snapshot]
  split
  · next hnone => exact absurd (hnone.symm.trans hobject) (Option.some_ne_none _).symm
  next data hdata =>
  have hdata' : data = d.next := Option.some.inj (hdata.symm.trans hobject)
  rw [hdata']
  have hversions : (s.renew w).versionsOf w.sid = s.versionsOf w.sid := rfl
  rw [hversions]
  exact hrenew.setVersions

end Puts

section Served

variable {token : ℕ} {updates : Updates} {now : String}

def Stored.saved (d : Stored) (updates : Updates) (now : String) : Stored :=
  if updates.snapshots then (d.update updates now).next else d.update updates now

def Manager.history (entries : List VersionEntry) (d : Stored) (updates : Updates) : List VersionEntry :=
  if updates.snapshots then Manager.capped (entries ++ [⟨d.versionNumber, d, d.updatedAt⟩]) else entries

def Manager.save (s : Manager) (user : String) (token : ℕ) (sid : String) (updates : Updates) (now : String) :
    Manager :=
  tenancy.run s ((Call.served (.update token sid updates now)).map fun call => (user, call))

theorem resume_idle (hs : s.waiting = []) : (s.resume u token).1 = s := by
  simp only [Manager.resume, hs, List.find?_nil]

theorem save_unseen (hs : s.waiting = []) (h : s.seen u sid = none) : s.save u token sid updates now = s := by
  have hupdate : (s.update u token sid updates now).1 = s := by
    simp only [Manager.update, h]
  have hsave : s.save u token sid updates now =
      (((s.update u token sid updates now).1.resume u token).1.resume u token).1 := rfl
  rw [hsave, hupdate, resume_idle hs, resume_idle hs]

theorem resume_one {w : Waiting} (hs : s.waiting = [w]) (hw : Manager.held u token w = true) :
    (s.resume u token).1 =
      if w.snapshots then { s.snapshot w with waiting := [{ w with snapshots := false }] }
      else { s with waiting := [] } := by
  have hfind : s.waiting.find? (Manager.held u token) = some w := by
    rw [hs, List.find?_cons_of_pos hw]
  simp only [Manager.resume, hfind]
  split
  · simp only [hs, List.map_singleton, Manager.settled, hw, if_true]
  · simp [hs, hw]

theorem puts_save (hs : s.waiting = []) (h : s.seen u sid = some d) :
    Puts s (s.save u token sid updates now) sid (d.saved updates now)
      (Manager.history (s.versionsOf sid) (d.saved updates now) updates) := by
  have hd : s.stored sid = some d := (Option.filter_eq_some_iff.mp h).1
  obtain ⟨ref, hget, -⟩ := Option.bind_eq_some_iff.mp hd
  let w : Waiting := ⟨u, token, sid, ref, updates.snapshots⟩
  let first : Manager := { s.mutate sid ref (·.update updates now) with waiting := [w] }
  have hheld : Manager.held u token w = true := by
    simp [Manager.held, w]
  have hupdate : (s.update u token sid updates now).1 = first := by
    simp only [Manager.update, h, hget, Option.getD_some]
    simp only [Manager.mutate, hs, List.nil_append, first, w]
  have hmutate := puts_mutate (·.update updates now) hget hd
  have hsave : s.save u token sid updates now =
      (((s.update u token sid updates now).1.resume u token).1.resume u token).1 := rfl
  rw [hsave, hupdate, resume_one (s := first) rfl hheld]
  cases hsnap : updates.snapshots with
  | false =>
    have hw : w.snapshots = false := hsnap
    rw [hw, if_neg Bool.false_ne_true, resume_idle rfl]
    simp only [Stored.saved, Manager.history, hsnap]
    exact ⟨hmutate.stored, hmutate.versions, hs.symm⟩
  | true =>
    have hw : w.snapshots = true := hsnap
    rw [hw, if_pos rfl]
    have hheld' : Manager.held u token { w with snapshots := false } = true := hheld
    rw [resume_one rfl hheld', if_neg Bool.false_ne_true]
    have hfirst : Puts { s with waiting := [w] } first sid (d.update updates now) (s.versionsOf sid) :=
      ⟨hmutate.stored, hmutate.versions, rfl⟩
    have hboth := hfirst.trans (puts_snapshot (s := first) (w := w) hget hfirst.stored_self)
    simp only [Stored.saved, Manager.history, hsnap, if_true]
    exact ⟨hboth.stored, hboth.versions, hs.symm⟩

end Served

section Effects

variable {r : Request}

def Stored.imported (file : Stored) (id now : String) : Stored :=
  { file with
    id := id, createdAt := now, updatedAt := now, versionNumber := file.versionNumber + 1,
    userId := some (file.userId.getD "") }

def Stored.copied (d : Stored) (id now : String) : Stored :=
  { d with
    id := id, name := d.name ++ " (Copy)", status := .draft, parentId := d.id, versionNumber := 1,
    createdAt := now, updatedAt := now }

def Stored.renumbered (d : Stored) (number : ℤ) (now : String) : Stored :=
  { d with versionNumber := number, updatedAt := now }

def Stored.ownedBy (d : Stored) (u : String) : Stored := { d with userId := some u }

def importDraft (id : String) (file : Stored) (now : String) : Stored :=
  Manager.draft id file.name "" "user" none now

inductive Effect (s : Manager) (u : String) : Request → String → Stored → List VersionEntry → Prop
  | create {id name description author template now} :
    Effect s u (.call (.create id name description author template now)) id
      ((Manager.draft id name description author template now).ownedBy u)
      [⟨1, Manager.draft id name description author template now, now⟩]
  | update {token sid updates now d} (h : s.seen u sid = some d) :
    Effect s u (.call (.update token sid updates now)) sid (d.saved updates now)
      (Manager.history (s.versionsOf sid) (d.saved updates now) updates)
  | setStatus {call sid status now d} (h : s.seen u sid = some d) :
    Effect s u (.call call) sid { d with status := status, updatedAt := now } (s.versionsOf sid)
  | clone {sid id now d} (h : s.seen u sid = some d) :
    Effect s u (.call (.clone sid id now)) id (d.copied id now) [⟨1, d.copied id now, now⟩]
  | rollback {sid version now d target number} (h : s.seen u sid = some d)
    (htarget : (s.versionsOf sid).find? (·.version = version) = some target)
    (hnumber : number = (((s.versionsOf sid).map VersionEntry.version).max?).getD 0 + 1) :
    Effect s u (.call (.rollback sid version now)) sid (target.data.renumbered number now)
      (s.versionsOf sid ++ [⟨number, target.data.renumbered number now, now⟩])
  | importNew {token id file now} (hu : u ≠ "") (h : s.seen u file.id = none) :
    Effect s u (.importStrategy token id file now) id (file.imported id now)
      [⟨1, importDraft id file now, now⟩, ⟨file.versionNumber + 1, file.imported id now, now⟩]
  | importNobody {token id file now} (hu : u = "") :
    Effect s u (.importStrategy token id file now) id ((importDraft id file now).ownedBy u)
      [⟨1, importDraft id file now, now⟩]
  | importOver {token id file now d} (h : s.seen u id = some d) :
    Effect s u (.importStrategy token id file now) id (d.saved (.ofFile file) now)
      (Manager.history (s.versionsOf id) (d.saved (.ofFile file) now) (.ofFile file))

theorem puts_create {id name description author now : String} {template : Option Stored} :
    Puts s (s.create u id name description author template now).1 id
      ((Manager.draft id name description author template now).ownedBy u)
      [⟨1, Manager.draft id name description author template now, now⟩] := puts_fresh

theorem setStatus_cases {call : Call} {status : StrategyStatus} {now : String} :
    (s.setStatus u sid status now).1 = s ∨ ∃ d entries,
      Puts s (s.setStatus u sid status now).1 sid d entries ∧ Effect s u (.call call) sid d entries := by
  simp only [Manager.setStatus]
  split
  · exact .inl rfl
  next d hseen =>
  split
  · exact .inl rfl
  next dsl hdsl =>
  rw [parsed_eq hdsl]
  exact .inr ⟨_, _, puts_bind, .setStatus hseen⟩

theorem clone_cases {id now : String} :
    (s.clone u sid id now).1 = s ∨ ∃ d entries,
      Puts s (s.clone u sid id now).1 id d entries ∧ Effect s u (.call (.clone sid id now)) id d entries := by
  simp only [Manager.clone]
  split
  · exact .inl rfl
  next d hseen =>
  split
  · exact .inl rfl
  next dsl hdsl =>
  rw [parsed_eq hdsl]
  exact .inr ⟨_, _, puts_fresh, .clone hseen⟩

theorem rollback_cases {version : ℤ} {now : String} :
    (s.rollback u sid version now).1 = s ∨ ∃ d entries,
      Puts s (s.rollback u sid version now).1 sid d entries ∧
        Effect s u (.call (.rollback sid version now)) sid d entries := by
  simp only [Manager.rollback]
  split
  · exact .inl rfl
  next d hseen =>
  split
  · exact .inl rfl
  next target htarget =>
  split
  · exact .inl rfl
  next dsl hdsl =>
  rw [parsed_eq hdsl]
  exact .inr ⟨_, _, puts_bind.setVersions, .rollback hseen htarget rfl⟩

theorem import_seen {token : ℕ} {id now : String} {file : Stored} (hs : s.waiting = [])
    (h : s.seen u file.id = some d) (hid : s.seen u id = none) :
    s.serve u (.importStrategy token id file now) = s := by
  simp only [Manager.serve, Request.calls, Manager.get, h]
  cases d.parsed with
  | none => rfl
  | some dsl => exact save_unseen hs hid

theorem visible_ownedBy (d : Stored) (hu : u ≠ "") : visibleTo (d.ownedBy u) u = true := by
  simp [visibleTo, ownerOf, Stored.ownedBy, hu]

theorem puts_import {token : ℕ} {id now : String} {file : Stored} (hs : s.waiting = []) (hu : u ≠ "")
    (h : s.seen u file.id = none) :
    Puts s (s.serve u (.importStrategy token id file now)) id (file.imported id now)
      [⟨1, importDraft id file now, now⟩, ⟨file.versionNumber + 1, file.imported id now, now⟩] := by
  have hcreate : Puts s (s.create u id file.name "" "user" none now).1 id
      ((importDraft id file now).ownedBy u) [⟨1, importDraft id file now, now⟩] := puts_create
  have hserve : s.serve u (.importStrategy token id file now) =
      (s.create u id file.name "" "user" none now).1.save u token id (.ofFile file) now := by
    simp only [Manager.serve, Request.calls, Manager.get, h]
    rfl
  have hseen : (s.create u id file.name "" "user" none now).1.seen u id =
      some ((importDraft id file now).ownedBy u) := by
    rw [Manager.seen, hcreate.stored_self, Option.filter_some, if_pos (visible_ownedBy _ hu)]
  rw [hserve]
  have hput : Puts _ ((s.create u id file.name "" "user" none now).1.save u token id (.ofFile file) now) id
      (((importDraft id file now).ownedBy u).saved (.ofFile file) now) _ :=
    puts_save (hcreate.waiting.trans hs) hseen
  rw [hcreate.versions_self] at hput
  exact hcreate.trans hput

theorem import_nobody {token : ℕ} {id now : String} {file : Stored} (hs : s.waiting = [])
    (h : s.seen "" file.id = none) :
    Puts s (s.serve "" (.importStrategy token id file now)) id ((importDraft id file now).ownedBy "")
      [⟨1, importDraft id file now, now⟩] := by
  have hcreate : Puts s (s.create "" id file.name "" "user" none now).1 id
      ((importDraft id file now).ownedBy "") [⟨1, importDraft id file now, now⟩] := puts_create
  have hserve : s.serve "" (.importStrategy token id file now) =
      (s.create "" id file.name "" "user" none now).1.save "" token id (.ofFile file) now := by
    simp only [Manager.serve, Request.calls, Manager.get, h]
    rfl
  have hhidden : visibleTo ((importDraft id file now).ownedBy "") "" = false := by
    have huser : isUuid "user" = false := by decide
    simp [visibleTo, ownerOf, Stored.ownedBy, importDraft, Manager.draft, huser]
  have hseen : (s.create "" id file.name "" "user" none now).1.seen "" id = none := by
    rw [Manager.seen, hcreate.stored_self, Option.filter_some, if_neg (by rw [hhidden]; exact Bool.false_ne_true)]
  rw [hserve, save_unseen (hcreate.waiting.trans hs) hseen]
  exact hcreate

theorem import_cases {token : ℕ} {id now : String} {file : Stored} (hs : s.waiting = []) :
    s.serve u (.importStrategy token id file now) = s ∨ ∃ d entries,
      Puts s (s.serve u (.importStrategy token id file now)) id d entries ∧
        Effect s u (.importStrategy token id file now) id d entries := by
  cases hfile : s.seen u file.id with
  | none =>
    by_cases hu : u = ""
    · subst hu
      exact .inr ⟨_, _, import_nobody hs hfile, .importNobody rfl⟩
    · exact .inr ⟨_, _, puts_import hs hu hfile, .importNew hu hfile⟩
  | some d =>
    cases hid : s.seen u id with
    | none => exact .inl (import_seen hs hfile hid)
    | some d' =>
      simp only [Manager.serve, Request.calls, Manager.get, hfile]
      cases d.parsed with
      | none => exact .inl rfl
      | some dsl => exact .inr ⟨_, _, puts_save hs hid, .importOver hid⟩

structure Removes (s t : Manager) (sid : String) : Prop where
  stored : ∀ sid', t.stored sid' = if sid' = sid then none else s.stored sid'
  versions : ∀ sid', t.versionsOf sid' = if sid' = sid then [] else s.versionsOf sid'
  waiting : t.waiting = s.waiting

theorem delete_cases : (s.delete u sid).1 = s ∨ Removes s (s.delete u sid).1 sid := by
  simp only [Manager.delete]
  split
  · exact .inl rfl
  refine .inr ⟨fun sid' => ?_, fun sid' => versionsOf_pop (s := s) sid sid', rfl⟩
  simp only [Manager.stored, Dict.get_pop]
  split
  · rfl
  · rfl

theorem serve_cases (r : Request) (u : String) (hs : s.waiting = []) :
    s.serve u r = s ∨ (∃ sid, Removes s (s.serve u r) sid) ∨
      ∃ sid d entries, Puts s (s.serve u r) sid d entries ∧ Effect s u r sid d entries := by
  cases r with
  | importStrategy token id file now =>
    exact (import_cases hs).imp_right fun heffect => .inr ⟨id, heffect⟩
  | call c =>
    cases c with
    | get sid | list status | getVersions sid | getVersion sid version => exact .inl rfl
    | resume token => exact .inl (resume_idle hs)
    | delete sid => exact delete_cases.imp_right fun hgone => .inl ⟨sid, hgone⟩
    | create id name description author template now =>
      exact .inr (.inr ⟨id, _, _, puts_create, .create⟩)
    | update token sid updates now =>
      cases hseen : s.seen u sid with
      | none => exact .inl (save_unseen hs hseen)
      | some d => exact .inr (.inr ⟨sid, _, _, puts_save hs hseen, .update hseen⟩)
    | publish sid now | archive sid now | setStatus sid status now =>
      exact setStatus_cases.imp_right fun heffect => .inr ⟨sid, heffect⟩
    | clone sid id now => exact clone_cases.imp_right fun heffect => .inr ⟨id, heffect⟩
    | rollback sid version now => exact rollback_cases.imp_right fun heffect => .inr ⟨sid, heffect⟩

end Effects

section Runs

def Request.drawn : Request → Option String
  | .call (.create id _ _ _ _ _) => some id
  | .call (.clone _ id _) => some id
  | .importStrategy _ id _ _ => some id
  | _ => none

theorem Effect.drawn {r : Request} (h : Effect s u r sid d entries) :
    r.drawn = some sid ∨ ∃ d', s.stored sid = some d' := by
  have hstored : ∀ {sid' d'}, s.seen u sid' = some d' → s.stored sid' = some d' := fun hseen =>
    (Option.filter_eq_some_iff.mp hseen).1
  cases h with
  | create | clone hseen | importNew hu hseen | importNobody hu | importOver hseen => exact .inl rfl
  | update hseen | setStatus hseen | rollback hseen => exact .inr ⟨_, hstored hseen⟩

def drawnIds (rs : List (String × Request)) : List String := rs.filterMap fun r => r.2.drawn

theorem drawnIds_concat (rs : List (String × Request)) (r : String × Request) :
    drawnIds (rs ++ [r]) = drawnIds rs ++ r.2.drawn.toList := by
  rw [drawnIds, List.filterMap_append]
  cases hr : r.2.drawn with
  | none => simp [drawnIds, hr]
  | some id => simp [drawnIds, hr]

/-- What is stored after a request was stored before it, or its id was drawn for the request. -/
theorem Puts.origin {r : Request} {sid' : String} {d' : Stored} (hput : Puts s t sid d entries)
    (heffect : Effect s u r sid d entries) (hd : t.stored sid' = some d') :
    sid' ∈ r.drawn.toList ∨ ∃ d'', s.stored sid' = some d'' := by
  rw [hput.stored] at hd
  split at hd
  · next heq =>
    rw [heq]
    exact heffect.drawn.imp_left fun hid => by rw [hid]; exact List.mem_singleton_self sid
  · exact .inr ⟨d', hd⟩

theorem Removes.origin {sid' : String} {d' : Stored} (hgone : Removes s t sid) (hd : t.stored sid' = some d') :
    s.stored sid' = some d' := by
  rw [hgone.stored] at hd
  split at hd
  · cases hd
  · exact hd

theorem serveAll_keeps {I : Manager → Prop} (rs : List (String × Request)) (hdrawn : (drawnIds rs).Nodup)
    (hnil : I {})
    (hputs : ∀ {s t r sid d entries}, I s → r ∈ rs → (∀ id, r.2.drawn = some id → s.stored id = none) →
      Puts s t sid d entries → Effect s r.1 r.2 sid d entries → I t)
    (hremoves : ∀ {s t sid}, I s → Removes s t sid → I t) :
    I (Manager.serveAll {} rs) ∧ (Manager.serveAll {} rs).waiting = [] ∧
      ∀ sid d, (Manager.serveAll {} rs).stored sid = some d → sid ∈ drawnIds rs := by
  induction rs using List.reverseRecOn with
  | nil => exact ⟨hnil, rfl, fun _ _ h => nomatch h⟩
  | append_singleton rs r ih =>
    rw [drawnIds_concat] at hdrawn ⊢
    obtain ⟨hI, hwaiting, hstored⟩ := ih (List.nodup_append.mp hdrawn).1
      fun hI hr => hputs hI (List.mem_append_left _ hr)
    have hserve : Manager.serveAll {} (rs ++ [r]) = (Manager.serveAll {} rs).serve r.1 r.2 := List.foldl_append ..
    rw [hserve]
    have hold : ∀ sid d, (Manager.serveAll {} rs).stored sid = some d → sid ∈ drawnIds rs ++ r.2.drawn.toList :=
      fun sid d hd => List.mem_append_left _ (hstored sid d hd)
    obtain hsame | ⟨sid, hgone⟩ | ⟨sid, d, entries, hput, heffect⟩ := serve_cases r.2 r.1 hwaiting
    · rw [hsame]
      exact ⟨hI, hwaiting, hold⟩
    · exact ⟨hremoves hI hgone, hgone.waiting.trans hwaiting, fun sid' d hd => hold sid' d (hgone.origin hd)⟩
    · have hmem : r ∈ rs ++ [r] := List.mem_append_right _ (List.mem_singleton_self r)
      have hnew : ∀ id, r.2.drawn = some id → (Manager.serveAll {} rs).stored id = none := by
        intro id hid
        by_contra hat
        obtain ⟨d', hd'⟩ := Option.ne_none_iff_exists'.mp hat
        have hmem : id ∈ r.2.drawn.toList := by rw [hid]; exact List.mem_singleton_self id
        exact (List.nodup_append.mp hdrawn).2.2 id (hstored id d' hd') id hmem rfl
      refine ⟨hputs hI hmem hnew hput heffect, hput.waiting.trans hwaiting, fun sid' d' hd' => ?_⟩
      obtain hid | ⟨d'', hd''⟩ := hput.origin heffect hd'
      · exact List.mem_append_right _ hid
      · exact hold sid' d'' hd''

end Runs

end Trademetrix.Builder

namespace Trademetrix.Builder

variable {s t : Manager} {u v sid : String} {d : Stored} {entries : List VersionEntry}

structure Identified (s : Manager) : Prop where
  stored : ∀ sid d, s.stored sid = some d → d.id = sid
  versions : ∀ sid, ∀ e ∈ s.versionsOf sid, e.data.id = sid

theorem saved_id (d : Stored) (updates : Updates) (now : String) : (d.saved updates now).id = d.id := by
  simp only [Stored.saved]
  split
  · rfl
  · rfl

theorem draft_id (id name description author : String) (template : Option Stored) (now : String) :
    (Manager.draft id name description author template now).id = id := by
  cases template with
  | none => rfl
  | some t => rfl

theorem history_ids {updates : Updates} (hentries : ∀ e ∈ entries, e.data.id = sid) (hd : d.id = sid) :
    ∀ e ∈ Manager.history entries d updates, e.data.id = sid := by
  intro e he
  simp only [Manager.history] at he
  split at he
  · cases List.mem_append.mp (List.mem_of_mem_drop he) with
    | inl he => exact hentries e he
    | inr he => rw [List.mem_singleton.mp he, hd]
  · exact hentries e he

theorem Identified.seen (hs : Identified s) (h : s.seen u sid = some d) : d.id = sid :=
  hs.stored sid d (Option.filter_eq_some_iff.mp h).1

theorem singleton_ids {number : ℤ} {now : String} (hd : d.id = sid) :
    ∀ e ∈ [(⟨number, d, now⟩ : VersionEntry)], e.data.id = sid := by
  intro e he
  rw [List.mem_singleton.mp he]
  exact hd

theorem Effect.identified {r : Request} (hs : Identified s) (h : Effect s u r sid d entries) :
    d.id = sid ∧ ∀ e ∈ entries, e.data.id = sid := by
  cases h with
  | create => exact ⟨draft_id .., singleton_ids (draft_id ..)⟩
  | clone hseen => exact ⟨rfl, singleton_ids rfl⟩
  | importNobody hu => exact ⟨rfl, singleton_ids rfl⟩
  | setStatus hseen =>
    have hid := hs.seen hseen
    exact ⟨hid, hs.versions sid⟩
  | update hseen =>
    exact ⟨(saved_id ..).trans (hs.seen hseen), history_ids (hs.versions sid) ((saved_id ..).trans (hs.seen hseen))⟩
  | importOver hseen =>
    exact ⟨(saved_id ..).trans (hs.seen hseen), history_ids (hs.versions sid) ((saved_id ..).trans (hs.seen hseen))⟩
  | rollback hseen htarget hnumber =>
    have hid := hs.versions sid _ (List.mem_of_find?_eq_some htarget)
    refine ⟨hid, fun e he => ?_⟩
    cases List.mem_append.mp he with
    | inl he => exact hs.versions sid e he
    | inr he => rw [List.mem_singleton.mp he]; exact hid
  | importNew hu hseen =>
    refine ⟨rfl, fun e he => ?_⟩
    cases List.mem_cons.mp he with
    | inl he => rw [he]; rfl
    | inr he => exact singleton_ids rfl e he

theorem Identified.puts (hs : Identified s) (h : Puts s t sid d entries)
    (hd : d.id = sid ∧ ∀ e ∈ entries, e.data.id = sid) : Identified t := by
  refine ⟨fun sid' d' hd' => ?_, fun sid' e he => ?_⟩
  · rw [h.stored] at hd'
    split at hd'
    · next heq => rw [heq, ← Option.some.inj hd', hd.1]
    · exact hs.stored sid' d' hd'
  · rw [h.versions] at he
    split at he
    · next heq => rw [heq, hd.2 e he]
    · exact hs.versions sid' e he

theorem Identified.removes (hs : Identified s) (h : Removes s t sid) : Identified t := by
  refine ⟨fun sid' d' hd' => ?_, fun sid' e he => ?_⟩
  · rw [h.stored] at hd'
    split at hd'
    · cases hd'
    · exact hs.stored sid' d' hd'
  · rw [h.versions] at he
    split at he
    · cases he
    · exact hs.versions sid' e he

theorem identified_serveAll (rs : List (String × Request)) (hdrawn : (drawnIds rs).Nodup) :
    Identified (Manager.serveAll {} rs) ∧ (Manager.serveAll {} rs).waiting = [] := by
  have hnil : Identified {} := ⟨(fun _ _ hd => nomatch hd), fun _ _ he => nomatch he⟩
  have hkeeps := serveAll_keeps rs hdrawn hnil (fun hs _ _ hput heffect => hs.puts hput (heffect.identified hs))
    Identified.removes
  exact ⟨hkeeps.1, hkeeps.2.1⟩

theorem ownerOf_imported (file : Stored) (id now : String) : ownerOf (file.imported id now) = ownerOf file := by
  simp only [ownerOf, Stored.imported]
  cases file.userId with
  | none => exact if_neg fun hne => hne rfl
  | some owner => rfl

/-- What a user exports and imports again is stored nowhere, and what another user imports goes back
to the one who exported it: the importer does not see it. -/
theorem exports_go_back_to_their_owner (rs : List (String × Request)) (hdrawn : (drawnIds rs).Nodup)
    (hexport : (Manager.serveAll {} rs).get v sid = .dsl d) (token : ℕ) (id now : String)
    (hid : (Manager.serveAll {} rs).stored id = none) :
    (Manager.serveAll {} rs).serve v (.importStrategy token id d now) = Manager.serveAll {} rs ∧
      ∀ u, u ≠ "" → u ≠ v →
        ((Manager.serveAll {} rs).serve u (.importStrategy token id d now)).seen v id = some (d.imported id now) ∧
        ((Manager.serveAll {} rs).serve u (.importStrategy token id d now)).seen u id = none := by
  obtain ⟨hidentified, hwaiting⟩ := identified_serveAll rs hdrawn
  generalize Manager.serveAll {} rs = s at *
  obtain ⟨hseen, howner⟩ : s.seen v sid = some d ∧ ownerOf d = some v := by
    simp only [Manager.get] at hexport
    split at hexport
    · cases hexport
    next data hdata =>
    cases hparsed : data.parsed with
    | none => rw [hparsed] at hexport; cases hexport
    | some dsl =>
      rw [hparsed] at hexport
      cases hexport
      rw [parsed_eq hparsed]
      exact ⟨hdata, of_decide_eq_true (Option.filter_eq_some_iff.mp hdata).2⟩
  have hid' := hidentified.seen hseen
  refine ⟨import_seen hwaiting (by rw [hid']; exact hseen) (by rw [Manager.seen, hid]; rfl), fun u hu hne => ?_⟩
  have hvisible : visibleTo d u = false := by
    rw [visibleTo, howner]
    exact decide_eq_false fun heq => hne (Option.some.inj heq).symm
  have hhidden : s.seen u d.id = none := by
    rw [hid', Manager.seen, (Option.filter_eq_some_iff.mp hseen).1, Option.filter_some, hvisible]
    rfl
  have hput : Puts s (s.serve u (.importStrategy token id d now)) id (d.imported id now) _ :=
    puts_import hwaiting hu hhidden
  have hcopy : ∀ w, visibleTo (d.imported id now) w = visibleTo d w := fun w => by
    rw [visibleTo, visibleTo, ownerOf_imported]
  have hown : visibleTo d v = true := decide_eq_true howner
  constructor
  · rw [Manager.seen, hput.stored_self, Option.filter_some, hcopy, hown]
    rfl
  · rw [Manager.seen, hput.stored_self, Option.filter_some, hcopy, hvisible]
    rfl

theorem exports_go_back_to_their_owner_sample :
    let s := Manager.serveAll {} [(profile, .call (.create "x" "Trend" "" profile none "t"))]
    ∃ d, s.serve profile (.importStrategy 0 "y" d "u") = s ∧
      ∀ u, u ≠ "" → u ≠ profile →
        (s.serve u (.importStrategy 0 "y" d "u")).seen profile "y" = some (d.imported "y" "u") ∧
        (s.serve u (.importStrategy 0 "y" d "u")).seen u "y" = none :=
  ⟨_, @exports_go_back_to_their_owner profile "x" _ _ (by decide) rfl 0 "y" "u" rfl⟩

end Trademetrix.Builder

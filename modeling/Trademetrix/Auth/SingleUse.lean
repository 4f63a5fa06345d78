import Mathlib.Data.List.Pairwise
import Trademetrix.Auth.Otp

/-!
# One session to a code

A stored code is to be good for one session, of a call that presented it while it was
valid, and for the user of the address. The lock runs out after ten seconds, and is
deleted by whoever held it before; a deletion that fails leaves the code; and a
listing that fails, or does not show the user, makes a token for nobody.
-/

namespace Trademetrix.Auth

def VerifyCall.claims (call : VerifyCall) : Option ℕ :=
  if call.stage.claiming then call.found.map Prod.fst else none

def OtpState.initial (now : ℚ) : OtpState := { now }

def OtpState.claims (s : OtpState) (c : ℕ) : Option ℕ := (s.calls[c]?).bind VerifyCall.claims

def VerifyCall.session (call : VerifyCall) : Option String :=
  match call.stage with
  | .releasing (.session subject _) | .finished (.session subject _) => some subject
  | _ => none

variable (cfg : OtpConfig) (s : OtpState)

def VerifyCall.Presented (call : VerifyCall) (serial : ℕ) : Prop :=
  ∃ time, call.found = some (serial, time) ∧ ∃ code ∈ s.codes[serial]?,
    call.otp = code.text ∧ code.storedAt ≤ time ∧ time < code.storedAt + otpTtl

/-- Every token is for a code that the call presented in time, no two are for one code, and the
subject is the id of the user of the address. -/
structure SingleUse : Prop where
  presented : ∀ call ∈ s.calls, call.session.isSome → ∃ serial, call.Presented s serial
  once : ∀ (c d : ℕ), ∀ call ∈ s.calls[c]?, ∀ call' ∈ s.calls[d]?, call.session.isSome → call'.session.isSome →
    ∀ serial, call.Presented s serial → call'.Presented s serial → c = d
  subject : ∀ call ∈ s.calls, ∀ uid ∈ call.session, ∃ u ∈ cfg.directory.owner cfg.email, uid = u.id ∧ uid ≠ ""

/-- A call that finds its code presents the text of it, and no other call has found it and not
failed; and the users that are listed to a call show one with the address. -/
def Guarded : Event → Prop
  | .read c answered => ∀ call ∈ s.calls[c]?, call.stage = .reading →
    ∀ stored ∈ s.getStoredOtp answered, stored.codeHash = cfg.sha256 call.otp →
      (∀ code ∈ s.codes[stored.serial]?, call.otp = code.text) ∧
        ∀ other ∈ s.calls, other.claims ≠ some stored.serial
  | .lookup c listed => ∀ call ∈ s.calls[c]?, call.stage = .lookingUp →
    Text.lower cfg.email ≠ "" ∧ (lookupAuthUser cfg listed).isSome
  | _ => True

instance : (e : Event) → Decidable (Guarded cfg s e)
  | .read c _ => inferInstanceAs (Decidable (∀ call ∈ s.calls[c]?, _))
  | .lookup c _ => inferInstanceAs (Decidable (∀ call ∈ s.calls[c]?, _))
  | .elapse _ | .send _ _ | .verify _ | .acquire _ _ | .delete _ _ | .profile _ _ | .post _ _ | .release _ _
  | .abort _ => inferInstanceAs (Decidable True)

/-- What the cache has is a code that was stored; a call with a claim presented its code in time;
the ids are of the user of the address; and no two calls claim one code. -/
structure Kept : Prop where
  stored : ∀ stored ∈ s.stored, ∃ code ∈ s.codes[stored.serial]?,
    stored.expires = code.storedAt + otpTtl ∧ code.storedAt ≤ s.now
  presented : ∀ (c : ℕ), ∀ call ∈ s.calls[c]?, call.stage.claiming = true → ∃ serial, call.Presented s serial
  subject : ∀ (c : ℕ), ∀ call ∈ s.calls[c]?, ∀ uid, call.stage.subject = some uid →
    ∃ u ∈ cfg.directory.owner cfg.email, uid = u.id ∧ uid ≠ ""
  once : ∀ c d serial, s.claims c = some serial → s.claims d = some serial → c = d

variable {cfg s} {s' : OtpState} {e : Event} {c : ℕ} {call : VerifyCall} {stage : Stage}

section Users

theorem findUser_spec {email : String} {users : List AuthUser} {u : AuthUser}
    (h : findUser email users = some u) :
    u ∈ users ∧ u.email.map Text.lower = some (Text.lower email) := by
  induction users with
  | nil => cases h
  | cons v users ih =>
    unfold findUser at h
    split at h
    · cases h
    · next e hemail =>
      split at h
      · next heq =>
        obtain rfl := Option.some.inj h
        exact ⟨List.mem_cons_self, by rw [hemail, Option.map_some, heq]⟩
      · obtain ⟨hmem, hu⟩ := ih h
        exact ⟨List.mem_cons_of_mem _ hmem, hu⟩

theorem Directory.eq_of_email (dir : Directory) {u v : AuthUser} {address : String} (hu : u ∈ dir.users)
    (hv : v ∈ dir.users) (haddress : address ≠ "") (hue : u.email.map Text.lower = some address)
    (hve : v.email.map Text.lower = some address) : u = v := by
  obtain ⟨e, he, rfl⟩ := Option.map_eq_some_iff.mp hue
  obtain ⟨e', he', hsame⟩ := Option.map_eq_some_iff.mp hve
  by_contra hne
  have hsymm : Std.Symm fun u v : AuthUser => ∀ e ∈ u.email, ∀ e' ∈ v.email,
      Text.lower e ≠ "" → Text.lower e ≠ Text.lower e' :=
    ⟨fun u v h e he e' he' hempty heq => h e' he' e he (heq ▸ hempty) heq.symm⟩
  exact dir.distinct.forall hu hv hne e he e' he' haddress hsame.symm

theorem Directory.owner_of_mem (dir : Directory) {u : AuthUser} {email : String} (hu : u ∈ dir.users)
    (hempty : Text.lower email ≠ "") (hemail : u.email.map Text.lower = some (Text.lower email)) :
    dir.owner email = some u := by
  rw [owner, if_neg hempty]
  cases hfind : dir.users.find? fun u => u.email.map Text.lower = some (Text.lower email) with
  | none =>
    have hnot := List.find?_eq_none.mp hfind u hu
    simp [hemail] at hnot
  | some v =>
    have hv := List.find?_some hfind
    rw [decide_eq_true_eq] at hv
    rw [dir.eq_of_email (List.mem_of_find?_eq_some hfind) hu hempty hv hemail]

theorem lookupAuthUser_owner {listed : Option (List ℕ)} {u : AuthUser} (h : lookupAuthUser cfg listed = some u)
    (hempty : Text.lower cfg.email ≠ "") : cfg.directory.owner cfg.email = some u ∧ u.id ≠ "" := by
  obtain ⟨places, -, hfind⟩ := Option.bind_eq_some_iff.mp h
  obtain ⟨hmem, hemail⟩ := findUser_spec hfind
  obtain ⟨n, -, hn⟩ := List.mem_filterMap.mp hmem
  have hu := List.mem_of_getElem? hn
  exact ⟨cfg.directory.owner_of_mem hu hempty hemail, cfg.directory.named u hu⟩

end Users

section Claims

theorem VerifyCall.Presented.mono {serial : ℕ} (h : call.Presented s serial) (hcodes : s.codes <+: s'.codes) :
    call.Presented s' serial := by
  obtain ⟨time, hfound, code, hcode, hrest⟩ := h
  obtain ⟨hlt, -⟩ := List.getElem?_eq_some_iff.mp hcode
  refine ⟨time, hfound, code, ?_, hrest⟩
  rw [Option.mem_def, ← hcode]
  obtain ⟨t, ht⟩ := hcodes
  rw [← ht, List.getElem?_append_left hlt]

theorem claims_of_presented {serial : ℕ} (hclaiming : call.stage.claiming = true)
    (h : call.Presented s serial) : call.claims = some serial := by
  obtain ⟨time, hfound, -⟩ := h
  rw [VerifyCall.claims, if_pos hclaiming, hfound, Option.map_some]

theorem claims_eq (hcall : s.calls[c]? = some call) : s.claims c = call.claims := by
  rw [OtpState.claims, hcall, Option.bind_some]

theorem claims_puts (hcall : s.calls[c]? = some call) (hputs : Puts s.calls c { call with stage } s'.calls)
    (hclaim : stage.claiming = true → call.stage.claiming = true) {d serial : ℕ}
    (h : s'.claims d = some serial) : s.claims d = some serial := by
  rw [OtpState.claims, hputs.bind_eq] at h
  split at h
  · next hd =>
    rw [hd, claims_eq hcall]
    unfold VerifyCall.claims at h ⊢
    split at h
    · next hclaiming => rwa [if_pos (hclaim hclaiming)]
    · cases h
  · exact h

theorem session_claiming {uid : String} (h : call.session = some uid) :
    call.stage.claiming = true ∧ call.stage.subject = some uid := by
  unfold VerifyCall.session at h
  split at h
  · next hstage =>
    rw [hstage]
    exact ⟨rfl, h⟩
  · next hstage =>
    rw [hstage]
    exact ⟨rfl, h⟩
  · cases h

end Claims

namespace Kept

theorem presented_mono (h : Kept cfg s) (hcodes : s.codes <+: s'.codes) (d : ℕ) :
    ∀ call ∈ s.calls[d]?, call.stage.claiming = true → ∃ serial, call.Presented s' serial := by
  intro call hcall hclaiming
  obtain ⟨serial, hpresented⟩ := h.presented d call hcall hclaiming
  exact ⟨serial, hpresented.mono hcodes⟩

theorem stored_same (h : Kept cfg s) (hstored : s'.stored = s.stored) (hcodes : s'.codes = s.codes)
    (hnow : s.now ≤ s'.now) : ∀ stored ∈ s'.stored, ∃ code ∈ s'.codes[stored.serial]?,
      stored.expires = code.storedAt + otpTtl ∧ code.storedAt ≤ s'.now := by
  intro stored hmem
  obtain ⟨code, hcode, hexpires, hage⟩ := h.stored stored (hstored ▸ hmem)
  exact ⟨code, hcodes ▸ hcode, hexpires, hage.trans hnow⟩

theorem goes (h : Kept cfg s) (hcall : s.calls[c]? = some call) (hputs : Puts s.calls c { call with stage } s'.calls)
    (hclaim : stage.claiming = true → call.stage.claiming = true)
    (hsubject : ∀ uid, stage.subject = some uid → ∃ u ∈ cfg.directory.owner cfg.email, uid = u.id ∧ uid ≠ "")
    (hstored : s'.stored = s.stored ∨ s'.stored = none) (hcodes : s'.codes = s.codes) (hnow : s'.now = s.now) :
    Kept cfg s' where
  stored stored hmem := by
    obtain hsame | hnone := hstored
    · exact h.stored_same hsame hcodes hnow.ge stored hmem
    · rw [hnone] at hmem
      cases hmem
  presented := hputs.forall_mem
    (P := fun _ call => call.stage.claiming = true → ∃ serial, call.Presented s' serial)
    (fun hclaiming => by
      obtain ⟨serial, hpresented⟩ := h.presented c call hcall (hclaim hclaiming)
      exact ⟨serial, hpresented.mono (hcodes ▸ List.prefix_rfl)⟩)
    (h.presented_mono (hcodes ▸ List.prefix_rfl))
  subject := hputs.forall_mem
    (P := fun _ call => ∀ uid, call.stage.subject = some uid →
      ∃ u ∈ cfg.directory.owner cfg.email, uid = u.id ∧ uid ≠ "")
    hsubject h.subject
  once c d serial hc hd :=
    h.once c d serial (claims_puts hcall hputs hclaim hc) (claims_puts hcall hputs hclaim hd)

theorem finds (h : Kept cfg s) {answered : Bool} {stored : StoredOtp}
    (hfound : s.getStoredOtp answered = some stored)
    (hputs : Puts s.calls c { call with found := some (stored.serial, s.now), stage := .deleting } s'.calls)
    (htext : ∀ code ∈ s.codes[stored.serial]?, call.otp = code.text)
    (hfree : ∀ other ∈ s.calls, other.claims ≠ some stored.serial)
    (hstored : s'.stored = s.stored) (hcodes : s'.codes = s.codes) (hnow : s'.now = s.now) : Kept cfg s' where
  stored := h.stored_same hstored hcodes hnow.ge
  presented := by
    refine hputs.forall_mem
      (P := fun _ call => call.stage.claiming = true → ∃ serial, call.Presented s' serial) ?_ ?_
    · intro _
      unfold OtpState.getStoredOtp at hfound
      split at hfound
      · obtain ⟨hmem, hlive⟩ := Option.filter_eq_some_iff.mp hfound
        obtain ⟨code, hcode, hexpires, hage⟩ := h.stored stored hmem
        rw [decide_eq_true_eq] at hlive
        exact ⟨stored.serial, s.now, rfl, code, hcodes ▸ hcode, htext code hcode, hage, hexpires ▸ hlive⟩
      · cases hfound
    · exact h.presented_mono (hcodes ▸ List.prefix_rfl)
  subject := hputs.forall_mem
    (P := fun _ call => ∀ uid, call.stage.subject = some uid →
      ∃ u ∈ cfg.directory.owner cfg.email, uid = u.id ∧ uid ≠ "")
    (fun _ huid => absurd huid (by simp [Stage.subject])) h.subject
  once := by
    -- A claim on the code that was found is that of the call that found it.
    have hnew : ∀ d, s'.claims d = some stored.serial → d = c := by
      intro d hd
      rw [OtpState.claims, hputs.bind_eq] at hd
      split at hd
      · assumption
      · obtain ⟨other, hother, hclaims⟩ := Option.bind_eq_some_iff.mp hd
        exact absurd hclaims (hfree other (List.mem_of_getElem? hother))
    have hold : ∀ d serial, serial ≠ stored.serial → s'.claims d = some serial → s.claims d = some serial := by
      intro d serial hne hd
      rw [OtpState.claims, hputs.bind_eq] at hd
      split at hd
      · exact absurd (Option.some.inj hd).symm hne
      · exact hd
    intro d d' serial hd hd'
    by_cases hserial : serial = stored.serial
    · subst hserial
      rw [hnew d hd, hnew d' hd']
    · exact h.once d d' serial (hold d serial hserial hd) (hold d' serial hserial hd')

theorem kept (h : Kept cfg s) (hguarded : Guarded cfg s e) : Kept cfg (step cfg s e) := by
  cases step_effect cfg s e with
  | quiet hcalls hstored hcodes hnow =>
    constructor
    · exact h.stored_same hstored hcodes hnow
    · rw [hcalls]
      exact h.presented_mono (hcodes ▸ List.prefix_rfl)
    · rw [hcalls]
      exact h.subject
    · unfold OtpState.claims
      rw [hcalls]
      exact h.once
  | @sends code _ _ hcalls hstored hcodes hnow =>
    constructor
    · intro stored hmem
      rw [hstored] at hmem
      obtain rfl := Option.some.inj hmem
      refine ⟨⟨code, s.now⟩, ?_, rfl, hnow ▸ le_refl _⟩
      rw [hcodes, List.getElem?_concat_length]
      rfl
    · rw [hcalls]
      exact h.presented_mono (hcodes ▸ List.prefix_append _ _)
    · rw [hcalls]
      exact h.subject
    · unfold OtpState.claims
      rw [hcalls]
      exact h.once
  | @begins otp _ hcalls hstored hcodes hnow =>
    constructor
    · exact h.stored_same hstored hcodes hnow.ge
    · exact hcalls.forall_mem
        (P := fun _ call => call.stage.claiming = true →
          ∃ serial, call.Presented (step cfg s (.verify otp)) serial)
        (fun hclaiming => absurd hclaiming Bool.false_ne_true)
        (h.presented_mono (hcodes ▸ List.prefix_rfl))
    · exact hcalls.forall_mem
        (P := fun _ call => ∀ uid, call.stage.subject = some uid →
          ∃ u ∈ cfg.directory.owner cfg.email, uid = u.id ∧ uid ≠ "")
        (fun _ huid => absurd huid (by simp [Stage.subject])) h.subject
    · have hsame : ∀ d, (step cfg s _).claims d = s.claims d := fun d =>
        hcalls.bind_same (by rw [List.getElem?_eq_none (Nat.le_refl _)]; rfl) d
      intro c d serial hc hd
      rw [hsame] at hc hd
      exact h.once c d serial hc hd
  | finds hcall hstage hfound hhash hcalls hstored hcodes hnow =>
    obtain ⟨htext, hfree⟩ := hguarded _ hcall hstage _ hfound hhash
    exact h.finds hfound hcalls htext hfree hstored hcodes hnow
  | looks hcall hstage hcalls hsubject hstored hcodes hnow =>
    obtain ⟨hempty, hsome⟩ := hguarded _ hcall hstage
    obtain ⟨u, hu⟩ := Option.isSome_iff_exists.mp hsome
    obtain ⟨howner, hid⟩ := lookupAuthUser_owner hu hempty
    refine h.goes hcall hcalls (fun _ => by rw [hstage]; rfl) (fun uid huid => ?_) (Or.inl hstored) hcodes hnow
    rw [hsubject uid huid, hu]
    exact ⟨u, howner, rfl, hid⟩
  | turns hcall hcalls hclaim hsubject hstored hcodes hnow =>
    exact h.goes hcall hcalls hclaim (fun uid huid => h.subject _ _ hcall uid (hsubject uid huid)) hstored hcodes hnow

theorem singleUse (h : Kept cfg s) : SingleUse cfg s where
  presented call hcall hsession := by
    obtain ⟨uid, huid⟩ := Option.isSome_iff_exists.mp hsession
    obtain ⟨c, hc⟩ := List.mem_iff_getElem?.mp hcall
    exact h.presented c call hc (session_claiming huid).1
  once c d call hc call' hd hsession hsession' serial hpresented hpresented' := by
    obtain ⟨uid, huid⟩ := Option.isSome_iff_exists.mp hsession
    obtain ⟨uid', huid'⟩ := Option.isSome_iff_exists.mp hsession'
    refine h.once c d serial ?_ ?_
    · rw [claims_eq hc, claims_of_presented (session_claiming huid).1 hpresented]
    · rw [claims_eq hd, claims_of_presented (session_claiming huid').1 hpresented']
  subject call hcall uid huid := by
    obtain ⟨c, hc⟩ := List.mem_iff_getElem?.mp hcall
    exact h.subject c call hc uid (session_claiming huid).2

theorem initial (now : ℚ) : Kept cfg (.initial now) where
  stored stored hmem := by cases hmem
  presented c call hcall := by simp [OtpState.initial] at hcall
  subject c call hcall := by simp [OtpState.initial] at hcall
  once c d serial hc := by simp [OtpState.initial, OtpState.claims] at hc

end Kept

/-- In every state of a run in which a code is found by one call at a time and the listing shows the
user. -/
theorem singleUse_of_guarded (cfg : OtpConfig) (now : ℚ) (es : List Event)
    (h : Along (step cfg) (Guarded cfg) (.initial now) es) : SingleUse cfg (es.foldl (step cfg) (.initial now)) :=
  (Along.invariant (fun _ _ hkept => hkept.kept) (Kept.initial now) h).singleUse

section Runs

def oneUser : OtpConfig where
  email := "trader@example.com"
  directory := ⟨[⟨"7f3a", some "Trader@example.com"⟩], by decide, List.pairwise_singleton _ _⟩
  sha256 := id

/-- Two calls with the code, of which the second is refused while the first has the lock. -/
theorem refused_singleUse :
    SingleUse oneUser (([.send "482913" .done, .verify "482913", .verify "482913", .acquire 0 .done,
      .acquire 1 .done, .read 0 true, .delete 0 .done, .lookup 0 (some [0]), .profile 0 (.ok false), .post 0 true,
      .release 0 .done] : List Event).foldl (step oneUser) (.initial 0)) :=
  singleUse_of_guarded oneUser 0 _ (by decide +kernel)

/-- The cache is slow to answer the first call, so the second gets the lock. -/
def lockRunsOut : List Event :=
  [.send "482913" .done, .verify "482913", .verify "482913", .acquire 0 .done, .elapse 10, .acquire 1 .done,
    .read 0 true, .read 1 true, .delete 0 .done, .delete 1 .done, .lookup 0 (some [0]), .lookup 1 (some [0]),
    .profile 0 (.ok true), .profile 1 (.ok true)]

def deletionFails : List Event :=
  [.send "482913" .done, .verify "482913", .acquire 0 .done, .read 0 true, .delete 0 .lost, .lookup 0 (some [0]),
    .profile 0 (.ok true), .release 0 .done, .verify "482913", .acquire 1 .done, .read 1 true, .delete 1 .done,
    .lookup 1 (some [0]), .profile 1 (.ok true)]

def listingFails : List Event :=
  [.send "482913" .done, .verify "482913", .acquire 0 .done, .read 0 true, .delete 0 .done, .lookup 0 none]

def sessionCall (stage : Stage) (time : ℚ) : VerifyCall := ⟨"482913", some (0, time), stage⟩

theorem code_not_singleUse :
    ¬SingleUse oneUser (lockRunsOut.foldl (step oneUser) (.initial 0)) ∧
    ¬SingleUse oneUser (deletionFails.foldl (step oneUser) (.initial 0)) ∧
    ¬SingleUse oneUser (listingFails.foldl (step oneUser) (.initial 0)) := by
  refine ⟨fun h => ?_, fun h => ?_, fun h => ?_⟩
  · have hsame := h.once 0 1 (sessionCall (.releasing (.session "7f3a" false)) 10) (by decide +kernel)
      (sessionCall (.releasing (.session "7f3a" false)) 10) (by decide +kernel) rfl rfl 0
      ⟨10, rfl, ⟨"482913", 0⟩, by decide +kernel, rfl, by decide, by decide +kernel⟩
      ⟨10, rfl, ⟨"482913", 0⟩, by decide +kernel, rfl, by decide, by decide +kernel⟩
    exact absurd hsame (by decide)
  · have hsame := h.once 0 1 (sessionCall (.finished (.session "7f3a" false)) 0) (by decide +kernel)
      (sessionCall (.releasing (.session "7f3a" false)) 0) (by decide +kernel) rfl rfl 0
      ⟨0, rfl, ⟨"482913", 0⟩, by decide +kernel, rfl, by decide, by decide +kernel⟩
      ⟨0, rfl, ⟨"482913", 0⟩, by decide +kernel, rfl, by decide, by decide +kernel⟩
    exact absurd hsame (by decide)
  · obtain ⟨u, -, -, hempty⟩ := h.subject (sessionCall (.releasing (.session "" true)) 0) (by decide +kernel) "" rfl
    exact hempty rfl

end Runs

end Trademetrix.Auth

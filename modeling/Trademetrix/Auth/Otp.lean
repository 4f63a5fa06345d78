import Mathlib.Data.NNRat.Defs
import Trademetrix.Places
import Trademetrix.Run
import Trademetrix.Text

/-!
# One-time passwords

`send_otp` stores the digest of a code for an address; `verify_otp` takes a lock that
runs out by itself, finds the stored digest, deletes it, looks for the user of the
address in the auth service, and makes a token for the id. The calls for one address
take turns at every answer of the cache and of the services, each of which may fail.
A stored code has a number, and a call notes which one it found and when.
-/

namespace Trademetrix.Auth

structure AuthUser where
  id : String
  email : Option String
  deriving DecidableEq

structure Directory where
  users : List AuthUser
  named : ∀ u ∈ users, u.id ≠ ""
  distinct : users.Pairwise fun u v => ∀ e ∈ u.email, ∀ e' ∈ v.email,
    Text.lower e ≠ "" → Text.lower e ≠ Text.lower e'

def Directory.owner (dir : Directory) (email : String) : Option AuthUser :=
  if Text.lower email = "" then none
  else dir.users.find? fun u => u.email.map Text.lower = some (Text.lower email)

structure OtpConfig where
  email : String
  directory : Directory
  sha256 : String → String

/-- What becomes of a command to the cache: it is done, it is lost, or it is done and the answer is
lost. -/
inductive Delivery
  | done
  | lost
  | unanswered
  deriving DecidableEq

def otpTtl : ℚ := 300

def lockTtl : ℚ := 10

/-- The entry under `otp:{email}:login`. -/
structure StoredOtp where
  codeHash : String
  verified : Bool := false
  expires : ℚ
  serial : ℕ
  deriving DecidableEq

structure Code where
  text : String
  storedAt : ℚ
  deriving DecidableEq

inductive Outcome
  | session (subject : String) (isNew : Bool)
  | refused (statusCode : ℕ) (detail : String)
  | failed
  deriving DecidableEq

/-- The answer a call waits for, and from `releasing` on what it comes to. -/
inductive Stage
  | acquiring
  | reading
  | deleting
  | lookingUp
  | readingProfile (uid : String)
  | postingProfile (uid : String)
  | releasing (outcome : Outcome)
  | finished (outcome : Outcome)
  deriving DecidableEq

/-- A call of `verify_otp`, with the number of the code it found and the time. -/
structure VerifyCall where
  otp : String
  found : Option (ℕ × ℚ) := none
  stage : Stage := .acquiring
  deriving DecidableEq

structure OtpState where
  now : ℚ
  stored : Option StoredOtp := none
  lock : Option ℚ := none
  codes : List Code := []
  calls : List VerifyCall := []

/-- `listed` are the places in the directory of the users that the listing answers with, or none
when it fails; `profile` tells whether there is a row for the id, or raises. -/
inductive Event
  | elapse (seconds : NNRat)
  | send (code : String) (io : Delivery)
  | verify (otp : String)
  | acquire (c : ℕ) (io : Delivery)
  | read (c : ℕ) (answered : Bool)
  | delete (c : ℕ) (io : Delivery)
  | lookup (c : ℕ) (listed : Option (List ℕ))
  | profile (c : ℕ) (row : Except Unit Bool)
  | post (c : ℕ) (answered : Bool)
  | release (c : ℕ) (io : Delivery)
  | abort (c : ℕ)

/-- The loop of `_lookup_auth_user`; an address that is null raises, and nobody is found. -/
def findUser (email : String) : List AuthUser → Option AuthUser
  | [] => none
  | u :: users =>
    match u.email with
    | none => none
    | some e => if Text.lower e = Text.lower email then some u else findUser email users

def lookupAuthUser (cfg : OtpConfig) (listed : Option (List ℕ)) : Option AuthUser :=
  listed.bind fun places => findUser cfg.email (places.filterMap fun n => cfg.directory.users[n]?)

namespace OtpState

variable (cfg : OtpConfig) (s : OtpState)

/-- `_store_otp`; a command that fails is not noticed. -/
def storeOtp (code : String) (io : Delivery) : OtpState :=
  if io = .lost then s
  else
    { s with
      stored := some { codeHash := cfg.sha256 code, expires := s.now + otpTtl, serial := s.codes.length }
      codes := s.codes ++ [⟨code, s.now⟩] }

def setCall (c : ℕ) (call : VerifyCall) (stage : Stage) : OtpState :=
  { s with calls := s.calls.set c { call with stage } }

/-- `set_nx` of the lock: without an answer the call is refused, though the lock may be set. -/
def acquire (c : ℕ) (call : VerifyCall) (io : Delivery) : OtpState :=
  let free := s.lock.all fun expires => expires ≤ s.now
  let locked := { s with lock := if free ∧ io ≠ Delivery.lost then some (s.now + lockTtl) else s.lock }
  locked.setCall c call
    (if free ∧ io = Delivery.done then .reading
      else .finished (.refused 429 "OTP verification in progress. Try again."))

def getStoredOtp (answered : Bool) : Option StoredOtp :=
  if answered then s.stored.filter fun stored => s.now < stored.expires else none

def read (c : ℕ) (call : VerifyCall) (answered : Bool) : OtpState :=
  match s.getStoredOtp answered with
  | none => s.setCall c call (.releasing (.refused 401 "No OTP found. Request a new one."))
  | some stored =>
    if stored.codeHash ≠ cfg.sha256 call.otp then
      s.setCall c call (.releasing (.refused 401 "Invalid OTP. Please try again."))
    else if stored.verified then
      s.setCall c call (.releasing (.refused 401 "OTP already used. Request a new one."))
    else s.setCall c { call with found := some (stored.serial, s.now) } .deleting

/-- `_delete_otp`, of whatever code is stored now; a command that fails is not noticed. -/
def delete (c : ℕ) (call : VerifyCall) (io : Delivery) : OtpState :=
  let deleted := if io = .lost then s else { s with stored := none }
  deleted.setCall c call .lookingUp

def lookup (c : ℕ) (call : VerifyCall) (listed : Option (List ℕ)) : OtpState :=
  match lookupAuthUser cfg listed with
  | none => s.setCall c call (.releasing (.session "" true))
  | some user => s.setCall c call (.readingProfile user.id)

def profile (c : ℕ) (call : VerifyCall) (uid : String) : Except Unit Bool → OtpState
  | .error _ => s.setCall c call (.releasing .failed)
  | .ok true => s.setCall c call (.releasing (.session uid false))
  | .ok false => s.setCall c call (.postingProfile uid)

def post (c : ℕ) (call : VerifyCall) (uid : String) (answered : Bool) : OtpState :=
  s.setCall c call (.releasing (.session uid (!answered)))

def release (c : ℕ) (call : VerifyCall) (outcome : Outcome) (io : Delivery) : OtpState :=
  let released := if io = .lost then s else { s with lock := none }
  released.setCall c call (.finished outcome)

/-- The call is cancelled; inside the `try` the lock is still to be deleted. -/
def abort (c : ℕ) (call : VerifyCall) : OtpState :=
  match call.stage with
  | .acquiring => s.setCall c call (.finished .failed)
  | .releasing outcome => s.setCall c call (.finished outcome)
  | .finished _ => s
  | _ => s.setCall c call (.releasing .failed)

def turn (c : ℕ) (call : VerifyCall) : Event → OtpState
  | .acquire _ io => if call.stage = .acquiring then s.acquire c call io else s
  | .read _ answered => if call.stage = .reading then s.read cfg c call answered else s
  | .delete _ io => if call.stage = .deleting then s.delete c call io else s
  | .lookup _ listed => if call.stage = .lookingUp then s.lookup cfg c call listed else s
  | .profile _ row =>
    match call.stage with
    | .readingProfile uid => s.profile c call uid row
    | _ => s
  | .post _ answered =>
    match call.stage with
    | .postingProfile uid => s.post c call uid answered
    | _ => s
  | .release _ io =>
    match call.stage with
    | .releasing outcome => s.release c call outcome io
    | _ => s
  | .abort _ => s.abort c call
  | _ => s

end OtpState

def Event.call : Event → Option ℕ
  | .acquire c _ | .read c _ | .delete c _ | .lookup c _ | .profile c _ | .post c _ | .release c _ | .abort c =>
    some c
  | _ => none

def step (cfg : OtpConfig) (s : OtpState) (e : Event) : OtpState :=
  match e with
  | .elapse seconds => { s with now := s.now + seconds }
  | .send code io => s.storeOtp cfg code io
  | .verify otp => { s with calls := s.calls ++ [{ otp }] }
  | e =>
    match e.call.bind fun c => (s.calls[c]?).map fun call => (c, call) with
    | some (c, call) => s.turn cfg c call e
    | none => s

def Stage.claiming : Stage → Bool
  | .deleting | .lookingUp | .readingProfile _ | .postingProfile _ => true
  | .releasing (.session _ _) | .finished (.session _ _) => true
  | _ => false

def Stage.subject : Stage → Option String
  | .readingProfile uid | .postingProfile uid => some uid
  | .releasing (.session uid _) | .finished (.session uid _) => some uid
  | _ => none

inductive Effect (cfg : OtpConfig) (s : OtpState) : Event → OtpState → Prop
  | quiet {e s'} (hcalls : s'.calls = s.calls) (hstored : s'.stored = s.stored) (hcodes : s'.codes = s.codes)
      (hnow : s.now ≤ s'.now) : Effect cfg s e s'
  | sends {code io s'} (hcalls : s'.calls = s.calls)
      (hstored : s'.stored =
        some { codeHash := cfg.sha256 code, expires := s.now + otpTtl, serial := s.codes.length })
      (hcodes : s'.codes = s.codes ++ [⟨code, s.now⟩]) (hnow : s'.now = s.now) : Effect cfg s (.send code io) s'
  | begins {otp s'} (hcalls : Puts s.calls s.calls.length { otp } s'.calls) (hstored : s'.stored = s.stored)
      (hcodes : s'.codes = s.codes) (hnow : s'.now = s.now) : Effect cfg s (.verify otp) s'
  | finds {c answered s'} {call : VerifyCall} {stored : StoredOtp} (hcall : s.calls[c]? = some call)
      (hstage : call.stage = .reading) (hfound : s.getStoredOtp answered = some stored)
      (hhash : stored.codeHash = cfg.sha256 call.otp)
      (hcalls : Puts s.calls c { call with found := some (stored.serial, s.now), stage := .deleting } s'.calls)
      (hstored : s'.stored = s.stored) (hcodes : s'.codes = s.codes) (hnow : s'.now = s.now) :
      Effect cfg s (.read c answered) s'
  | looks {c listed s'} {call : VerifyCall} {stage : Stage} (hcall : s.calls[c]? = some call)
      (hstage : call.stage = .lookingUp) (hcalls : Puts s.calls c { call with stage } s'.calls)
      (hsubject : ∀ uid, stage.subject = some uid → uid = ((lookupAuthUser cfg listed).map AuthUser.id).getD "")
      (hstored : s'.stored = s.stored) (hcodes : s'.codes = s.codes) (hnow : s'.now = s.now) :
      Effect cfg s (.lookup c listed) s'
  | turns {e c s'} {call : VerifyCall} {stage : Stage} (hcall : s.calls[c]? = some call)
      (hcalls : Puts s.calls c { call with stage } s'.calls)
      (hclaim : stage.claiming = true → call.stage.claiming = true)
      (hsubject : ∀ uid, stage.subject = some uid → call.stage.subject = some uid)
      (hstored : s'.stored = s.stored ∨ s'.stored = none) (hcodes : s'.codes = s.codes)
      (hnow : s'.now = s.now) : Effect cfg s e s'

section Effects

variable {cfg : OtpConfig} {s : OtpState} {c : ℕ} {call : VerifyCall} (hcall : s.calls[c]? = some call)

include hcall

theorem setCall_effect {e : Event} {stage : Stage} (hclaim : stage.claiming = true → call.stage.claiming = true)
    (hsubject : ∀ uid, stage.subject = some uid → call.stage.subject = some uid) :
    Effect cfg s e (s.setCall c call stage) :=
  .turns hcall (puts_set hcall _) hclaim hsubject (Or.inl rfl) rfl rfl

theorem acquire_effect {e : Event} (io : Delivery) : Effect cfg s e (s.acquire c call io) := by
  refine .turns hcall (puts_set hcall _) (fun hclaim => ?_) (fun uid huid => ?_) (Or.inl rfl) rfl rfl
  · revert hclaim
    split <;> exact fun h => absurd h Bool.false_ne_true
  · revert huid
    split <;> exact fun h => absurd h (by simp [Stage.subject])

theorem read_effect (answered : Bool) (hstage : call.stage = .reading) :
    Effect cfg s (.read c answered) (s.read cfg c call answered) := by
  unfold OtpState.read
  split
  · exact setCall_effect hcall (fun h => absurd h Bool.false_ne_true) (fun _ h => absurd h (by simp [Stage.subject]))
  · next stored hfound =>
    split
    · exact setCall_effect hcall (fun h => absurd h Bool.false_ne_true) (fun _ h => absurd h (by simp [Stage.subject]))
    · next hhash =>
      split
      · exact setCall_effect hcall (fun h => absurd h Bool.false_ne_true)
          (fun _ h => absurd h (by simp [Stage.subject]))
      · exact .finds hcall hstage hfound (not_not.mp hhash) (puts_set hcall _) rfl rfl rfl

theorem delete_effect {e : Event} (io : Delivery) (hstage : call.stage = .deleting) :
    Effect cfg s e (s.delete c call io) := by
  unfold OtpState.delete
  split
  · exact setCall_effect hcall (fun _ => by rw [hstage]; rfl) (fun _ h => absurd h (by simp [Stage.subject]))
  · exact .turns hcall (puts_set hcall _) (fun _ => by rw [hstage]; rfl)
      (fun _ h => absurd h (by simp [Stage.subject])) (Or.inr rfl) rfl rfl

theorem lookup_effect (listed : Option (List ℕ)) (hstage : call.stage = .lookingUp) :
    Effect cfg s (.lookup c listed) (s.lookup cfg c call listed) := by
  unfold OtpState.lookup
  split
  · next hnone =>
    refine .looks hcall hstage (puts_set hcall _) (fun uid huid => ?_) rfl rfl rfl
    rw [hnone]
    exact (Option.some.inj huid).symm
  · next user huser =>
    refine .looks hcall hstage (puts_set hcall _) (fun uid huid => ?_) rfl rfl rfl
    rw [huser]
    exact (Option.some.inj huid).symm

theorem profile_effect {e : Event} {uid : String} (row : Except Unit Bool) (hstage : call.stage = .readingProfile uid) :
    Effect cfg s e (s.profile c call uid row) := by
  unfold OtpState.profile
  split
  · exact setCall_effect hcall (fun h => absurd h Bool.false_ne_true) (fun _ h => absurd h (by simp [Stage.subject]))
  · exact setCall_effect hcall (fun _ => by rw [hstage]; rfl) (fun _ h => by rw [hstage]; exact h)
  · exact setCall_effect hcall (fun _ => by rw [hstage]; rfl) (fun _ h => by rw [hstage]; exact h)

theorem release_effect {e : Event} {outcome : Outcome} (io : Delivery) (hstage : call.stage = .releasing outcome) :
    Effect cfg s e (s.release c call outcome io) := by
  have hclaim : (Stage.finished outcome).claiming = call.stage.claiming := by
    rw [hstage]
    cases outcome <;> rfl
  have hsubject : (Stage.finished outcome).subject = call.stage.subject := by
    rw [hstage]
    cases outcome <;> rfl
  unfold OtpState.release
  split <;> exact .turns hcall (puts_set hcall _) (fun h => hclaim ▸ h) (fun _ h => hsubject ▸ h) (Or.inl rfl) rfl rfl

theorem abort_effect {e : Event} : Effect cfg s e (s.abort c call) := by
  unfold OtpState.abort
  cases hstage : call.stage with
  | releasing outcome =>
    refine setCall_effect hcall (fun h => ?_) fun uid h => ?_
    · rw [hstage]
      cases outcome <;> exact h
    · rw [hstage]
      cases outcome <;> exact h
  | finished outcome => exact .quiet rfl rfl rfl (le_refl _)
  | _ => exact setCall_effect hcall (fun h => absurd h Bool.false_ne_true) (fun _ h => absurd h (by simp [Stage.subject]))

theorem turn_effect {e : Event} (he : e.call = some c) : Effect cfg s e (s.turn cfg c call e) := by
  have hquiet : Effect cfg s e s := .quiet rfl rfl rfl (le_refl _)
  cases e with
  | elapse seconds => cases he
  | send code io => cases he
  | verify otp => cases he
  | acquire d io =>
    unfold OtpState.turn
    dsimp only
    split
    · exact acquire_effect hcall io
    · exact hquiet
  | read d answered =>
    obtain rfl : d = c := Option.some.inj he
    unfold OtpState.turn
    dsimp only
    split
    · next hstage => exact read_effect hcall answered hstage
    · exact hquiet
  | delete d io =>
    unfold OtpState.turn
    dsimp only
    split
    · next hstage => exact delete_effect hcall io hstage
    · exact hquiet
  | lookup d listed =>
    obtain rfl : d = c := Option.some.inj he
    unfold OtpState.turn
    dsimp only
    split
    · next hstage => exact lookup_effect hcall listed hstage
    · exact hquiet
  | profile d row =>
    unfold OtpState.turn
    dsimp only
    split
    · next uid hstage => exact profile_effect hcall row hstage
    · exact hquiet
  | post d answered =>
    unfold OtpState.turn
    dsimp only
    split
    · next uid hstage =>
      exact setCall_effect hcall (fun _ => by rw [hstage]; rfl) (fun _ h => by rw [hstage]; exact h)
    · exact hquiet
  | release d io =>
    unfold OtpState.turn
    dsimp only
    split
    · next outcome hstage => exact release_effect hcall io hstage
    · exact hquiet
  | abort d => exact abort_effect hcall

omit hcall

theorem call_effect {e : Event} (he : e.call ≠ none) : Effect cfg s e (step cfg s e) := by
  obtain ⟨c, hc⟩ := Option.ne_none_iff_exists'.mp he
  have hstep : step cfg s e = match (s.calls[c]?).map fun call => (c, call) with
      | some (c, call) => s.turn cfg c call e
      | none => s := by
    cases e <;> cases hc <;> rfl
  rw [hstep]
  cases hcall : s.calls[c]? with
  | none => exact .quiet rfl rfl rfl (le_refl _)
  | some call => exact turn_effect hcall hc

theorem step_effect (cfg : OtpConfig) (s : OtpState) (e : Event) : Effect cfg s e (step cfg s e) := by
  cases e with
  | elapse seconds => exact .quiet rfl rfl rfl (le_add_of_nonneg_right seconds.2)
  | send code io =>
    unfold step OtpState.storeOtp
    dsimp only
    split
    · exact .quiet rfl rfl rfl (le_refl _)
    · exact .sends rfl rfl rfl rfl
  | verify otp => exact .begins (puts_append _ _) rfl rfl rfl
  | acquire c io => exact call_effect (by simp [Event.call])
  | read c answered => exact call_effect (by simp [Event.call])
  | delete c io => exact call_effect (by simp [Event.call])
  | lookup c listed => exact call_effect (by simp [Event.call])
  | profile c row => exact call_effect (by simp [Event.call])
  | post c answered => exact call_effect (by simp [Event.call])
  | release c io => exact call_effect (by simp [Event.call])
  | abort c => exact call_effect (by simp [Event.call])

end Effects

end Trademetrix.Auth

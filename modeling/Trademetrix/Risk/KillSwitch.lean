import Trademetrix.Dict

/-!
# Trading halts

The global kill switch, the emergency stop of a user and the kill switch of a
user. `Engaged` is what the operators have engaged and not released. `KillSwitch`
adds the stores the code reads it back from: the Redis key `global:kill_switch`,
which may be out of reach, and the emergency flags in the memory of the process.
-/

namespace Trademetrix.Risk

structure Engaged where
  global : Bool
  emergency : Dict String Bool
  killSwitch : List String

structure KillSwitch where
  engaged : Engaged
  /-- The value of `global:kill_switch`. -/
  globalKey : Option String
  reachable : Bool
  /-- `_emergency_stops`, empty in a new process. -/
  emergencyStops : Dict String Bool

/-- `KillSwitch.active`; without a user it asks about any of them. -/
def active (stops : Dict String Bool) (userId : String) : Bool :=
  if userId ≠ "" then (stops.get userId).getD false else stops.values.any id

namespace Engaged

def halts (e : Engaged) (userId : String) : Bool :=
  e.global || active e.emergency userId || decide (userId ∈ e.killSwitch)

end Engaged

inductive Command
  | enableGlobal
  | disableGlobal
  | triggerEmergencyStop (userId : String)
  | releaseEmergencyStop (userId : String)
  | enableKillSwitch (userId : String)
  | disableKillSwitch (userId : String)
  | redis (reachable : Bool)
  deriving DecidableEq

namespace KillSwitch

variable (k : KillSwitch)

/-- `cache.get(GLOBAL_KILL_SWITCH_KEY)`, `none` also when Redis does not answer. -/
def cacheGet : Option String := if k.reachable then k.globalKey else none

def globalKillSwitchActive (val : Option String) : Bool := decide (val = some "1")

/-- `assert_orders_allowed` at the moment the cache answers. -/
def ordersAllowed (userId : String) : Bool :=
  !globalKillSwitchActive k.cacheGet && !active k.emergencyStops userId

def obey : Command → KillSwitch
  | .enableGlobal =>
    { k with
      engaged := { k.engaged with global := true }
      globalKey := if k.reachable then some "1" else k.globalKey }
  | .disableGlobal =>
    { k with
      engaged := { k.engaged with global := false }
      globalKey := if k.reachable then none else k.globalKey }
  | .triggerEmergencyStop u =>
    { k with
      engaged := { k.engaged with emergency := k.engaged.emergency.set u true }
      emergencyStops := k.emergencyStops.set u true }
  | .releaseEmergencyStop u =>
    { k with
      engaged := { k.engaged with emergency := k.engaged.emergency.set u false }
      emergencyStops := k.emergencyStops.set u false }
  | .enableKillSwitch u =>
    { k with engaged := { k.engaged with killSwitch := u :: k.engaged.killSwitch } }
  | .disableKillSwitch u =>
    { k with engaged := { k.engaged with killSwitch := k.engaged.killSwitch.filter (· ≠ u) } }
  | .redis up => { k with reachable := up }

/-- A new process has no emergency flags in memory; nothing at startup reads the
persisted ones back. -/
def restart : KillSwitch := { k with emergencyStops := [] }

/-- What `ordersAllowed` reads shows every halt engaged for the user. -/
structure Shows (userId : String) : Prop where
  global : k.engaged.global = true → k.cacheGet = some "1"
  emergency : active k.engaged.emergency userId = true → active k.emergencyStops userId = true
  killSwitch : userId ∉ k.engaged.killSwitch

instance (userId : String) : Decidable (k.Shows userId) :=
  decidable_of_iff ((k.engaged.global = true → k.cacheGet = some "1") ∧
    (active k.engaged.emergency userId = true → active k.emergencyStops userId = true) ∧
    userId ∉ k.engaged.killSwitch) ⟨fun h => ⟨h.1, h.2.1, h.2.2⟩, fun h => ⟨h.1, h.2, h.3⟩⟩

variable {k}

theorem not_halted_of_allowed {userId : String} (hs : k.Shows userId)
    (h : k.ordersAllowed userId = true) : k.engaged.halts userId = false := by
  simp only [ordersAllowed, globalKillSwitchActive, Bool.and_eq_true, Bool.not_eq_true',
    decide_eq_false_iff_not] at h
  obtain ⟨hkey, hmem⟩ := h
  have hglobal : k.engaged.global = false := by
    by_contra hg
    exact hkey (hs.global (by simpa using hg))
  have hemergency : active k.engaged.emergency userId = false := by
    by_contra he
    have hactive := hs.emergency (by simpa using he)
    rw [hmem] at hactive
    cases hactive
  simp [Engaged.halts, hglobal, hemergency, hs.killSwitch]

end KillSwitch

end Trademetrix.Risk

import Mathlib.Data.List.Basic
import Trademetrix.Builder.Compiler

/-!
# The store of strategies

`builder.manager`: strategies by their ids, the snapshots of each, and who may see them. A
stored strategy is a Python `dict` that an update changes in place while it waits for the
database, so the objects have places of their own and a waiting update holds one of them.
-/

namespace Trademetrix.Builder

inductive StrategyStatus
  | draft | validated | ready | published | paper | live | stopped | archived
  deriving DecidableEq, Repr

structure StrategySettings where
  symbol : String := "NIFTY"
  exchange : String := "NSE"
  interval : String := "15m"
  maxPositions : ℤ := 1
  maxRiskPerTrade : ℚ := 0
  maxDailyTrades : ℤ := 0
  trigger : String := "CANDLE_CLOSE"
  requireConfirmation : Bool := false
  deriving DecidableEq

structure RiskConfig where
  maxPositionSize : ℚ := 0
  maxDailyLoss : ℚ := 0
  riskPerTrade : ℚ := 1
  stopLossPct : ℚ := 0
  targetPct : ℚ := 0
  deriving DecidableEq

structure ScheduleConfig where
  tradingDays : List String := ["MON", "TUE", "WED", "THU", "FRI"]
  startTime : String := "09:15"
  endTime : String := "15:30"
  timezone : String := "Asia/Kolkata"
  deriving DecidableEq

structure DeploymentConfig where
  mode : String := "paper"
  broker : String := ""
  capital : ℚ := 0
  risk : RiskConfig := {}
  schedule : ScheduleConfig := {}
  deriving DecidableEq

/-- A strategy as it is stored; `userId` is `none` where the row has no owner at all. -/
structure Stored where
  id : String
  version : String := "1.0"
  name : String := ""
  description : String := ""
  author : String := "user"
  status : StrategyStatus := .draft
  tags : List String := []
  settings : StrategySettings := {}
  nodes : List GraphNode := []
  edges : List GraphEdge := []
  createdAt : String
  updatedAt : String
  parentId : String := ""
  versionNumber : ℤ := 1
  deployment : DeploymentConfig := {}
  userId : Option String := some ""

section Owners

def isHex (c : Char) : Bool :=
  ('0' ≤ c && c ≤ '9') || ('a' ≤ c && c ≤ 'f') || ('A' ≤ c && c ≤ 'F')

/-- `_UUID_RE.match`; the dollar sign also stands before a last line break. -/
def isUuid (s : String) : Bool :=
  let chars := s.toList
  let body := if chars.getLast? = some '\n' then chars.dropLast else chars
  let groups := body.splitOn '-'
  groups.map List.length = [8, 4, 4, 4, 12] && groups.all fun g => g.all isHex

def ownerOf (data : Stored) : Option String :=
  match data.userId with
  | some owner => if owner ≠ "" then some owner else if isUuid data.author then some data.author else none
  | none => if isUuid data.author then some data.author else none

def visibleTo (data : Stored) (userId : String) : Bool := ownerOf data = some userId

/-- `StrategyDSL(**data)`, which refuses a row without an owner. -/
def Stored.parsed (data : Stored) : Option Stored := if data.userId = none then none else some data

end Owners

structure VersionEntry where
  version : ℤ
  data : Stored
  savedAt : String

/-- An update that waits for the database, with the object it has changed; while `snapshots` it
still has a version to add. -/
structure Waiting where
  user : String
  token : ℕ
  sid : String
  ref : ℕ
  snapshots : Bool

/-- `strategies` names the current object of each strategy among all it ever had. -/
structure Manager where
  strategies : Dict String ℕ := []
  objects : Dict String (List Stored) := []
  versions : Dict String (List VersionEntry) := []
  waiting : List Waiting := []

structure Updates where
  version : Option String := none
  name : Option String := none
  description : Option String := none
  author : Option String := none
  status : Option StrategyStatus := none
  tags : Option (List String) := none
  settings : Option StrategySettings := none
  nodes : Option (List GraphNode) := none
  edges : Option (List GraphEdge) := none
  parentId : Option String := none
  versionNumber : Option ℤ := none
  deployment : Option DeploymentConfig := none
  userId : Option String := none

/-- The fields that an update names are set; `id` and `created_at` are passed over. -/
def Stored.update (data : Stored) (u : Updates) (now : String) : Stored :=
  { data with
    version := u.version.getD data.version
    name := u.name.getD data.name
    description := u.description.getD data.description
    author := u.author.getD data.author
    status := u.status.getD data.status
    tags := u.tags.getD data.tags
    settings := u.settings.getD data.settings
    nodes := u.nodes.getD data.nodes
    edges := u.edges.getD data.edges
    updatedAt := now
    parentId := u.parentId.getD data.parentId
    versionNumber := u.versionNumber.getD data.versionNumber
    deployment := u.deployment.getD data.deployment
    userId := u.userId.or data.userId }

def Updates.snapshots (u : Updates) : Bool :=
  u.name.isSome || u.nodes.isSome || u.edges.isSome || u.settings.isSome

inductive Reply
  | missing
  | raised
  | suspended
  | done
  | dsl (data : Stored)
  | rows (rows : List Stored)
  | versions (entries : List VersionEntry)

/-- A request; ids and moments are drawn by it, and `template` is the one that is named. -/
inductive Call
  | create (id name description author : String) (template : Option Stored) (now : String)
  | get (sid : String)
  | list (status : Option StrategyStatus)
  | getVersions (sid : String)
  | getVersion (sid : String) (version : ℤ)
  | update (token : ℕ) (sid : String) (updates : Updates) (now : String)
  | resume (token : ℕ)
  | delete (sid : String)
  | publish (sid now : String)
  | archive (sid now : String)
  | setStatus (sid : String) (status : StrategyStatus) (now : String)
  | clone (sid id now : String)
  | rollback (sid : String) (version : ℤ) (now : String)

namespace Manager

def maxVersions : ℕ := 50

variable (s : Manager)

def objectsOf (sid : String) : List Stored := (s.objects.get sid).getD []

def versionsOf (sid : String) : List VersionEntry := (s.versions.get sid).getD []

def stored (sid : String) : Option Stored := (s.strategies.get sid).bind fun ref => (s.objectsOf sid)[ref]?

def seen (user sid : String) : Option Stored := (s.stored sid).filter (visibleTo · user)

def bind (sid : String) (data : Stored) : Manager :=
  { s with
    objects := s.objects.set sid (s.objectsOf sid ++ [data])
    strategies := s.strategies.set sid (s.objectsOf sid).length }

def mutate (sid : String) (ref : ℕ) (f : Stored → Stored) : Manager :=
  { s with objects := s.objects.set sid ((s.objectsOf sid).modify ref f) }

def get (user sid : String) : Reply :=
  match s.seen user sid with
  | none => .missing
  | some data => data.parsed.elim .raised .dsl

def list (user : String) (status : Option StrategyStatus) : Reply :=
  let visible := (s.strategies.filterMap fun e => (s.objectsOf e.1)[e.2]?).filter (visibleTo · user)
  let kept := visible.filter fun data => status.all fun st => data.status = st
  .rows (kept.mergeSort fun a b => b.updatedAt ≤ a.updatedAt)

def fresh (sid : String) (data snapshot : Stored) (savedAt : String) : Manager :=
  { s.bind sid data with versions := s.versions.set sid [⟨1, snapshot, savedAt⟩] }

def draft (id name description author : String) (template : Option Stored) (now : String) : Stored :=
  match template with
  | some t =>
    { t with
      id := id, author := author, status := .draft, createdAt := now, updatedAt := now,
      versionNumber := 1, parentId := "" }
  | none =>
    { id := id, name := if name = "" then "Untitled Strategy" else name, description := description,
      author := author, createdAt := now, updatedAt := now }

def create (user id name description author : String) (template : Option Stored) (now : String) :
    Manager × Reply :=
  let dsl := draft id name description author template now
  (s.fresh id { dsl with userId := some user } dsl now, .dsl dsl)

def update (user : String) (token : ℕ) (sid : String) (updates : Updates) (now : String) : Manager × Reply :=
  match s.seen user sid with
  | none => (s, .missing)
  | some _ =>
    let ref := (s.strategies.get sid).getD 0
    let s := s.mutate sid ref (·.update updates now)
    ({ s with waiting := s.waiting ++ [⟨user, token, sid, ref, updates.snapshots⟩] }, .suspended)

/-- `versions[-MAX_VERSIONS:]` -/
def capped (entries : List VersionEntry) : List VersionEntry := entries.drop (entries.length - maxVersions)

def renew (w : Waiting) : Manager :=
  { s.mutate w.sid w.ref fun d => { d with versionNumber := d.versionNumber + 1 } with
    strategies := s.strategies.set w.sid w.ref }

def snapshot (w : Waiting) : Manager :=
  let s := s.renew w
  match (s.objectsOf w.sid)[w.ref]? with
  | none => s
  | some data =>
    let entry : VersionEntry := ⟨data.versionNumber, data, data.updatedAt⟩
    { s with versions := s.versions.set w.sid (capped (s.versionsOf w.sid ++ [entry])) }

def held (user : String) (token : ℕ) (w : Waiting) : Bool := w.user = user && w.token = token

def settled (user : String) (token : ℕ) (w : Waiting) : Waiting :=
  if held user token w then { w with snapshots := false } else w

def resume (user : String) (token : ℕ) : Manager × Reply :=
  match s.waiting.find? (held user token) with
  | none => (s, .missing)
  | some w =>
    if w.snapshots then
      ({ s.snapshot w with waiting := s.waiting.map (settled user token) }, .suspended)
    else
      ({ s with waiting := s.waiting.filter fun v => !held user token v },
        ((s.objectsOf w.sid)[w.ref]?.bind Stored.parsed).elim .raised .dsl)

def delete (user sid : String) : Manager × Reply :=
  match s.seen user sid with
  | none => (s, .missing)
  | some _ => ({ s with strategies := s.strategies.pop sid, versions := s.versions.pop sid }, .done)

def setStatus (user sid : String) (status : StrategyStatus) (now : String) : Manager × Reply :=
  match s.seen user sid with
  | none => (s, .missing)
  | some data =>
    match data.parsed with
    | none => (s, .raised)
    | some dsl =>
      let dsl := { dsl with status := status, updatedAt := now }
      (s.bind sid dsl, .dsl dsl)

def publish (user sid now : String) : Manager × Reply := s.setStatus user sid .published now

def archive (user sid now : String) : Manager × Reply := s.setStatus user sid .archived now

def clone (user sid id now : String) : Manager × Reply :=
  match s.seen user sid with
  | none => (s, .missing)
  | some data =>
    match data.parsed with
    | none => (s, .raised)
    | some original =>
      let clone :=
        { original with
          id := id, name := original.name ++ " (Copy)", status := .draft, parentId := original.id,
          versionNumber := 1, createdAt := now, updatedAt := now }
      (s.fresh id clone clone now, .dsl clone)

def rollback (user sid : String) (version : ℤ) (now : String) : Manager × Reply :=
  match s.seen user sid with
  | none => (s, .missing)
  | some _ =>
    let entries := s.versionsOf sid
    match entries.find? (·.version = version) with
    | none => (s, .missing)
    | some target =>
      match target.data.parsed with
      | none => (s, .raised)
      | some dsl =>
        let dsl :=
          { dsl with versionNumber := ((entries.map VersionEntry.version).max?).getD 0 + 1, updatedAt := now }
        let s := s.bind sid dsl
        ({ s with versions := s.versions.set sid (entries ++ [⟨dsl.versionNumber, dsl, now⟩]) }, .dsl dsl)

def getVersions (user sid : String) : Reply :=
  match s.seen user sid with
  | none => .versions []
  | some _ => .versions (s.versionsOf sid)

def getVersion (user sid : String) (version : ℤ) : Reply :=
  match s.seen user sid with
  | none => .missing
  | some _ =>
    match (s.versionsOf sid).find? (·.version = version) with
    | none => .missing
    | some target => target.data.parsed.elim .raised .dsl

def step (user : String) : Call → Manager × Reply
  | .create id name description author template now => s.create user id name description author template now
  | .get sid => (s, s.get user sid)
  | .list status => (s, s.list user status)
  | .getVersions sid => (s, s.getVersions user sid)
  | .getVersion sid version => (s, s.getVersion user sid version)
  | .update token sid updates now => s.update user token sid updates now
  | .resume token => s.resume user token
  | .delete sid => s.delete user sid
  | .publish sid now => s.publish user sid now
  | .archive sid now => s.archive user sid now
  | .setStatus sid status now => s.setStatus user sid status now
  | .clone sid id now => s.clone user sid id now
  | .rollback sid version now => s.rollback user sid version now

end Manager

end Trademetrix.Builder

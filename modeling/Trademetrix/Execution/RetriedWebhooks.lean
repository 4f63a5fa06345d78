import Trademetrix.Application.WebhookCalls
import Trademetrix.Run

/-!
# What becomes of a webhook that is retried

While no step gives up what it has drained and no retry goes to a recipient who
was sent an order, every entry is pending, executed or reported, and its number
of retries is that of its failed attempts.
-/

/-!
## The webhook route and its retry queue

A webhook whose handling raises anything but a `ValueError` is put on a list in
Redis with its signature in the payload. A pass of the worker drains the list
into memory and then tries the entries one after another; what the attempt came
to it reads from the text of the result. All of this is one process.
-/

namespace Trademetrix.Execution

open Application

/-- `dumps` is what `json.dumps` makes of the object of a body with the signature in it; read again,
it has the fields it had. -/
structure RetrySettings extends WebhookSettings where
  dumps : (body signature : String) → String
  loads_dumps : ∀ body signature data, loads body = .object data →
    loads (dumps body signature) = .object data

/-- An entry of the queue. Requests are numbered; `webhook` is the one it stems from. -/
structure RetryEntry where
  webhook : ℕ
  body : String
  signature : String
  retries : ℕ := 0

/-- The orders table, the list in Redis and what a pass has drained of it and not yet tried. The
lists below `received` record by webhook what happened: the orders sent with their users, the
entries put on the queue, those executed and those reported, the attempts that failed, and those of
accepted webhooks that the signature check refused. -/
structure RetryWorld where
  rows : OrderRows := []
  queue : List RetryEntry := []
  batch : List RetryEntry := []
  draining : Bool := true
  received : ℕ := 0
  sent : List (ℕ × String) := []
  enqueued : List ℕ := []
  executed : List ℕ := []
  reported : List ℕ := []
  failed : List ℕ := []
  refused : List ℕ := []

/-- What becomes of an `lpop`: it answers, it fails, or the entry is taken and the answer lost. -/
inductive PopReply
  | answered
  | failed
  | lost

/-- A request, or a step of the worker. `pushed` and `alerted` say whether the `rpush` and the alert
of the step, if it comes to one, succeed. A crash in the midst of handling a webhook happens after
the recipients that `env` lists. -/
inductive RetryEvent
  | request (body signature : String) (env : WebhookEnv) (pushed : Bool)
  | pop (reply : PopReply)
  | work (env : WebhookEnv) (pushed alerted : Bool)
  | crash
  | crashInRequest (body signature : String) (env : WebhookEnv)
  | crashInWork (env : WebhookEnv)

namespace RetryWorld

def maxRetries : ℕ := 3

def readsAsSuccess : Except WebhookFailure WebhookResult → Bool
  | .ok result =>
    let text := Text.lower result.text
    !Text.contains text "error" && !Text.contains text "invalid"
  | .error _ => false

def note (w : RetryWorld) (n : ℕ)
    (out : OrderRows × List GateCall × Except WebhookFailure WebhookResult) : RetryWorld :=
  { w with
    rows := out.1
    sent := w.sent ++ (out.2.1.filter GateCall.sent).map fun c => (n, c.userId) }

def accepts (cfg : RetrySettings) (body signature : String) : Bool :=
  match TradingView.verifySignature cfg.toWebhookSettings body signature with
  | .ok passed => passed
  | .error _ => false

def noteRetry (cfg : RetrySettings) (w : RetryWorld) (e : RetryEntry) : RetryWorld :=
  if accepts cfg e.body e.signature && !accepts cfg (cfg.dumps e.body e.signature) e.signature then
    { w with refused := w.refused ++ [e.webhook] }
  else w

/-- `tradingview_webhook` -/
def request (cfg : RetrySettings) (w : RetryWorld) (body signature : String) (env : WebhookEnv)
    (pushed : Bool) : RetryWorld :=
  let n := w.received
  let out := TradingView.handleWebhook cfg.toWebhookSettings w.rows body signature env
  let w := { w.note n out with received := n + 1 }
  match out.2.2, cfg.loads body with
  | .error (.other _), .object _ =>
    if pushed then
      { w with
        queue := w.queue ++ [{ webhook := n, body, signature }]
        enqueued := w.enqueued ++ [n] }
    else w
  | _, _ => w

def attempt (cfg : RetrySettings) (w : RetryWorld) (e : RetryEntry) (env : WebhookEnv)
    (pushed : Bool) : RetryWorld :=
  let out := TradingView.handleWebhook cfg.toWebhookSettings w.rows (cfg.dumps e.body e.signature)
    e.signature env
  let w := (w.note e.webhook out).noteRetry cfg e
  if readsAsSuccess out.2.2 then { w with executed := w.executed ++ [e.webhook] }
  else
    let w := { w with failed := w.failed ++ [e.webhook] }
    if pushed then { w with queue := w.queue ++ [{ e with retries := e.retries + 1 }] } else w

/-- An `lpop` of `dequeue_webhooks`; one that gives nothing ends the draining. -/
def pop (w : RetryWorld) (reply : PopReply) : RetryWorld :=
  match reply, w.queue with
  | .answered, e :: queue => { w with queue := queue, batch := w.batch ++ [e] }
  | .lost, _ :: queue => { w with queue := queue, draining := false }
  | _, _ => { w with draining := false }

def stop (w : RetryWorld) : RetryWorld := { w with batch := [], draining := true }

def step (cfg : RetrySettings) (w : RetryWorld) : RetryEvent → RetryWorld
  | .request body signature env pushed => w.request cfg body signature env pushed
  | .pop reply => if w.draining then w.pop reply else w
  | .work env pushed alerted =>
    if w.draining then w
    else match w.batch with
      | [] => { w with draining := true }
      | e :: batch =>
        let w := { w with batch := batch }
        if maxRetries ≤ e.retries then
          if alerted then { w with reported := w.reported ++ [e.webhook] } else w
        else w.attempt cfg e env pushed
  | .crash => w.stop
  | .crashInRequest body signature env =>
    let out := TradingView.handleWebhook cfg.toWebhookSettings w.rows body signature env
    { w.note w.received out with received := w.received + 1 }.stop
  | .crashInWork env =>
    match w.batch with
    | e :: _ =>
      if w.draining = false ∧ e.retries < maxRetries then
        (w.note e.webhook (TradingView.handleWebhook cfg.toWebhookSettings w.rows
          (cfg.dumps e.body e.signature) e.signature env)).stop
      else w.stop
    | [] => w.stop

def pending (w : RetryWorld) : List RetryEntry := w.batch ++ w.queue

/-- No recipient is sent two orders of a webhook; an entry of the queue is pending, executed or
reported, and only one of these; no retry of an accepted webhook is refused; and an entry is
reported when it has failed as often as it may, and once. -/
structure Settled (w : RetryWorld) : Prop where
  once : w.sent.Nodup
  distinct : w.enqueued.Nodup
  kept : ∀ n, w.enqueued.count n =
    (w.pending.map RetryEntry.webhook).count n + w.executed.count n + w.reported.count n
  verified : w.refused = []
  reported : ∀ n ∈ w.reported, w.failed.count n = maxRetries
  exhausted : ∀ n, w.failed.count n = maxRetries → n ∉ w.pending.map RetryEntry.webhook →
    w.reported.count n = 1

/-- The order of a recipient ends before the broker: his quantity is not scaled, the gate does not
send it, or it is a mirrored one whose row is stored and read. -/
def Unsent (cfg : RetrySettings) (rows : OrderRows) (data : WebhookData)
    (r : String × RecipientEnv) : Prop :=
  r.2.scaled.isOk = false ∨ r.2.answer.sent = false ∨
    data.strategyId ≠ "" ∧ r.2.answer.looks = true ∧
      (r.1, mirrorId cfg.toGateSettings data r.1) ∈ rows

/-- No drained entry is given up: the process does not crash with entries in memory, no answer of an
`lpop` is lost, and an entry that has failed too often is reported. A retry is signed for the body
it sends, is put back if it fails, and sends no order to a recipient who was sent one. -/
def Sound (cfg : RetrySettings) (w : RetryWorld) : RetryEvent → Prop
  | .request .. => True
  | .pop .lost => w.draining = true → w.queue = []
  | .pop _ => True
  | .work env pushed alerted => w.draining = false → ∀ e ∈ w.batch.head?,
      if maxRetries ≤ e.retries then alerted = true
      else
        pushed = true ∧
        (cfg.secret = "" ∨ cfg.hmac cfg.secret e.body ≠ e.signature ∨
          cfg.hmac cfg.secret (cfg.dumps e.body e.signature) = e.signature) ∧
        ∀ data, cfg.loads e.body = .object data → ∀ r ∈ env.recipientsOf data,
          (e.webhook, r.1) ∈ w.sent → Unsent cfg w.rows data r
  | .crash | .crashInRequest .. | .crashInWork _ => w.batch = []

end RetryWorld

end Trademetrix.Execution

namespace Trademetrix.Execution.RetryWorld

open Application

variable {cfg : RetrySettings} {w : RetryWorld} {e : RetryEntry} {batch : List RetryEntry} {n : ℕ}

theorem accepts_iff {body signature : String} :
    accepts cfg body signature = true ↔ cfg.secret = "" ∨ signature ≠ "" ∧
      (signature.toList.all fun c => c.toNat < 128) = true ∧ cfg.hmac cfg.secret body = signature := by
  rw [accepts, TradingView.verifySignature]
  by_cases hsecret : cfg.secret = ""
  · simp [hsecret]
  · by_cases hsigned : signature = ""
    · simp [hsecret, hsigned]
    · by_cases hascii : (signature.toList.all fun c => c.toNat < 128) = true
      · simp only [hsecret, hsigned, hascii, if_true, if_false, decide_eq_true_eq, false_or, ne_eq,
          not_false_iff, true_and]
      · simp only [hsecret, hsigned, hascii, if_false, Bool.false_eq_true, false_or, false_and, and_false]

theorem noteRetry_eq (hsigned : cfg.secret = "" ∨ cfg.hmac cfg.secret e.body ≠ e.signature ∨
    cfg.hmac cfg.secret (cfg.dumps e.body e.signature) = e.signature) (w : RetryWorld) :
    w.noteRetry cfg e = w := by
  rw [noteRetry, if_neg]
  intro hrefused
  rw [Bool.and_eq_true, Bool.not_eq_true', accepts_iff, ← Bool.not_eq_true, accepts_iff] at hrefused
  obtain ⟨hfirst, hretry⟩ := hrefused
  rcases hfirst with hempty | ⟨hne, hascii, hbody⟩
  · exact hretry (.inl hempty)
  · rcases hsigned with hempty | hother | hagain
    · exact hretry (.inl hempty)
    · exact hother hbody
    · exact hretry (.inr ⟨hne, hascii, hagain⟩)

structure Inv (cfg : RetrySettings) (w : RetryWorld) : Prop where
  fresh : ∀ n ∈ w.enqueued, n < w.received
  known : ∀ x ∈ w.sent, x.1 < w.received
  once : w.sent.Nodup
  distinct : w.enqueued.Nodup
  kept : ∀ n, w.enqueued.count n =
    (w.pending.map RetryEntry.webhook).count n + w.executed.count n + w.reported.count n
  verified : w.refused = []
  entries : ∀ e ∈ w.pending, w.failed.count e.webhook = e.retries ∧ e.retries ≤ maxRetries ∧
    ∃ data, cfg.loads e.body = .object data
  untried : ∀ n ∉ w.enqueued, w.failed.count n = 0
  executed : ∀ n ∈ w.executed, w.failed.count n < maxRetries
  reported : ∀ n ∈ w.reported, w.failed.count n = maxRetries

namespace Inv

theorem start (rows : OrderRows) : Inv cfg { rows := rows } where
  fresh _ h := absurd h List.not_mem_nil
  known _ h := absurd h List.not_mem_nil
  once := List.nodup_nil
  distinct := List.nodup_nil
  kept _ := rfl
  verified := rfl
  entries _ h := absurd h List.not_mem_nil
  untried _ _ := rfl
  executed _ h := absurd h List.not_mem_nil
  reported _ h := absurd h List.not_mem_nil

theorem settled (h : Inv cfg w) : Settled w where
  once := h.once
  distinct := h.distinct
  kept := h.kept
  verified := h.verified
  reported := h.reported
  exhausted n hfailed hpending := by
    have hentered : n ∈ w.enqueued := by
      by_contra hnot
      have hzero := h.untried n hnot
      rw [hfailed] at hzero
      cases hzero
    have hexecuted : n ∉ w.executed := fun hmem => by
      have hlt := h.executed n hmem
      omega
    have hkept := h.kept n
    rw [List.count_eq_one_of_mem h.distinct hentered, List.count_eq_zero_of_not_mem hpending,
      List.count_eq_zero_of_not_mem hexecuted] at hkept
    omega

theorem receive (h : Inv cfg w) : Inv cfg { w with received := w.received + 1 } :=
  { h with
    fresh := fun n hn => Nat.lt_succ_of_lt (h.fresh n hn)
    known := fun x hx => Nat.lt_succ_of_lt (h.known x hx) }

theorem note (h : Inv cfg w) (hn : n < w.received) (body signature : String) (env : WebhookEnv)
    (hnew : ∀ c ∈ (TradingView.handleWebhook cfg.toWebhookSettings w.rows body signature env).2.1,
      c.sent = true → (n, c.userId) ∉ w.sent) :
    Inv cfg (w.note n
      (TradingView.handleWebhook cfg.toWebhookSettings w.rows body signature env)) := by
  have hnodup := TradingView.nodup_handleWebhook cfg.toWebhookSettings w.rows body signature env
  generalize TradingView.handleWebhook cfg.toWebhookSettings w.rows body signature env = out at hnew hnodup ⊢
  have hcalls : ((out.2.1.filter GateCall.sent).map GateCall.userId).Nodup :=
    hnodup.sublist (List.filter_sublist.map _)
  have hsent : ((out.2.1.filter GateCall.sent).map fun c => (n, c.userId)).Nodup := by
    rw [← Function.comp_def (fun u : String => (n, u)) GateCall.userId, ← List.map_map]
    exact hcalls.map fun u v huv => congrArg Prod.snd huv
  refine { h with known := fun x hx => ?_, once := ?_ }
  · rcases List.mem_append.mp hx with hx | hx
    · exact h.known x hx
    · obtain ⟨c, -, rfl⟩ := List.mem_map.mp hx
      exact hn
  · refine h.once.append hsent fun x hx hx' => ?_
    obtain ⟨c, hc, rfl⟩ := List.mem_map.mp hx'
    rw [List.mem_filter] at hc
    exact hnew c hc.1 hc.2 hx

theorem enqueue (h : Inv cfg w) (hn : n < w.received) (hnew : n ∉ w.enqueued) {body : String}
    (hbody : ∃ data, cfg.loads body = .object data) (signature : String) :
    Inv cfg { w with
      queue := w.queue ++ [{ webhook := n, body, signature }]
      enqueued := w.enqueued ++ [n] } where
  fresh m hm := by
    rcases List.mem_append.mp hm with hm | hm
    · exact h.fresh m hm
    · exact (List.mem_singleton.mp hm) ▸ hn
  known := h.known
  once := h.once
  distinct := by simpa [List.nodup_append] using ⟨h.distinct, fun m hm heq => hnew (heq ▸ hm)⟩
  kept m := by
    have hkept := h.kept m
    simp only [pending, List.map_append, List.count_append, List.map_singleton] at hkept ⊢
    omega
  verified := h.verified
  entries e he := by
    rw [pending, ← List.append_assoc] at he
    rcases List.mem_append.mp he with he | he
    · exact h.entries e he
    · rw [List.mem_singleton.mp he]
      exact ⟨h.untried n hnew, Nat.zero_le _, hbody⟩
  untried m hm := h.untried m fun hmem => hm (List.mem_append_left _ hmem)
  executed := h.executed
  reported := h.reported

theorem head (h : Inv cfg w) (hbatch : w.batch = e :: batch) :
    w.enqueued.count e.webhook = 1 ∧ ((batch ++ w.queue).map RetryEntry.webhook).count e.webhook = 0 ∧
      e.webhook ∉ w.executed ∧ e.webhook ∉ w.reported := by
  have hkept := h.kept e.webhook
  have hle : w.enqueued.count e.webhook ≤ 1 := List.nodup_iff_count_le_one.mp h.distinct _
  simp only [pending, hbatch, List.cons_append, List.map_cons, List.count_cons_self] at hkept
  exact ⟨by omega, by omega, List.count_eq_zero.mp (by omega), List.count_eq_zero.mp (by omega)⟩

theorem execute (h : Inv cfg w) (hbatch : w.batch = e :: batch) (hlt : e.retries < maxRetries) :
    Inv cfg { w with batch := batch, executed := w.executed ++ [e.webhook] } :=
  have hpending : w.pending = e :: (batch ++ w.queue) := by rw [pending, hbatch, List.cons_append]
  { h with
    kept := fun m => by
      have hkept := h.kept m
      simp only [hpending, List.map_cons, List.count_cons] at hkept
      simp only [pending, List.count_append, List.count_singleton]
      omega
    entries := fun e' he' => h.entries e' (hpending ▸ List.mem_cons_of_mem e he')
    executed := fun m hm => by
      rcases List.mem_append.mp hm with hm | hm
      · exact h.executed m hm
      · have hentry := h.entries e (hpending ▸ List.mem_cons_self)
        rw [List.mem_singleton.mp hm, hentry.1]
        exact hlt }

theorem report (h : Inv cfg w) (hbatch : w.batch = e :: batch) (hle : maxRetries ≤ e.retries) :
    Inv cfg { w with batch := batch, reported := w.reported ++ [e.webhook] } :=
  have hpending : w.pending = e :: (batch ++ w.queue) := by rw [pending, hbatch, List.cons_append]
  { h with
    kept := fun m => by
      have hkept := h.kept m
      simp only [hpending, List.map_cons, List.count_cons] at hkept
      simp only [pending, List.count_append, List.count_singleton]
      omega
    entries := fun e' he' => h.entries e' (hpending ▸ List.mem_cons_of_mem e he')
    reported := fun m hm => by
      rcases List.mem_append.mp hm with hm | hm
      · exact h.reported m hm
      · have hentry := h.entries e (hpending ▸ List.mem_cons_self)
        rw [List.mem_singleton.mp hm, hentry.1]
        exact Nat.le_antisymm hentry.2.1 hle }

theorem requeue (h : Inv cfg w) (hbatch : w.batch = e :: batch) (hlt : e.retries < maxRetries) :
    Inv cfg { w with
      batch := batch
      failed := w.failed ++ [e.webhook]
      queue := w.queue ++ [{ e with retries := e.retries + 1 }] } :=
  have hpending : w.pending = e :: (batch ++ w.queue) := by rw [pending, hbatch, List.cons_append]
  have hentry := h.entries e (hpending ▸ List.mem_cons_self)
  have ⟨hone, hrest, hexecuted, hreported⟩ := h.head hbatch
  have hother : ∀ m, m ≠ e.webhook → (w.failed ++ [e.webhook]).count m = w.failed.count m :=
    fun m hm => by rw [List.count_append, List.count_singleton, if_neg (by simpa using hm.symm), add_zero]
  { h with
    kept := fun m => by
      have hkept := h.kept m
      simp only [hpending, List.map_cons, List.count_cons, List.map_append, List.count_append] at hkept
      simp only [pending, List.map_append, List.count_append, List.map_singleton, List.count_singleton]
      omega
    entries := fun e' he' => by
      rw [pending, ← List.append_assoc] at he'
      rcases List.mem_append.mp he' with he' | he'
      · have hne : e'.webhook ≠ e.webhook := fun heq =>
          List.count_eq_zero.mp hrest (heq ▸ List.mem_map_of_mem he')
        rw [hother _ hne]
        exact h.entries e' (hpending ▸ List.mem_cons_of_mem e he')
      · rw [List.mem_singleton.mp he', List.count_append, List.count_singleton_self, hentry.1]
        exact ⟨rfl, hlt, hentry.2.2⟩
    untried := fun m hm => by
      have hne : m ≠ e.webhook := fun heq => by
        rw [← heq, List.count_eq_zero_of_not_mem hm] at hone
        cases hone
      rw [hother m hne]
      exact h.untried m hm
    executed := fun m hm => by
      rw [hother m fun heq => hexecuted (heq ▸ hm)]
      exact h.executed m hm
    reported := fun m hm => by
      rw [hother m fun heq => hreported (heq ▸ hm)]
      exact h.reported m hm }

theorem stop (h : Inv cfg w) (hbatch : w.batch = []) : Inv cfg w.stop := by
  have hpending : w.stop.pending = w.pending := by rw [pending, pending, hbatch]; rfl
  exact { h with
    kept := fun m => by rw [hpending]; exact h.kept m
    entries := fun e he => h.entries e (hpending ▸ he) }

theorem received (h : Inv cfg w) (body signature : String) (env : WebhookEnv) :
    Inv cfg { w.note w.received (TradingView.handleWebhook cfg.toWebhookSettings w.rows body signature env)
      with received := w.received + 1 } :=
  h.receive.note (Nat.lt_succ_self _) body signature env fun _ _ _ hmem =>
    Nat.lt_irrefl _ (h.known _ hmem)

theorem request (h : Inv cfg w) (body signature : String) (env : WebhookEnv) (pushed : Bool) :
    Inv cfg (w.request cfg body signature env pushed) := by
  have hreceived := h.received body signature env
  rw [RetryWorld.request]
  split
  next hbody =>
    split
    · exact hreceived.enqueue (Nat.lt_succ_self _) (fun hmem => Nat.lt_irrefl _ (h.fresh _ hmem))
        ⟨_, hbody⟩ signature
    · exact hreceived
  next => exact hreceived

theorem attempt (h : Inv cfg w) (hbatch : w.batch = e :: batch) (hlt : e.retries < maxRetries)
    {env : WebhookEnv} {pushed alerted : Bool} (hsound : Sound cfg w (.work env pushed alerted))
    (hdraining : w.draining = false) :
    Inv cfg ({ w with batch := batch }.attempt cfg e env pushed) := by
  have hretry := hsound hdraining e (by rw [hbatch]; rfl)
  rw [if_neg (Nat.not_le.mpr hlt)] at hretry
  obtain ⟨rfl, hsigned, hsends⟩ := hretry
  have hknown : e.webhook < w.received := by
    refine h.fresh _ (List.count_pos_iff.mp ?_)
    rw [(h.head hbatch).1]
    exact Nat.one_pos
  have hmem : e ∈ w.pending := by
    rw [pending, hbatch]
    exact List.mem_cons_self
  obtain ⟨body, hbody⟩ := (h.entries e hmem).2.2
  have hnote := h.note hknown (cfg.dumps e.body e.signature) e.signature env
    fun c hc hsent hmem => by
      obtain ⟨data, hdata, r, hr, hname, hscaled, hgate, hfind⟩ :=
        TradingView.sent_handleWebhook hc hsent
      rw [cfg.loads_dumps _ _ _ hbody] at hdata
      cases hdata
      rw [← hname] at hmem
      rcases hsends _ hbody r hr hmem with hun | hun | ⟨hm, hlooks, hrow⟩
      · exact absurd (hscaled.symm.trans hun) nofun
      · exact absurd (hgate.symm.trans hun) nofun
      · exact hfind hm hlooks hrow
  rw [RetryWorld.attempt]
  simp only [noteRetry_eq hsigned]
  generalize TradingView.handleWebhook cfg.toWebhookSettings w.rows (cfg.dumps e.body e.signature)
    e.signature env = out at hnote ⊢
  split
  · exact hnote.execute hbatch hlt
  · exact hnote.requeue hbatch hlt

theorem pop (h : Inv cfg w) {reply : PopReply} (hlost : reply = .lost → w.queue = []) :
    Inv cfg (w.pop reply) := by
  unfold RetryWorld.pop
  split
  next e queue hqueue =>
    have hpending : { w with queue := queue, batch := w.batch ++ [e] }.pending = w.pending := by
      rw [pending, pending, hqueue, List.append_assoc, List.singleton_append]
    exact { h with
      kept := fun m => by rw [hpending]; exact h.kept m
      entries := fun e he => h.entries e (hpending ▸ he) }
  next e queue hqueue =>
    rw [hlost rfl] at hqueue
    cases hqueue
  next => exact { h with }

theorem step (h : Inv cfg w) (a : RetryEvent) (hsound : Sound cfg w a) : Inv cfg (w.step cfg a) := by
  cases a with
  | request body signature env pushed => exact h.request body signature env pushed
  | pop reply =>
    rw [RetryWorld.step]
    split
    next hdraining => exact h.pop fun hlost => by cases hlost; exact hsound hdraining
    next => exact h
  | work env pushed alerted =>
    rw [RetryWorld.step]
    split
    next => exact h
    next hdraining =>
      have hidle : w.draining = false := by simpa using hdraining
      split
      next => exact { h with }
      next e batch hbatch =>
        dsimp only
        split
        next hle =>
          have halerted := hsound hidle e (by rw [hbatch]; rfl)
          rw [if_pos hle] at halerted
          rw [if_pos halerted]
          exact h.report hbatch hle
        next hlt => exact h.attempt hbatch (Nat.not_le.mp hlt) hsound hidle
  | crash => exact h.stop hsound
  | crashInRequest body signature env => exact (h.received body signature env).stop hsound
  | crashInWork env =>
    have hbatch : w.batch = [] := hsound
    rw [RetryWorld.step, hbatch]
    exact h.stop hbatch

end Inv

section Sample

def sample (secret : String) : RetrySettings where
  sha256 := id
  resolve _ _ _ := none
  secret := secret
  hmac key body := key ++ body
  loads _ := .object
    { symbol := "NIFTY", action := "BUY", quantity := some 65, strategyId := "momentum" }
  dumps body signature := body ++ signature
  loads_dumps _ _ _ h := h

def unread : WebhookEnv where
  recipients := .error "Supabase client is closed or shutting down"
  users _ := ⟨.ok 65, 0, { result := .error "", sent := false, recorded := false }⟩
  distinct _ h := by cases h

/-- The order of u1 is filled and stored, that of u2 fails; `looks` says whether the orders table is
read. -/
def half (looks : Bool) : WebhookEnv where
  recipients := .ok ["u1", "u2"]
  users
    | 0 => ⟨.ok 65, 0, { looks, result := .ok { success := true }, sent := true, recorded := true }⟩
    | _ => ⟨.ok 65, 0, { looks, result := .error "timeout", sent := false, recorded := false }⟩
  distinct _ h := by
    cases h
    decide

theorem readsAsSuccess_error {r s : UserResult} (h : s.status = "error") :
    readsAsSuccess (.ok (.many [r, s])) = false := by
  have hstatus : "error".toList <:+: (Text.reprText s.status).toList.flatMap Text.lowerChar := by
    rw [h]
    decide +kernel
  have hentry : (Text.reprText s.status).toList <:+: s.text.toList := by
    unfold UserResult.text
    simp only [String.toList_append]
    exact (List.suffix_append _ _).isInfix.trans (List.prefix_append _ _).isInfix
  have htext : s.text.toList <:+: (WebhookResult.many [r, s]).text.toList := by
    unfold WebhookResult.text
    simp only [List.map_cons, List.map_nil, String.intercalate_cons_cons, String.intercalate_singleton,
      String.toList_append, List.append_assoc]
    refine List.IsInfix.trans ?_ (List.suffix_append _ _).isInfix
    refine List.IsInfix.trans ?_ (List.suffix_append _ _).isInfix
    refine List.IsInfix.trans ?_ (List.suffix_append _ _).isInfix
    exact (List.prefix_append _ _).isInfix
  have hcontains : Text.contains (Text.lower (WebhookResult.many [r, s]).text) "error" = true := by
    simp only [Text.contains, Text.lower, String.toList_ofList, decide_eq_true_eq]
    exact hstatus.trans ((hentry.trans htext).flatMap _)
  simp only [readsAsSuccess, hcontains, Bool.not_true, Bool.false_and]

theorem sent_attempt (env : WebhookEnv) (pushed : Bool) :
    (w.attempt cfg e env pushed).sent = (w.note e.webhook (TradingView.handleWebhook
      cfg.toWebhookSettings w.rows (cfg.dumps e.body e.signature) e.signature env)).sent := by
  simp only [attempt, noteRetry]
  split_ifs <;> rfl

theorem attempt_failed {env : WebhookEnv} (h : readsAsSuccess (TradingView.handleWebhook
      cfg.toWebhookSettings w.rows (cfg.dumps e.body e.signature) e.signature env).2.2 = false) :
    w.attempt cfg e env true =
      let noted := (w.note e.webhook (TradingView.handleWebhook cfg.toWebhookSettings w.rows
        (cfg.dumps e.body e.signature) e.signature env)).noteRetry cfg e
      { noted with
        failed := noted.failed ++ [e.webhook]
        queue := noted.queue ++ [{ e with retries := e.retries + 1 }] } := by
  simp only [attempt, h]
  rfl

theorem step_work {env : WebhookEnv} {pushed alerted : Bool} (hdraining : w.draining = false)
    (hbatch : w.batch = e :: batch) (hlt : e.retries < maxRetries) :
    w.step cfg (.work env pushed alerted) = attempt cfg { w with batch := batch } e env pushed := by
  simp only [step, hdraining, hbatch, Nat.not_le.mpr hlt, Bool.false_eq_true, if_false]

/-- u1 is sent an order in each attempt. -/
theorem half_sent_twice :
    ([RetryEvent.request "b" "" unread true, .pop .answered, .pop .answered, .work (half true) true true,
      .work (half true) true true, .pop .answered, .pop .answered, .work (half false) true true].foldl
        (step (sample "")) { rows := [] }).sent = [(0, "u1"), (0, "u1")] := by
  let entry (retries : ℕ) : RetryEntry := ⟨0, "b", "", retries⟩
  let idle : RetryWorld := { draining := false, received := 1, enqueued := [0] }
  let failed (rows : OrderRows) (queue batch : List RetryEntry) : RetryWorld :=
    { idle with rows := rows, queue := queue, batch := batch, sent := [(0, "u1")], failed := [0] }
  have hreads : readsAsSuccess (TradingView.handleWebhook (sample "").toWebhookSettings idle.rows
      ((sample "").dumps "b" "") "" (half true)).2.2 = false :=
    readsAsSuccess_error (r := ⟨"u1", true, some "", "", ""⟩)
      (s := ⟨"u2", false, none, "timeout", "error"⟩) rfl
  have hdrained : [RetryEvent.request "b" "" unread true, .pop .answered, .pop .answered].foldl
      (step (sample "")) { rows := [] } = { idle with batch := [entry 0] } := rfl
  obtain ⟨rows, hfailed⟩ : ∃ rows, attempt (sample "") idle (entry 0) (half true) true =
      failed rows [entry 1] [] := by
    rw [attempt_failed (e := entry 0) hreads]
    exact ⟨_, rfl⟩
  have hagain : [RetryEvent.work (half true) true true, .pop .answered, .pop .answered].foldl
      (step (sample "")) (failed rows [entry 1] []) = failed rows [] [entry 1] := rfl
  have hrun (a b : List RetryEvent) (x y : RetryEvent) (v : RetryWorld) :
      (a ++ x :: (b ++ [y])).foldl (step (sample "")) v = step (sample "") (b.foldl (step (sample ""))
        (step (sample "") (a.foldl (step (sample "")) v) x)) y := by
    simp only [List.foldl_append, List.foldl_cons, List.foldl_nil]
  have h := hrun [.request "b" "" unread true, .pop .answered, .pop .answered]
    [.work (half true) true true, .pop .answered, .pop .answered] (.work (half true) true true)
    (.work (half false) true true) { rows := [] }
  rw [hdrained, step_work (w := { idle with batch := [entry 0] }) rfl rfl (by decide)] at h
  rw [hfailed, hagain, step_work (w := failed rows [] [entry 1]) rfl rfl (by decide)] at h
  refine (congrArg sent h).trans ?_
  rw [sent_attempt]
  rfl

end Sample

end Trademetrix.Execution.RetryWorld

import Trademetrix.Async.Pool
import Trademetrix.Oms.Legal
import Trademetrix.Oms.Texts

/-!
# What stands behind a bracket

The bracket monitor retires a bracket as soon as its exit order is placed, and that
order is only queued then. Beside the run it is noted which order a bracket was retired
for, with which request it was placed and what its sends have filled, and which brackets
were set aside for another reason.
-/

namespace Trademetrix.Oms

open Async
open Execution (ExecutionRequest ExecutionResult)

structure StopWatch where
  placed : Ref → Option ExecutionRequest := fun _ => none
  sold : Ref → ℤ := fun _ => 0
  exit : Ref → Option OrderId := fun _ => none
  aside : Ref → Bool := fun _ => false

namespace StopWatch

def rebind (w : World) (bracket : BracketOrder) (g : StopWatch) : StopWatch :=
  { g with aside := fun q =>
      if q = w.nextBracket then !bracket.active || hasLeg bracket
      else g.aside q || (w.brackets.get bracket.parentOrderId = some q : Bool) }

def put (b : Ref) (g : StopWatch) : StopWatch := { g with aside := Function.update g.aside b true }

end StopWatch

def noteStop (w : World) (e : Effect) (g : StopWatch) : StopWatch :=
  match e with
  | .create req _ _ =>
    { g with
      placed := Function.update g.placed w.nextRef (some req)
      sold := Function.update g.sold w.nextRef 0 }
  | .answered r res =>
    if res.state = .partiallyFilled ∧ 0 < (w.heap r).remaining res then
      { g with sold := Function.update g.sold r (g.sold r + res.filledQty) }
    else g
  | .exited b _ oid => { g with exit := Function.update g.exit b (some oid) }
  | .deactivated b | .legPlaced b _ _ => g.put b
  | .bracketed bracket | .recoveredBracket bracket => g.rebind w bracket
  | .crash => {}
  | _ => g

def monitorSources : List String := ["exit_sl", "exit_target"]

structure ExitOf (bracket : BracketOrder) (req : ExecutionRequest) : Prop where
  userId : req.userId = bracket.userId
  broker : req.broker = bracket.broker
  symbol : req.symbol = bracket.symbol
  side : req.side = if bracket.side = "BUY" then "SELL" else "BUY"
  quantity : req.quantity = bracket.quantity
  source : req.source ∈ monitorSources

def MarketSent (req : ExecutionRequest) (o : OmniOrder) : Bool :=
  req.orderType = "MARKET" && o.sentAt.isSome

/-- Filled, or live by `is_active`. -/
def stands (s : OMSOrderState) : Bool := s = .filled || StateMachine.isActive s

/-- The order `r` covers the bracket: it is an exit of all of it, and a market order that
was sent or an order that stands, for all it has not filled yet. -/
structure CoveredBy (x : World × StopWatch) (b r : Ref) (req : ExecutionRequest) : Prop where
  placed : x.2.placed r = some req
  exit : ExitOf (x.1.bracketHeap b) req
  rest : MarketSent req (x.1.heap r) = true ∨
    stands (x.1.heap r).state = true ∧
      (x.1.heap r).quantity + x.2.sold r = (x.1.bracketHeap b).quantity

/-- The next price update looks at the bracket, or it was set aside for another reason
than an exit, or the order it was retired for covers it. -/
def Protected (x : World × StopWatch) (b : Ref) : Prop :=
  match x.2.exit b with
  | none =>
    (x.1.bracketHeap b).active = true ∧ hasLeg (x.1.bracketHeap b) = false ∨ x.2.aside b = true
  | some oid => ∃ r < x.1.nextRef, (x.1.heap r).omsOrderId = oid ∧ ∃ req, CoveredBy x b r req

def Behind (x : World × StopWatch) (r : Ref) : Prop :=
  (∃ b < x.1.nextBracket, x.2.exit b = some (x.1.heap r).omsOrderId) ∧
    (x.2.placed r).any (fun req => !MarketSent req (x.1.heap r)) = true

/-- What keeps a retired bracket covered: its exit is not refused, cancelled, left without
an answer or closed by the broker, it had come to none of this but a refusal or a
cancellation when the monitor looked, and no exit is changed in its quantity. -/
def ExitStep (cfg : Settings) (x : World × StopWatch) : Effect → Prop
  | .refused r _ | .exhausted r | .cancelled r _ | .unanswered r _ | .reconciling r =>
    ¬ Behind x r
  | .resolved r args lookups =>
    Behind x r → stands (OmniOrder.resolvedState
      (reconcile cfg.fromisoformat cfg.obs args lookups x.1.now) (x.1.heap r).state) = true
  | .remote r _ target => Behind x r → target ∈ [OMSOrderState.filled, .partialFill]
  | .modified r changes =>
    (x.2.placed r).any (fun req => decide (req.source ∈ monitorSources)) = true →
      changes.quantity.getD (x.1.heap r).quantity = (x.1.heap r).quantity
  | .exited _ _ oid =>
    ∀ r < x.1.nextRef, (x.1.heap r).omsOrderId = oid →
      (x.2.placed r).any (fun req => !MarketSent req (x.1.heap r)) = true →
        (x.1.heap r).state ∉ [OMSOrderState.unknown, .reconciling, .ambiguous, .expired]
  | _ => True

instance (x : World × StopWatch) (r : Ref) : Decidable (Behind x r) :=
  inferInstanceAs (Decidable (_ ∧ _))

instance (cfg : Settings) (x : World × StopWatch) (e : Effect) : Decidable (ExitStep cfg x e) := by
  apply Effect.casesOn (motive := fun e => Decidable (ExitStep cfg x e)) e <;> intros <;>
    (dsimp only [ExitStep]; infer_instance)

section Text

variable {cfg : Settings} {x y z : World × StopWatch} {e : Effect} {α β : Type}

def BracketRefs (w : World) : Prop := ∀ p ∈ w.brackets, p.2 < w.nextBracket

structure SameExit (b b' : BracketOrder) : Prop where
  userId : b'.userId = b.userId
  broker : b'.broker = b.broker
  symbol : b'.symbol = b.symbol
  side : b'.side = b.side
  quantity : b'.quantity = b.quantity

theorem SameExit.refl (b : BracketOrder) : SameExit b b := ⟨rfl, rfl, rfl, rfl, rfl⟩

theorem sameExit_setLeg (leg : Leg) (oid : OrderId) (b : BracketOrder) :
    SameExit b (b.setLeg leg oid) := by
  cases leg <;> exact ⟨rfl, rfl, rfl, rfl, rfl⟩

theorem ExitOf.congr {b b' : BracketOrder} {req : ExecutionRequest} (h : ExitOf b req)
    (hs : SameExit b b') : ExitOf b' req where
  userId := h.userId.trans hs.userId.symm
  broker := h.broker.trans hs.broker.symm
  symbol := h.symbol.trans hs.symbol.symm
  side := by rw [hs.side, h.side]
  quantity := h.quantity.trans hs.quantity.symm
  source := h.source

structure Later (x y : World × StopWatch) : Prop where
  refs : x.1.nextRef ≤ y.1.nextRef
  same : ∀ r < x.1.nextRef,
    (y.1.heap r).omsOrderId = (x.1.heap r).omsOrderId ∧ y.2.placed r = x.2.placed r
  brackets : x.1.nextBracket ≤ y.1.nextBracket
  fixed : ∀ b < x.1.nextBracket, SameExit (x.1.bracketHeap b) (y.1.bracketHeap b)
  bound : BracketRefs x.1 → BracketRefs y.1

theorem Later.refl (x : World × StopWatch) : Later x x :=
  ⟨le_rfl, fun _ _ => ⟨rfl, rfl⟩, le_rfl, fun _ _ => .refl _, id⟩

theorem SameExit.trans {b b' b'' : BracketOrder} (h : SameExit b b') (h' : SameExit b' b'') :
    SameExit b b'' where
  userId := h'.userId.trans h.userId
  broker := h'.broker.trans h.broker
  symbol := h'.symbol.trans h.symbol
  side := h'.side.trans h.side
  quantity := h'.quantity.trans h.quantity

theorem Later.trans (h : Later x y) (h' : Later y z) : Later x z where
  refs := h.refs.trans h'.refs
  same r hr :=
    ⟨(h'.same r (hr.trans_le h.refs)).1.trans (h.same r hr).1,
      (h'.same r (hr.trans_le h.refs)).2.trans (h.same r hr).2⟩
  brackets := h.brackets.trans h'.brackets
  fixed b hb := (h.fixed b hb).trans (h'.fixed b (hb.trans_le h.brackets))
  bound := h'.bound ∘ h.bound

theorem later_modifyBracket (w : World) {g g' : StopWatch} (b : Ref) (f : BracketOrder → BracketOrder)
    (hf : ∀ o, SameExit o (f o)) (hg : g'.placed = g.placed) :
    Later (w, g) (w.modifyBracket b f, g') where
  refs := le_rfl
  same r _ := ⟨rfl, congrFun hg r⟩
  brackets := le_rfl
  fixed q _ := by
    simp only [World.modifyBracket]
    split
    · exact hf _
    · exact .refl _
  bound := id

theorem later_setBracket (w : World) {g g' : StopWatch} (bracket : BracketOrder)
    (hg : g'.placed = g.placed) : Later (w, g) (w.setBracket bracket, g') where
  refs := le_rfl
  same r _ := ⟨rfl, congrFun hg r⟩
  brackets := Nat.le_succ _
  fixed q hq := by
    simp only [World.setBracket, if_neg (Nat.ne_of_lt hq)]
    exact .refl _
  bound h p hp := by
    rcases Dict.mem_set hp with rfl | hp
    · exact Nat.lt_succ_self _
    · exact (h p hp).trans (Nat.lt_succ_self _)

theorem later_of_ids {w w' : World} {g g' : StopWatch} (hrefs : w'.nextRef = w.nextRef)
    (hids : ∀ r, (w'.heap r).omsOrderId = (w.heap r).omsOrderId)
    (hheap : w'.bracketHeap = w.bracketHeap) (hnext : w'.nextBracket = w.nextBracket)
    (hbrackets : w'.brackets = w.brackets) (hg : g'.placed = g.placed) :
    Later (w, g) (w', g') where
  refs := hrefs.ge
  same r _ := ⟨hids r, congrFun hg r⟩
  brackets := hnext.ge
  fixed b _ := by
    simp only [hheap]
    exact .refl _
  bound h p hp := by
    simp only [hbrackets, hnext] at hp ⊢
    exact h p hp

theorem later_addOrder (w : World) {g g' : StopWatch} (o : OmniOrder)
    (hg : ∀ r < w.nextRef, g'.placed r = g.placed r) : Later (w, g) (w.addOrder cfg o, g') := by
  obtain ⟨os, heq, -⟩ := World.addOrder_eq cfg w o
  rw [heq]
  refine ⟨Nat.le_succ _, fun r hr => ⟨?_, hg r hr⟩, le_rfl, fun _ _ => .refl _, id⟩
  simp only [if_neg (Nat.ne_of_lt hr)]

variable (cfg x) in
theorem later_apply (hc : e ≠ .crash) : Later x (track (World.apply cfg) noteStop e x) := by
  obtain ⟨w, g⟩ := x
  cases ho : e.onOrder cfg w with
  | some rf =>
    obtain ⟨r, f⟩ := rf
    obtain ⟨worker, probing, heq⟩ := apply_onOrder ho
    have hg : (noteStop w e g).placed = g.placed := by
      cases e with
      | cancelled q via => cases via <;> rfl
      | answered q res =>
        simp only [noteStop]
        split <;> rfl
      | _ => first | rfl | cases ho
    refine later_of_ids ?_ ?_ ?_ ?_ ?_ hg <;> simp only [heq]
    · rfl
    · exact World.modify_id fun o => (onOrder_keeps ho o).1
    · rfl
    · rfl
    · rfl
  | none =>
    cases e with
    | create req mr exitOf =>
      refine Later.trans (y := ({ w with nextOid := w.nextOid + 1 }, g))
        (later_of_ids rfl (fun _ => rfl) rfl rfl rfl rfl) (later_addOrder _ _ fun r hr => ?_)
      exact Function.update_of_ne (Nat.ne_of_lt hr) _ _
    | loaded row => exact later_addOrder w _ fun _ _ => rfl
    | bracketed bracket =>
      exact Later.trans (y := ({ w with nextOid := w.nextOid + 1 }, g))
        (later_of_ids rfl (fun _ => rfl) rfl rfl rfl rfl) (later_setBracket _ _ rfl)
    | recoveredBracket bracket => exact later_setBracket w _ rfl
    | entryFilled b =>
      exact later_modifyBracket w b (fun o => { o with entryFilled := true })
        (fun _ => ⟨rfl, rfl, rfl, rfl, rfl⟩) rfl
    | legPlaced b leg oid =>
      exact later_modifyBracket w b (BracketOrder.setLeg leg oid) (sameExit_setLeg leg oid) rfl
    | exited b leg oid =>
      exact later_modifyBracket w b (fun o => { o.setLeg leg oid with active := false })
        (fun o => by cases leg <;> exact ⟨rfl, rfl, rfl, rfl, rfl⟩) rfl
    | deactivated b =>
      exact later_modifyBracket w b (fun o => { o with active := false })
        (fun _ => ⟨rfl, rfl, rfl, rfl, rfl⟩) rfl
    | crash => exact absurd rfl hc
    | cancelled q via => cases via <;> cases ho
    | _ =>
      first
      | cases ho; done
      | exact later_of_ids rfl (fun _ => rfl) rfl rfl rfl rfl

def Retires (x : World × StopWatch) : Effect → Prop
  | .exited b _ oid =>
    b < x.1.nextBracket ∧ ∃ r < x.1.nextRef, (x.1.heap r).omsOrderId = oid ∧
      (x.1.heap r).state ∉ refusedStates ∧
      ∃ req, x.2.placed r = some req ∧ ExitOf (x.1.bracketHeap b) req
  | .crash => False
  | _ => True

def Ordinary (e : Effect) : Prop := e ≠ .crash ∧ ∀ b leg oid, e ≠ .exited b leg oid

theorem ordinary : (onlyJudgement (fun _ => True) Ordinary).Rules :=
  only_rules (fun _ _ => trivial) fun _ hc hx => ⟨hc, hx⟩

theorem retires_of_ordinary (h : Ordinary e) : Retires x e := by
  cases e with
  | crash => exact absurd rfl h.1
  | exited b leg oid => exact absurd rfl (h.2 b leg oid)
  | _ => trivial

theorem Retires.ne_crash (h : Retires x e) : e ≠ .crash := by
  rintro rfl
  exact h

def monitor : Contract (World × StopWatch) Effect Tag where
  rely _ := Later
  guar _ := Retires
  idle _ x := BracketRefs x.1

/-- A part of a round of the monitor that is run from `x` meets the contract. -/
abbrev Minds (cfg : Settings) (post : α → World × StopWatch → Prop) (p : M α) (x : World × StopWatch) :
    Prop :=
  monitor.Does ((system cfg).withHistory noteStop) .brackets post p.beside x

variable {p : M α} {f : α → M β} {post : α → World × StopWatch → Prop}
  {after : β → World × StopWatch → Prop}

theorem Minds.bind (hp : Minds cfg post p x) (hf : ∀ a y, post a y → Minds cfg after (f a) y) :
    Minds cfg after (p >>= f) x := by
  unfold Minds
  rw [Proc.beside_bind]
  exact Contract.Does.bind hp hf

theorem Minds.of_look {f : World → M β} (h : Minds cfg after (f x.1) x) :
    Minds cfg after (look >>= f) x := h

theorem Minds.of_emit {f : Unit → M β} (he : Retires x e)
    (h : Minds cfg after (f ()) (track (World.apply cfg) noteStop e x)) :
    Minds cfg after (emit e >>= f) x :=
  ⟨he, h⟩

theorem Minds.of_wait {i : Point} {f : Reply i → M β}
    (h : ∀ r y, Later x y → Minds cfg after (f r) y) : Minds cfg after (wait i >>= f) x :=
  fun y hy r _ => h r y hy

theorem minds_of_only (h : p.Only (fun _ => True) Ordinary) :
    Minds cfg (fun _ y => Later x y) p x :=
  h.beside.moves Later.refl (fun _ _ _ => Later.trans)
    (fun _ _ he => ⟨retires_of_ordinary he, later_apply _ _ he.1⟩) (fun _ _ h => h) x

theorem minds_saveOrder (r : Ref) : Minds cfg (fun _ y => Later x y) (saveOrder r) x :=
  minds_of_only (ordinary.save r)

def PlacedAs (req : ExecutionRequest) (r : Ref) (x : World × StopWatch) : Prop :=
  r < x.1.nextRef ∧ x.2.placed r = some req

theorem PlacedAs.later {req : ExecutionRequest} {r : Ref} (h : PlacedAs req r x)
    (hl : Later x y) : PlacedAs req r y :=
  ⟨h.1.trans_le hl.refs, (hl.same r h.1).2.trans h.2⟩

theorem minds_placeOrder (req : ExecutionRequest) (maxRetries : Option ℤ)
    (exitOf : Option OrderId) :
    Minds cfg (fun r y => Later x y ∧ PlacedAs req r y) (placeOrder req maxRetries exitOf) x := by
  refine .of_look (.of_emit trivial ?_)
  have hcreate : Later x (track (World.apply cfg) noteStop (.create req maxRetries exitOf) x) :=
    later_apply _ _ (by rintro ⟨⟩)
  have hplaced : PlacedAs req x.1.nextRef
      (track (World.apply cfg) noteStop (.create req maxRetries exitOf) x) := by
    obtain ⟨os, heq, -⟩ := World.addOrder_eq cfg { x.1 with nextOid := x.1.nextOid + 1 }
      (newOrder cfg.sha256 x.1.nextOid req maxRetries)
    refine ⟨?_, Function.update_self _ _ _⟩
    simp only [track, World.apply, heq]
    exact Nat.lt_succ_self _
  refine Minds.bind (minds_saveOrder _) fun _ y hy => .of_emit trivial ?_
  have hqueued : Later y (track (World.apply cfg) noteStop (.queued x.1.nextRef) y) :=
    later_apply _ _ (by rintro ⟨⟩)
  refine Minds.bind (minds_saveOrder _) fun _ z hz => ?_
  refine Minds.bind (minds_of_only (fine_enqueue ordinary _)) fun _ t ht => ?_
  have hlater := (hy.trans hqueued).trans (hz.trans ht)
  exact ⟨hcreate.trans hlater, hplaced.later hlater⟩

theorem minds_finishExit {b r : Ref} {leg : Leg} {req : ExecutionRequest}
    (hb : b < x.1.nextBracket) (hr : PlacedAs req r x) (hexit : ExitOf (x.1.bracketHeap b) req) :
    Minds cfg (fun _ y => Later x y) (finishExit b leg r) x := by
  refine .of_look ?_
  split
  · exact Later.refl x
  · next hstate =>
    have hretires : Retires x (.exited b leg (x.1.heap r).omsOrderId) :=
      ⟨hb, r, hr.1, rfl, hstate, req, hr.2, hexit⟩
    refine .of_emit hretires ((minds_of_only (fine_saveBracketOrder ordinary b)).mono fun _ y hy => ?_)
    exact (later_apply _ _ hretires.ne_crash).trans hy

theorem exitOf_exitRequest (bracket : BracketOrder) (leg : Leg) (last : ℚ) :
    ExitOf bracket (exitRequest bracket leg last) := by
  cases leg <;> exact ⟨rfl, rfl, rfl, rfl, rfl, by simp [exitRequest, monitorSources]⟩

theorem minds_placeExit {b : Ref} (leg : Leg) (last : ℚ) (hb : b < x.1.nextBracket) :
    Minds cfg (fun _ y => Later x y) (placeExit b leg last) x := by
  refine .of_look (Minds.bind (minds_placeOrder _ _ _) fun r y hy => .of_look ?_)
  have hexit := (exitOf_exitRequest (x.1.bracketHeap b) leg last).congr (hy.1.fixed b hb)
  have hby := hb.trans_le hy.1.brackets
  split
  · refine Minds.bind (minds_placeOrder _ _ _) fun q z hz => ?_
    have hmarket : ExitOf (y.1.bracketHeap b) { exitRequest (x.1.bracketHeap b) leg last with
        orderType := "MARKET", price := 0, triggerPrice := none } :=
      ⟨hexit.userId, hexit.broker, hexit.symbol, hexit.side, hexit.quantity, hexit.source⟩
    have hfixed := hmarket.congr (hz.1.fixed b hby)
    exact (minds_finishExit (hby.trans_le hz.1.brackets) hz.2 hfixed).mono fun _ t ht =>
      (hy.1.trans hz.1).trans ht
  · exact (minds_finishExit hby hy.2 hexit).mono fun _ z hz => hy.1.trans hz

theorem minds_forEach {γ : Type} {g : γ → M Unit} (xs : List γ)
    (h : ∀ c ∈ xs, ∀ y, Later x y → Minds cfg (fun _ z => Later y z) (g c) y) :
    Minds cfg (fun _ y => Later x y) (forEach xs g) x := by
  have hall : ∀ (cs : List γ), cs ⊆ xs → ∀ y, Later x y →
      Minds cfg (fun _ z => Later x z) (forEach cs g) y := by
    intro cs
    induction cs with
    | nil => exact fun _ y hy => hy
    | cons c cs ih =>
      intro hcs y hy
      refine Minds.bind (h c (hcs List.mem_cons_self) y hy) fun _ z hz => ?_
      exact ih (fun d hd => hcs (List.mem_cons_of_mem _ hd)) z (hy.trans hz)
  exact hall xs (fun _ h => h) x (Later.refl x)

theorem minds_evaluateBracket {b : Ref} (quotes : Ref → Option ℚ) (hb : b < x.1.nextBracket) :
    Minds cfg (fun _ y => Later x y) (evaluateBracket quotes b) x := by
  refine .of_look ?_
  split
  · exact Later.refl x
  · split
    · exact Later.refl x
    · exact minds_placeExit _ _ hb

theorem minds_evaluateBrackets (hrefs : BracketRefs x.1) :
    Minds cfg (fun _ y => Later x y) evaluateBrackets x := by
  refine .of_look (Minds.bind (minds_forEach _ fun b _ y _ => ?_) fun _ y hy => ?_)
  · refine .of_look ?_
    split
    · refine .of_emit trivial ((minds_of_only (fine_saveBracketOrder ordinary b)).mono fun _ z hz => ?_)
      exact (later_apply _ _ (by rintro ⟨⟩)).trans hz
    · exact Later.refl y
  · split
    · exact hy
    · refine .of_wait fun quotes z hz => ?_
      refine (minds_forEach _ fun b hb t ht => ?_).mono fun _ t ht => (hy.trans hz).trans ht
      obtain ⟨p, hp, rfl⟩ := List.mem_map.mp (List.mem_filter.mp hb).1
      exact minds_evaluateBracket quotes
        (((hrefs p hp).trans_le (hy.trans hz).brackets).trans_le ht.brackets)

end Text

section Run

variable {cfg : Settings} {w : World} {g : StopWatch} {x : World × StopWatch} {e : Effect} {b r : Ref}
  {req : ExecutionRequest} {f : OmniOrder → OmniOrder}

theorem monitor_sound (cfg : Settings) : monitor.Sound ((system cfg).withHistory noteStop) where
  trans _ _ _ _ := Later.trans
  refl _ := Later.refl
  idle _ _ _ h := h.bound
  others _ _ _ _ _ h := later_apply _ _ h.ne_crash
  env _ x e h := by
    refine later_apply _ _ ?_
    rintro rfl
    cases h
  code c x hx := by
    have hdone : ∀ {p : M Unit}, Minds cfg (fun _ y => Later x y) p x →
        Minds cfg (fun _ y => BracketRefs y.1) p x :=
      fun h => h.mono fun _ y hy => hy.bound hx
    have hask : ∀ id, (wait (.cancelOrder id)).Only (fun _ => True) Ordinary :=
      fun _ => .wait trivial
    have hbody : Minds cfg (fun _ y => BracketRefs y.1) (c.code cfg) x := by
      refine Minds.of_look ?_
      split
      · by_cases hc : c = .evaluateBrackets
        · subst hc
          exact hdone (minds_evaluateBrackets hx)
        · exact hdone (minds_of_only (fine_body ordinary hask cfg c hc))
      · exact hx
    exact hbody

theorem retires_of_life {es : List Effect} {P : Pool World Effect Reply Tag}
    (h : Life cfg es P) :
    Legal (track (World.apply cfg) noteStop) (fun x e => Retires x e ∨ e = .crash)
      (initial.state, {}) es := by
  have hholds : monitor.Holds ((system cfg).withHistory noteStop) (initial.beside {}) := by
    refine ⟨?_, ?_, .nil, fun a _ p hp => absurd hp List.not_mem_nil⟩
    · exact fun t ht => absurd ht List.not_mem_nil
    · exact fun t ht => absurd ht List.not_mem_nil
  obtain ⟨hlegal, -, -⟩ := Contract.Life.legal (monitor_sound cfg)
    (fun _ _ _ _ _ p hp => absurd hp List.not_mem_nil) (a := .api) rfl hholds
    (System.Life.beside noteStop h {})
  refine hlegal.mono fun x e he => ?_
  rcases he with (⟨_, hret⟩ | henv) | hc
  · exact .inl hret
  · left
    cases e with
    | elapse | stored => trivial
    | _ => cases henv
  · exact .inr hc

theorem left_step (hc : ExitStep cfg (w, g) e) (hcrash : e ≠ .crash) (hr : r < w.nextRef)
    (hreq : g.placed r = some req) (hsrc : req.source ∈ monitorSources) :
    ((World.apply cfg e w).heap r).quantity + (noteStop w e g).sold r =
      (w.heap r).quantity + g.sold r := by
  cases ho : e.onOrder cfg w with
  | some qf =>
    obtain ⟨q, f⟩ := qf
    obtain ⟨worker, probing, heq⟩ := apply_onOrder ho
    rw [heq]
    by_cases hqr : r = q
    · subst hqr
      simp only [World.modify_heap_self]
      cases e with
      | cancelled p via => cases via <;> cases ho <;> rfl
      | answered p res =>
        cases ho
        simp only [noteStop, OmniOrder.answered]
        split
        · simp only [Function.update_self, OmniOrder.remaining]
          omega
        · rfl
      | modified p changes =>
        cases ho
        have hsame : changes.quantity.getD (w.heap r).quantity = (w.heap r).quantity :=
          hc (by simpa [hreq] using hsrc)
        simp only [OmniOrder.modify, hsame]
        rfl
      | resolved p args lookups =>
        cases ho
        rw [resolve_quantity]
        rfl
      | _ => cases ho <;> rfl
    · rw [show ({ w.modify q f with worker := worker, probing := probing } : World).heap r =
        w.heap r from w.modify_heap_ne f hqr]
      cases e with
      | answered p res =>
        cases ho
        simp only [noteStop]
        split
        · simp only [Function.update_of_ne hqr]
        · rfl
      | _ => first | rfl | cases ho
  | none =>
    cases e with
    | create req' mr x =>
      obtain ⟨os, heq, -⟩ := World.addOrder_eq cfg { w with nextOid := w.nextOid + 1 }
        (newOrder cfg.sha256 w.nextOid req' mr)
      simp only [World.apply, heq, noteStop, if_neg (Nat.ne_of_lt hr),
        Function.update_of_ne (Nat.ne_of_lt hr)]
    | loaded row =>
      obtain ⟨os, heq, -⟩ := World.addOrder_eq cfg w row
      simp only [World.apply, heq, noteStop, if_neg (Nat.ne_of_lt hr)]
    | crash => exact absurd rfl hcrash
    | cancelled q via => cases via <;> cases ho
    | _ => first | rfl | cases ho

theorem stands_onOrder (ho : e.onOrder cfg w = some (r, f)) (hc : ExitStep cfg (w, g) e)
    (hb : Behind (w, g) r) (h : stands (w.heap r).state = true) :
    stands (f (w.heap r)).state = true := by
  cases e with
  | cancelled q via => cases via <;> cases ho <;> exact absurd hb hc
  | refused q | exhausted q | unanswered q | reconciling q =>
    cases ho
    exact absurd hb hc
  | queued q | retried q | markSent q | requeued q =>
    cases ho
    rfl
  | note q | modified q | related q | countRetry q =>
    cases ho
    exact h
  | answered q res =>
    cases ho
    simp only [OmniOrder.answered]
    cases res.state with
    | partiallyFilled => by_cases hleft : 0 < (w.heap r).remaining res <;> simp [hleft, stands,
        StateMachine.isActive]
    | _ => rfl
  | resolved q args lookups =>
    cases ho
    rw [OmniOrder.resolve_state]
    exact hc hb
  | remote q entry target =>
    cases ho
    have htarget : target ∈ [OMSOrderState.filled, .partialFill] := hc hb
    simp only [List.mem_cons, List.not_mem_nil, or_false] at htarget
    rcases htarget with rfl | rfl <;> rfl
  | _ => cases ho

def Backs (x : World × StopWatch) (b r : Ref) (req : ExecutionRequest) : Prop :=
  x.2.placed r = some req ∧ ExitOf (x.1.bracketHeap b) req ∧
    (MarketSent req (x.1.heap r) = true ∨ stands (x.1.heap r).state = true)

def Stood (x : World × StopWatch) (b : Ref) : Prop :=
  match x.2.exit b with
  | none =>
    (x.1.bracketHeap b).active = true ∧ hasLeg (x.1.bracketHeap b) = false ∨ x.2.aside b = true
  | some oid => ∃ r < x.1.nextRef, (x.1.heap r).omsOrderId = oid ∧ ∃ req, Backs x b r req

structure Watched (x : World × StopWatch) : Prop where
  fresh : ∀ r, x.1.nextRef ≤ r → x.2.placed r = none
  late : ∀ b, x.1.nextBracket ≤ b → x.2.exit b = none
  left : ∀ r < x.1.nextRef, ∀ req, x.2.placed r = some req → req.source ∈ monitorSources →
    (x.1.heap r).quantity + x.2.sold r = req.quantity
  stood : ∀ b < x.1.nextBracket, Stood x b

theorem Watched.protected (h : Watched x) (hb : b < x.1.nextBracket) : Protected x b := by
  have hstood := h.stood b hb
  unfold Stood at hstood
  unfold Protected
  cases hexit : x.2.exit b with
  | none =>
    rw [hexit] at hstood
    exact hstood
  | some oid =>
    rw [hexit] at hstood
    obtain ⟨r, hr, hid, req, hreq, hof, hrest⟩ := hstood
    refine ⟨r, hr, hid, req, hreq, hof, hrest.imp_right fun hst => ⟨hst, ?_⟩⟩
    exact (h.left r hr req hreq hof.source).trans hof.quantity

theorem backs_step (hs : Step cfg w e) (hc : ExitStep cfg (w, g) e) (hcrash : e ≠ .crash)
    (hb : b < w.nextBracket) (hr : r < w.nextRef) (hexit : g.exit b = some (w.heap r).omsOrderId)
    (h : Backs (w, g) b r req) :
    Backs (track (World.apply cfg) noteStop e (w, g)) b r req := by
  obtain ⟨hreq, hof, hrest⟩ := h
  have hlater := later_apply cfg (w, g) hcrash
  refine ⟨(hlater.same r hr).2.trans hreq, hof.congr (hlater.fixed b hb), ?_⟩
  simp only [track]
  rcases object_cases hs (hr.trans_le hlater.refs) with ⟨-, heq⟩ | ⟨f, -, ho, heq⟩ | ⟨o, hnew, -⟩
  · rw [heq]
    exact hrest
  · rw [heq]
    by_cases hsent : MarketSent req (w.heap r) = true
    · left
      simp only [MarketSent, Bool.and_eq_true] at hsent ⊢
      exact ⟨hsent.1, (onOrder_keeps ho _).2 hsent.2⟩
    · right
      refine stands_onOrder ho hc ⟨⟨b, hb, hexit⟩, ?_⟩ (hrest.resolve_left hsent)
      have hreq : g.placed r = some req := hreq
      simpa [hreq] using hsent
  · exact absurd hnew hr.ne

theorem backs_exited {leg : Leg} {oid : OrderId} (hret : Retires (w, g) (.exited b leg oid))
    (hc : ExitStep cfg (w, g) (.exited b leg oid)) :
    ∃ r < w.nextRef, (w.heap r).omsOrderId = oid ∧ ∃ req, Backs (w, g) b r req := by
  obtain ⟨-, r, hr, hid, hstate, req, hreq, hof⟩ := hret
  refine ⟨r, hr, hid, req, hreq, hof, ?_⟩
  by_cases hsent : MarketSent req (w.heap r) = true
  · exact .inl hsent
  · right
    have hreq : g.placed r = some req := hreq
    have hknown := hc r hr hid (by simpa [hreq] using hsent)
    simp only at hstate hknown
    revert hstate hknown
    cases (w.heap r).state <;> decide

def ExitIdle (x : World × StopWatch) (b : Ref) : Prop :=
  (x.1.bracketHeap b).active = true ∧ hasLeg (x.1.bracketHeap b) = false ∨ x.2.aside b = true

theorem exit_step (hcrash : e ≠ .crash) :
    (noteStop w e g).exit b = g.exit b ∨ ∃ leg oid, e = .exited b leg oid := by
  cases e with
  | exited q leg oid =>
    by_cases hq : b = q
    · subst hq
      exact .inr ⟨leg, oid, rfl⟩
    · exact .inl (Function.update_of_ne hq _ _)
  | answered q res =>
    left
    simp only [noteStop]
    split <;> rfl
  | crash => exact absurd rfl hcrash
  | _ => exact .inl rfl

theorem exitIdle_rebind (v : World) (bracket : BracketOrder) (hnext : v.nextBracket = w.nextBracket)
    (hheap : v.bracketHeap = w.bracketHeap) (hb : b < w.nextBracket + 1)
    (h : b < w.nextBracket → ExitIdle (w, g) b) :
    ExitIdle (v.setBracket bracket, g.rebind w bracket) b := by
  unfold ExitIdle World.setBracket StopWatch.rebind
  simp only [hnext, hheap]
  rcases Nat.lt_succ_iff_lt_or_eq.mp hb with hlt | rfl
  · simp only [if_neg (Nat.ne_of_lt hlt)]
    exact (h hlt).imp_right fun ha => by simp [show g.aside b = true from ha]
  · simp only [if_true]
    cases bracket.active <;> cases hasLeg bracket <;> simp

theorem exitIdle_put {f : BracketOrder → BracketOrder} (b : Ref) (q : Ref)
    (h : ExitIdle (w, g) b) : ExitIdle (w.modifyBracket q f, g.put q) b := by
  unfold ExitIdle World.modifyBracket StopWatch.put
  simp only
  by_cases hq : b = q
  · subst hq
    exact .inr (Function.update_self _ _ _)
  · rw [if_neg hq, Function.update_of_ne hq]
    exact h

theorem exitIdle_step (hcrash : e ≠ .crash) (hne : ∀ leg oid, e ≠ .exited b leg oid)
    (hb : b < (World.apply cfg e w).nextBracket) (h : b < w.nextBracket → ExitIdle (w, g) b) :
    ExitIdle (track (World.apply cfg) noteStop e (w, g)) b := by
  cases e with
  | exited q leg oid =>
    have hq : b ≠ q := by
      rintro rfl
      exact hne leg oid rfl
    have hold := h hb
    unfold ExitIdle at hold ⊢
    simp only [track, World.apply, World.modifyBracket, noteStop, if_neg hq]
    exact hold
  | deactivated q => exact exitIdle_put (f := fun o => { o with active := false }) b q (h hb)
  | legPlaced q leg oid => exact exitIdle_put b q (h hb)
  | entryFilled q =>
    have hold := h hb
    unfold ExitIdle at hold ⊢
    simp only [track, World.apply, World.modifyBracket, noteStop]
    split <;> exact hold
  | bracketed bracket =>
    exact exitIdle_rebind { w with nextOid := w.nextOid + 1 } { bracket with omsOrderId := w.nextOid }
      rfl rfl hb h
  | recoveredBracket bracket => exact exitIdle_rebind w bracket rfl rfl hb h
  | crash => exact absurd rfl hcrash
  | create req mr exitOf =>
    obtain ⟨os, heq, -⟩ := World.addOrder_eq cfg { w with nextOid := w.nextOid + 1 }
      (newOrder cfg.sha256 w.nextOid req mr)
    simp only [track, World.apply, heq] at hb ⊢
    exact h hb
  | loaded row =>
    obtain ⟨os, heq, -⟩ := World.addOrder_eq cfg w row
    simp only [track, World.apply, heq] at hb ⊢
    exact h hb
  | answered q res =>
    have hold := h hb
    unfold ExitIdle at hold ⊢
    simp only [track, noteStop]
    split <;> exact hold
  | cancelled q via => cases via <;> exact h hb
  | _ => exact h hb

theorem stood_step (hs : Step cfg w e) (hret : Retires (w, g) e) (hc : ExitStep cfg (w, g) e)
    (hx : Watched (w, g)) (hb : b < (World.apply cfg e w).nextBracket) :
    Stood (track (World.apply cfg) noteStop e (w, g)) b := by
  have hlater := later_apply cfg (w, g) hret.ne_crash
  unfold Stood
  simp only [track]
  rcases exit_step (w := w) (g := g) (b := b) hret.ne_crash with hexit | ⟨leg, oid, rfl⟩
  · rw [hexit]
    cases hold : g.exit b with
    | none =>
      have hne : ∀ leg oid, e ≠ .exited b leg oid := by
        rintro leg oid rfl
        simp [noteStop, hold] at hexit
      refine exitIdle_step hret.ne_crash hne hb fun hlt => ?_
      have hstood := hx.stood b hlt
      unfold Stood at hstood
      simp only [hold] at hstood
      exact hstood
    | some oid =>
      have hlt : b < w.nextBracket := by
        by_contra hge
        rw [hx.late b (Nat.le_of_not_lt hge)] at hold
        cases hold
      have hstood := hx.stood b hlt
      unfold Stood at hstood
      simp only [hold] at hstood
      obtain ⟨r, hr, rfl, req, hbacks⟩ := hstood
      exact ⟨r, hr.trans_le hlater.refs, (hlater.same r hr).1, req,
        backs_step hs hc hret.ne_crash hlt hr hold hbacks⟩
  · have hexit : (noteStop w (.exited b leg oid) g).exit b = some oid :=
      Function.update_self _ _ _
    rw [hexit]
    obtain ⟨r, hr, hid, req, hreq, hof, hrest⟩ := backs_exited hret hc
    exact ⟨r, hr, hid, req, hreq, hof.congr (hlater.fixed b hret.1), hrest⟩

theorem placed_step (hcrash : e ≠ .crash) :
    (noteStop w e g).placed r = g.placed r ∨
      r = w.nextRef ∧ ∃ req mr exitOf, e = .create req mr exitOf := by
  cases e with
  | create req mr exitOf =>
    by_cases hr : r = w.nextRef
    · exact .inr ⟨hr, req, mr, exitOf, rfl⟩
    · exact .inl (Function.update_of_ne hr _ _)
  | answered q res =>
    left
    simp only [noteStop]
    split <;> rfl
  | crash => exact absurd rfl hcrash
  | _ => exact .inl rfl

variable (cfg w g) in
theorem left_create (req : ExecutionRequest) (mr : Option ℤ) (exitOf : Option OrderId) :
    (noteStop w (.create req mr exitOf) g).placed w.nextRef = some req ∧
      ((World.apply cfg (.create req mr exitOf) w).heap w.nextRef).quantity +
        (noteStop w (.create req mr exitOf) g).sold w.nextRef = req.quantity := by
  refine ⟨Function.update_self _ _ _, ?_⟩
  rw [create_object]
  simp [noteStop, newOrder]

theorem watched_step (hs : Step cfg w e) (hret : Retires (w, g) e ∨ e = .crash)
    (hc : ExitStep cfg (w, g) e) (hx : Watched (w, g)) :
    Watched (track (World.apply cfg) noteStop e (w, g)) := by
  rcases hret with hret | rfl
  · have hlater := later_apply cfg (w, g) hret.ne_crash
    refine ⟨fun r hr => ?_, fun b hb => ?_, fun r hr req hreq hsrc => ?_,
      fun b hb => stood_step hs hret hc hx hb⟩
    · rcases placed_step (w := w) (g := g) (r := r) hret.ne_crash with heq | ⟨rfl, req, mr, x, rfl⟩
      · exact heq.trans (hx.fresh r (hlater.refs.trans hr))
      · obtain ⟨os, heq, -⟩ := World.addOrder_eq cfg { w with nextOid := w.nextOid + 1 }
          (newOrder cfg.sha256 w.nextOid req mr)
        simp only [track, World.apply, heq] at hr
        exact absurd hr (Nat.not_succ_le_self _)
    · rcases exit_step (w := w) (g := g) (b := b) hret.ne_crash with heq | ⟨leg, oid, rfl⟩
      · exact heq.trans (hx.late b (hlater.brackets.trans hb))
      · exact absurd (hret.1.trans_le hlater.brackets) (Nat.not_lt.mpr hb)
    · by_cases hlt : r < w.nextRef
      · have hold : g.placed r = some req := (hlater.same r hlt).2.symm.trans hreq
        exact (left_step hc hret.ne_crash hlt hold hsrc).trans (hx.left r hlt req hold hsrc)
      · rcases placed_step (w := w) (g := g) (r := r) hret.ne_crash with
          heq | ⟨rfl, req', mr, exitOf, rfl⟩
        · have hnone : g.placed r = some req := heq.symm.trans hreq
          rw [show g.placed r = none from hx.fresh r (Nat.le_of_not_lt hlt)] at hnone
          cases hnone
        · obtain ⟨hplaced, hleft⟩ := left_create cfg w g req' mr exitOf
          cases hplaced.symm.trans hreq
          exact hleft
  · exact ⟨fun _ _ => rfl, fun _ _ => rfl, fun r hr => absurd hr (Nat.not_lt_zero r),
      fun b hb => absurd hb (Nat.not_lt_zero b)⟩

/-- In a run that meets the condition at each step every bracket is protected in every
state: it is looked at with the next price, was set aside for another reason, or has a
market order out or an exit that stands for all that is left. -/
theorem brackets_protected {es : List Effect} {P : Pool World Effect Reply Tag}
    (h : Life cfg es P)
    (hc : Legal (track (World.apply cfg) noteStop) (ExitStep cfg) (initial.state, {}) es) :
    Always (track (World.apply cfg) noteStop) (fun x => ∀ b < x.1.nextBracket, Protected x b)
      (initial.state, {}) es := by
  have hsteps := ((legal_of_life h).1.track noteStop {}).and ((retires_of_life h).and hc)
  have hinit : Watched (initial.state, {}) :=
    ⟨fun _ _ => rfl, fun _ _ => rfl, fun r hr => absurd hr (Nat.not_lt_zero r),
      fun b hb => absurd hb (Nat.not_lt_zero b)⟩
  refine (hsteps.always (I := Watched) ?_ hinit).mono fun x hx b hb => hx.protected hb
  rintro ⟨w, g⟩ e hx ⟨hs, hret, hstep⟩
  exact watched_step hs.2 hret hstep hx

def stoppedTen (exit : ExecutionResult) (k : ℕ) : List Act :=
  alone .start 6 {} ++ alone (.placeOrder buyTen none) 6 {} ++
    alone .processQueue 11 { placed := some filledTen } ++
    alone .evaluateBrackets 9 { quote := fun _ => some 80 } ++
    alone .processQueue k { placed := some exit }

theorem brackets_protected_filled :
    ∃ es P, Life bare es P ∧ (P.state.bracketHeap 0).slOrderId = some 2 ∧
      (P.state.heap 1).state = .filled ∧
      Always (track (World.apply bare) noteStop)
        (fun x => ∀ b < x.1.nextBracket, Protected x b) (initial.state, {}) es := by
  obtain ⟨es, P, hrun, hexit, hfilled, hc⟩ := (system bare).exists_run initial
    (stoppedTen { filledTen with brokerOrderId := "b2", avgPrice := 80 } 9)
    (p := fun es P => (P.state.bracketHeap 0).slOrderId = some 2 ∧
      (P.state.heap 1).state = .filled ∧
      Legal (track (World.apply bare) noteStop) (ExitStep bare) (initial.state, {}) es)
    (by decide +kernel)
  exact ⟨es, P, hrun.life, hexit, hfilled, brackets_protected hrun.life hc⟩

def Abandoned (b : Ref) (x : World × StopWatch) : Prop :=
  (x.2.exit b).any (fun oid => decide (∀ r < x.1.nextRef, (x.1.heap r).omsOrderId = oid →
    stands (x.1.heap r).state = false ∧
      (x.2.placed r).any (fun req => MarketSent req (x.1.heap r)) = false)) = true

instance (b : Ref) (x : World × StopWatch) : Decidable (Abandoned b x) :=
  inferInstanceAs (Decidable (_ = true))

theorem Abandoned.not_protected (h : Abandoned b x) : ¬ Protected x b := by
  obtain ⟨oid, hexit, hlost⟩ := (Option.any_eq_true _ _).mp h
  unfold Protected
  simp only [hexit]
  rintro ⟨r, hr, hid, req, hreq, -, hrest⟩
  obtain ⟨hdown, hunsent⟩ := of_decide_eq_true hlost r hr hid
  rcases hrest with hsent | ⟨hst, -⟩
  · simp [hreq, hsent] at hunsent
  · exact absurd (hst.symm.trans hdown) (by decide)

/-- The exit is refused, or its outcome is not known: the bracket is retired all the same
and no market order follows. -/
theorem brackets_unprotected :
    (∃ es P, Life bare es P ∧ (P.state.heap 1).source = "exit_sl" ∧
      (P.state.heap 1).state = .rejected ∧ (P.state.bracketHeap 0).active = false ∧
      ¬ Protected (replay (track (World.apply bare) noteStop) (initial.state, {}) es) 0) ∧
    ∃ es P, Life bare es P ∧ (P.state.heap 1).source = "exit_sl" ∧
      (P.state.heap 1).state = .unknown ∧ (P.state.bracketHeap 0).active = false ∧
      ¬ Protected (replay (track (World.apply bare) noteStop) (initial.state, {}) es) 0 := by
  constructor
  · obtain ⟨es, P, hrun, hsource, hstate, hactive, hlost⟩ := (system bare).exists_run initial
      (stoppedTen { errorCode := "MARGIN" } 9)
      (p := fun es P => (P.state.heap 1).source = "exit_sl" ∧
        (P.state.heap 1).state = .rejected ∧ (P.state.bracketHeap 0).active = false ∧
        Abandoned 0 (replay (track (World.apply bare) noteStop) (initial.state, {}) es))
      (by decide +kernel)
    exact ⟨es, P, hrun.life, hsource, hstate, hactive, hlost.not_protected⟩
  · obtain ⟨es, P, hrun, hsource, hstate, hactive, hlost⟩ := (system bare).exists_run initial
      (stoppedTen { indeterminate := true } 7)
      (p := fun es P => (P.state.heap 1).source = "exit_sl" ∧
        (P.state.heap 1).state = .unknown ∧ (P.state.bracketHeap 0).active = false ∧
        Abandoned 0 (replay (track (World.apply bare) noteStop) (initial.state, {}) es))
      (by decide +kernel)
    exact ⟨es, P, hrun.life, hsource, hstate, hactive, hlost.not_protected⟩

end Run

end Trademetrix.Oms

import Trademetrix.Async.Pool
import Trademetrix.Oms.Legal
import Trademetrix.Oms.Texts

/-!
# Where the rows of a run come from

Every record that is saved or loaded is one an order object has been at some time.
Beside the run it is noted which objects were made and what each of them has been.
-/

namespace Trademetrix.Oms

open Async

structure Trace where
  made : Ref → Prop := fun _ => False
  seen : OmniOrder → Prop := fun _ => False

def Effect.touches (w : World) : Effect → Option Ref
  | .create _ _ _ | .loaded _ => some w.nextRef
  | e => e.writes

def noteTrace (cfg : Settings) (w : World) (e : Effect) (g : Trace) : Trace where
  made q := e.touches w = some q ∨ e ≠ .crash ∧ g.made q
  seen o := (∃ r, e.touches w = some r ∧ o = (World.apply cfg e w).heap r) ∨ g.seen o

structure Current (x : World × Trace) : Prop where
  objects : ∀ r, x.2.made r → x.2.seen (x.1.heap r)
  rows : ∀ p ∈ x.1.rows, x.2.seen p.2

structure Grows (x y : World × Trace) : Prop where
  made : ∀ r, x.2.made r → y.2.made r
  seen : ∀ o, x.2.seen o → y.2.seen o

theorem Grows.refl (x : World × Trace) : Grows x x := ⟨fun _ => id, fun _ => id⟩

theorem Grows.trans {x y z : World × Trace} (h : Grows x y) (h' : Grows y z) : Grows x z :=
  ⟨fun r hr => h'.made r (h.made r hr), fun o ho => h'.seen o (h.seen o ho)⟩

def Stores (x : World × Trace) : Effect → Prop
  | .upsert row | .loaded row => x.2.seen row
  | .crash => False
  | _ => True

variable {cfg : Settings} {x y : World × Trace} {e : Effect} {r : Ref}

theorem Stores.ne_crash (h : Stores x e) : e ≠ .crash := by
  rintro rfl
  exact h

theorem stores_of_plain (h : Plain e) : Stores x e := by
  cases e <;> trivial

theorem stores_of_writes (h : e.writes = some r) : Stores x e := by
  cases e <;> trivial

theorem onOrder_touches {w : World} {f : OmniOrder → OmniOrder}
    (h : e.onOrder cfg w = some (r, f)) : e.touches w = some r := by
  cases e with
  | cancelled q via => cases via <;> cases h <;> rfl
  | _ => cases h <;> rfl

theorem apply_heap_ne {w : World} {q : Ref} (hc : e ≠ .crash) (h : e.touches w ≠ some q) :
    (World.apply cfg e w).heap q = w.heap q := by
  cases ho : e.onOrder cfg w with
  | some rf =>
    obtain ⟨r, f⟩ := rf
    obtain ⟨worker, probing, heq⟩ := apply_onOrder ho
    have hne : q ≠ r := by
      rintro rfl
      exact h (onOrder_touches ho)
    rw [heq]
    exact w.modify_heap_ne f hne
  | none =>
    cases hn : e.newObject cfg w with
    | none => exact congrFun (apply_heap ho hn hc).1 q
    | some o =>
      have hne : q ≠ w.nextRef := by
        rintro rfl
        cases e <;> first | exact h rfl | cases hn
      obtain ⟨k, -, heq⟩ := apply_newObject hn
      obtain ⟨os, hadd, -⟩ := World.addOrder_eq cfg { w with nextOid := k } o
      rw [heq, hadd]
      exact if_neg hne

theorem apply_rows {w : World} {p : OrderId × OmniOrder}
    (hp : p ∈ (World.apply cfg e w).rows) : p ∈ w.rows ∨ e = .upsert p.2 := by
  cases e with
  | create req mr exitOf =>
    obtain ⟨os, heq, -⟩ := World.addOrder_eq cfg { w with nextOid := w.nextOid + 1 }
      (newOrder cfg.sha256 w.nextOid req mr)
    simp only [World.apply, heq] at hp
    exact .inl hp
  | loaded row =>
    obtain ⟨os, heq, -⟩ := World.addOrder_eq cfg w row
    simp only [World.apply, heq] at hp
    exact .inl hp
  | upsert row =>
    rcases Dict.mem_set hp with rfl | hp
    · exact .inr rfl
    · exact .inl hp
  | delete oid => exact .inl (Dict.mem_pop hp)
  | cancelled r via => cases via <;> exact .inl hp
  | _ => exact .inl hp

theorem grows_apply (hc : e ≠ .crash) : Grows x (track (World.apply cfg) (noteTrace cfg) e x) :=
  ⟨fun _ hr => .inr ⟨hc, hr⟩, fun _ ho => .inr ho⟩

theorem current_apply (h : Stores x e) (hx : Current x) :
    Current (track (World.apply cfg) (noteTrace cfg) e x) where
  objects r hr := by
    by_cases ht : e.touches x.1 = some r
    · exact .inl ⟨r, ht, rfl⟩
    · right
      simp only [track, apply_heap_ne h.ne_crash ht]
      exact hx.objects r (hr.resolve_left ht).2
  rows p hp := by
    refine (grows_apply h.ne_crash).seen _ ?_
    rcases apply_rows hp with hp | rfl
    · exact hx.rows p hp
    · exact h

theorem current_crash (hx : Current x) :
    Current (track (World.apply cfg) (noteTrace cfg) .crash x) where
  objects r hr := by
    rcases hr with hr | hr
    · cases hr
    · exact absurd rfl hr.1
  rows p hp := .inr (hx.rows p hp)

def custody : Contract (World × Trace) Effect Tag where
  rely _ x y := Grows x y ∧ (Current x → Current y)
  guar _ := Stores
  idle _ := Current

/-- A part of a coroutine run from `x` stores only what has been seen. -/
abbrev Tends (cfg : Settings) (a : Tag) {α : Type} (post : α → World × Trace → Prop) (p : M α)
    (x : World × Trace) : Prop :=
  custody.Does ((system cfg).withHistory (noteTrace cfg)) a
    (fun b y => Grows x y ∧ Current y ∧ post b y) p.beside x

section Rules

variable {a : Tag} {α β : Type} {p : M α} {f : α → M β} {post : α → World × Trace → Prop}
  {after : β → World × Trace → Prop}

theorem Tends.bind (hp : Tends cfg a post p x)
    (hf : ∀ b y, Grows x y → Current y → post b y → Tends cfg a after (f b) y) :
    Tends cfg a after (p >>= f) x := by
  unfold Tends
  rw [Proc.beside_bind]
  refine Contract.Does.bind hp fun b y hy => (hf b y hy.1 hy.2.1 hy.2.2).mono ?_
  exact fun c z hz => ⟨hy.1.trans hz.1, hz.2⟩

theorem Tends.pure {b : α} (hx : Current x) (h : post b x) : Tends cfg a post (Pure.pure b) x :=
  ⟨.refl x, hx, h⟩

theorem Tends.of_look {f : World → M β} (h : Tends cfg a after (f x.1) x) :
    Tends cfg a after (look >>= f) x := h

theorem Tends.emit (hx : Current x) (he : Stores x e) :
    Tends cfg a (fun _ _ => True) (Oms.emit e) x :=
  ⟨he, grows_apply he.ne_crash, current_apply he hx, trivial⟩

theorem Tends.of_emit {f : Unit → M β} (hx : Current x) (he : Stores x e)
    (h : Current (track (World.apply cfg) (noteTrace cfg) e x) →
      Tends cfg a after (f ()) (track (World.apply cfg) (noteTrace cfg) e x)) :
    Tends cfg a after (Oms.emit e >>= f) x := by
  refine ⟨he, (h (current_apply he hx)).mono fun b y hy => ⟨?_, hy.2⟩⟩
  exact (grows_apply he.ne_crash).trans hy.1

theorem Tends.of_wait {i : Point} {f : Reply i → M β} (hx : Current x)
    (h : ∀ r y, Grows x y → Current y → Tends cfg a after (f r) y) :
    Tends cfg a after (wait i >>= f) x :=
  fun y hy r _ => (h r y hy.1 (hy.2 hx)).mono fun _ _ hz => ⟨hy.1.trans hz.1, hz.2⟩

end Rules

section Texts

variable {a : Tag} {α : Type}

def custodyJudgement (cfg : Settings) : Judgement where
  fine p := ∀ a x, Current x → Tends cfg a (fun _ _ => True) p x
  after r p := ∀ a x, Current x → x.2.made r → Tends cfg a (fun _ _ => True) p x
  holding rows p := ∀ a x, Current x → (∀ o ∈ rows, x.2.seen o) →
    Tends cfg a (fun _ _ => True) p x

theorem tends_saveOrder (hx : Current x) (hr : x.2.made r) :
    Tends cfg a (fun _ _ => True) (saveOrder r) x := by
  refine .of_look (.of_wait hx fun io y hy hcur => ?_)
  have hseen := hy.seen _ (hx.objects r hr)
  refine Tends.bind (?_ : Tends cfg a (fun _ _ => True) _ y) fun _ z _ hz _ =>
    .of_wait hz fun _ t _ ht => .pure ht trivial
  unfold takeEffect
  split
  · exact .pure hcur trivial
  · exact .emit hcur hseen

theorem tends_loadOrder (hx : Current x) (oid : OrderId) :
    Tends cfg a (fun row y => ∀ o ∈ row.toList, y.2.seen o) (loadOrder oid) x := by
  refine .of_wait hx fun io y _ hy => .of_look (.of_wait hy fun _ z hz hcur => .pure hcur ?_)
  intro o ho
  split at ho
  · exact hz.seen o (hy.rows _ (Dict.mem_of_get (Option.mem_toList.mp ho)))
  · cases ho

theorem tends_loadActiveOrders (hx : Current x) :
    Tends cfg a (fun rows y => ∀ o ∈ rows, y.2.seen o) loadActiveOrders x := by
  refine .of_wait hx fun io y _ hy => .of_look (.of_wait hy fun _ z hz hcur => .pure hcur ?_)
  intro o ho
  split at ho
  · obtain ⟨p, hp, rfl⟩ := List.mem_map.mp (List.mem_of_mem_filter ho)
    exact hz.seen _ (hy.rows p hp)
  · cases ho

theorem custody_rules (cfg : Settings) : (custodyJudgement cfg).Rules where
  pure b a x hx := .pure hx trivial
  bind hp hf a x hx := Tends.bind (hp a x hx) fun b y _ hy _ => hf b a y hy
  look a x hx := ⟨.refl x, hx, trivial⟩
  wait _ a x hx y hy r _ := ⟨hy.1, hy.2 hx, trivial⟩
  emit he a x hx := .emit hx (stores_of_plain he)
  write {_ e r _} he hf a x hx := by
    have hstores : Stores x e := stores_of_writes he
    refine .of_emit hx hstores fun hy => hf a _ hy (.inl ?_)
    cases e <;> first | exact he | cases he
  create hf a x hx :=
    .of_look (.of_emit (e := .create _ _ _) hx trivial fun hy => hf x.1 a _ hy (.inl rfl))
  save r a x hx hr := tends_saveOrder hx hr
  after_bind hp hf a x hx hr := Tends.bind (hp a x hx hr) fun b y _ hy _ => hf b a y hy
  after_fine hp a x hx _ := hp a x hx
  readOne hf a x hx := Tends.bind (tends_loadOrder hx _) fun row y _ hy hrow => hf row a y hy hrow
  readAll hf a x hx :=
    Tends.bind (tends_loadActiveOrders hx) fun rows y _ hy hrows => hf rows a y hy hrows
  load hrow hf a x hx hrows :=
    .of_emit (e := .loaded _) hx (hrows _ hrow) fun hy => hf a _ hy fun o ho => .inr (hrows o ho)
  holding_look hf a x hx hrows := .of_look (hf x.1 a x hx hrows)
  holding_bind hp hf a x hx hrows :=
    Tends.bind (hp a x hx hrows) fun b y hxy hy _ => hf b a y hy fun o ho => hxy.seen o (hrows o ho)
  holding_fine hp a x hx _ := hp a x hx

theorem custody_sound (cfg : Settings) :
    custody.Sound ((system cfg).withHistory (noteTrace cfg)) where
  trans _ _ _ _ h h' := ⟨h.1.trans h'.1, h'.2 ∘ h.2⟩
  refl _ x := ⟨.refl x, id⟩
  idle _ _ _ h := h.2
  others _ _ _ _ _ h := ⟨grows_apply h.ne_crash, current_apply h⟩
  env a x e h := by
    have hstores : Stores x e := by cases e <;> trivial
    exact ⟨grows_apply hstores.ne_crash, current_apply hstores⟩
  code c x hx := by
    have hask : ∀ id, (custodyJudgement cfg).fine (wait (.cancelOrder id)) :=
      fun id a x hx y hy r _ => ⟨hy.1, hy.2 hx, trivial⟩
    have hexit : ∀ b leg oid, (custodyJudgement cfg).fine (emit (.exited b leg oid)) :=
      fun b leg oid a x hx => .emit hx trivial
    have hbody : (custodyJudgement cfg).fine (c.code cfg) := by
      refine (custody_rules cfg).of_look fun w => ?_
      split
      · by_cases hc : c = .evaluateBrackets
        · subst hc
          exact fine_evaluateBrackets (custody_rules cfg) hexit
        · exact fine_body (custody_rules cfg) hask cfg c hc
      · exact (custody_rules cfg).pure _
    exact Contract.Does.mono (hbody _ x hx) fun _ y hy => hy.2.1

end Texts

theorem stores_of_life {es : List Effect} {P : Pool World Effect Reply Tag} (h : Life cfg es P) :
    Legal (track (World.apply cfg) (noteTrace cfg)) (fun x e => Stores x e ∨ e = .crash)
      (initial.state, {}) es := by
  have hidle : Current (initial.state, {}) :=
    ⟨fun _ hr => hr.elim, fun _ hp => absurd hp List.not_mem_nil⟩
  have hholds : custody.Holds ((system cfg).withHistory (noteTrace cfg)) (initial.beside {}) := by
    refine ⟨?_, ?_, .nil, fun _ _ => hidle⟩
    · exact fun t ht => absurd ht List.not_mem_nil
    · exact fun t ht => absurd ht List.not_mem_nil
  have hcrash : ∀ x a, ((system cfg).withHistory (noteTrace cfg)).blocks a a = false →
      custody.idle a x →
        ∀ b, custody.idle b (((system cfg).withHistory (noteTrace cfg)).apply .crash x) :=
    fun _ _ _ hx _ => current_crash hx
  obtain ⟨hlegal, -, -⟩ := Contract.Life.legal (custody_sound cfg) hcrash (a := .api) rfl hholds
    (System.Life.beside (noteTrace cfg) h {})
  refine hlegal.mono fun x e he => ?_
  rcases he with (⟨_, hstores⟩ | henv) | hc
  · exact .inl hstores
  · left
    cases e with
    | elapse | stored => trivial
    | _ => cases henv
  · exact .inr hc

end Trademetrix.Oms

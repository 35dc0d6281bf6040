import Mathlib.Algebra.Ring.Nat
import Mathlib.Data.List.Perm.Subperm
import ServiceHost.Proofs.Declarations
import ServiceHost.Proofs.System.Turns

/-! # What is still to be paid

Everything that happens has its price. What a system can still bring about is charged beforehand:
the steps its services have left in their lifecycle, the actions its callbacks have not carried
out, and the services these will install. -/

namespace ServiceHost

/-- The price of a single step, and the number of services prices are made for. A service costs as
much as one step under every tariff. -/
structure Tariff where
  unit : Nat
  crowd : Nat

namespace Tariff

/-- The tariff under which nothing costs but services. -/
def census : Tariff := ⟨0, 0⟩

variable (τ : Tariff)

/-- The messages one operation on the graph sends. -/
def fan : Nat := τ.unit * (3 * τ.crowd + 2)

/-- A report, with the messages it leads to. -/
def report : Nat := τ.unit + τ.fan

/-- The end of a callback: work is left to a task with its watcher and timers, or the controller
sends itself a message, and the state it reached is reported. -/
def ending : Nat := 8 * τ.unit + τ.report

/-- The way of a service through its lifecycle, apart from its callbacks. -/
def life : Nat := 5 * (τ.unit + τ.report) + 2 * τ.ending

/-- A service still to be installed which refers to a number of groups, where `callbacks` is the
price of what its callbacks do. -/
def install (groups callbacks : Nat) : Nat :=
  1 + 2 * τ.unit + τ.unit * (groups * τ.crowd + 1) + τ.life + callbacks

end Tariff

/-! ## Prices -/

mutual

/-- The price of an action, with all it brings about. -/
def Action.toll (τ : Tariff) : Action → Nat
  | .sleep _ => 3 * τ.unit
  | .remove .. => 2 * τ.unit + τ.fan
  | .has _ => 2 * τ.unit
  | .install d => serviceToll τ d
  | .composite c => compositeToll τ c
  | .compositeAlone c => τ.install 0 (c.children.length * (τ.unit + τ.fan))
  | _ => 0

/-- The price of a list of actions. -/
def actionsToll (τ : Tariff) : List Action → Nat
  | [] => 0
  | a :: rest => a.toll τ + actionsToll τ rest

/-- The price of the callbacks of a service. -/
def callbacksToll (τ : Tariff) : Callbacks Action → Nat
  | .plain => 0
  | .scripted _ start stop => actionsToll τ start + actionsToll τ stop

/-- The price of a declared service. -/
def serviceToll (τ : Tariff) : Declaration Action → Nat
  | ⟨_, _, _, _, _, rosters, callbacks, _⟩ => τ.install rosters.length (callbacksToll τ callbacks)

/-- The price of a declared child. -/
def childToll (τ : Tariff) : ChildDeclaration Action → Nat
  | ⟨_, service⟩ => serviceToll τ service

/-- The price of the declared children of a composite. -/
def childrenToll (τ : Tariff) : List (ChildDeclaration Action) → Nat
  | [] => 0
  | c :: rest => childToll τ c + childrenToll τ rest

/-- The price of a declared composite. -/
def compositeToll (τ : Tariff) : CompositeDeclaration Action → Nat
  | ⟨_, _, children⟩ =>
    childrenToll τ children + τ.install 0 (children.length * (τ.unit + τ.fan))

end

/-- The price of what `start` does. -/
def Conduct.startToll (τ : Tariff) : Conduct → Nat
  | .scripted _ start _ _ _ => actionsToll τ start
  | .plain | .composite _ => 0

/-- The price of what `stop` does. -/
def Conduct.stopToll (τ : Tariff) : Conduct → Nat
  | .plain => 0
  | .scripted _ _ stop _ _ => actionsToll τ stop
  | .composite children => children.length * (τ.unit + τ.fan)

/-- The price of a request. -/
def Request.toll (τ : Tariff) : Request → Nat
  | .install plan _ =>
    τ.install plan.rosters.size (plan.conduct.startToll τ + plan.conduct.stopToll τ)
  | .remove .. => τ.unit + τ.fan
  | .has .. | .state .. | .text _ => τ.unit
  | .close _ => τ.unit + τ.crowd * τ.fan
  | .report .. => τ.report

/-- The price of a list of requests. -/
def requestsToll (τ : Tariff) (requests : List Request) : Nat :=
  (requests.map (Request.toll τ)).sum

/-- The price of a callback that is suspended. -/
def Callback.toll (τ : Tariff) (c : Callback) : Nat := τ.unit + actionsToll τ c.rest + τ.ending

/-- The price of what is left of a lifecycle. -/
def State.toll (τ : Tariff) (conduct : Conduct) (state : State) : Nat :=
  (5 - state.phase) * (τ.unit + τ.report) +
    (if state.phase = 0 then conduct.startToll τ + τ.ending else 0) +
    (if state.phase ≤ 3 then conduct.stopToll τ + τ.ending else 0)

/-- The price of what a controller still does. One that has ended only counts as a service. -/
def Controller.toll (τ : Tariff) (c : Controller) : Nat :=
  1 + if c.ended then 0 else
    τ.unit + τ.unit * c.inbox.length + c.state.toll τ c.plan.conduct +
      c.callback.elim 0 (Callback.toll τ)

variable {τ : Tariff}

@[simp] theorem requestsToll_nil : requestsToll τ [] = 0 := rfl

@[simp] theorem requestsToll_append (l l' : List Request) :
    requestsToll τ (l ++ l') = requestsToll τ l + requestsToll τ l' := by
  simp [requestsToll]

@[simp] theorem requestsToll_singleton (r : Request) : requestsToll τ [r] = r.toll τ := by
  simp [requestsToll]

/-! ## Declarations -/

theorem Declaration.size_plan_rosters (d : Service) (scope : Option Name) :
    (d.plan scope).rosters.size ≤ d.rosters.length := by
  have hfold : ∀ (l : List RosterBinding) (p : Plan),
      (l.foldl (fun p r => p.bindRoster r.group r.label) p).rosters.size ≤
        p.rosters.size + l.length := by
    intro l
    induction l with
    | nil => exact fun p => Nat.le_refl _
    | cons b l ih =>
        intro p
        have hone : (p.bindRoster b.group b.label).rosters.size ≤ p.rosters.size + 1 :=
          Std.ExtTreeMap.size_insert_le
        have hrest := ih (p.bindRoster b.group b.label)
        rw [List.foldl_cons, List.length_cons]
        omega
  unfold plan
  refine Nat.le_trans (hfold _ _) (Nat.le_of_eq ?_)
  iterate 4 rw [Plan.foldl_eq Plan.rosters (by intros; rfl)]
  simp [Plan.bare]

theorem Tariff.install_le {groups groups' callbacks callbacks' : Nat} (hg : groups ≤ groups')
    (hc : callbacks ≤ callbacks') : τ.install groups callbacks ≤ τ.install groups' callbacks' := by
  have hmul := Nat.mul_le_mul_left τ.unit
    (Nat.add_le_add_right (Nat.mul_le_mul_right τ.crowd hg) 1)
  unfold install
  omega

theorem serviceToll_eq (d : Service) :
    serviceToll τ d = τ.install d.rosters.length (callbacksToll τ d.callbacks) := by
  cases d
  rw [serviceToll]

theorem compositeToll_eq (c : Composite) : compositeToll τ c =
    childrenToll τ c.children + τ.install 0 (c.children.length * (τ.unit + τ.fan)) := by
  cases c
  rw [compositeToll]

/-- The price of a declaration covers that of the request made of it. -/
theorem toll_plan_le (d : Service) (scope : Option Name) (k : Ticket) :
    (Request.install (d.plan scope) k).toll τ ≤ serviceToll τ d := by
  rw [serviceToll_eq, Request.toll, Declaration.plan_conduct]
  refine Tariff.install_le (d.size_plan_rosters scope) ?_
  unfold Declaration.conduct
  cases d.callbacks with
  | plain => simp [Conduct.startToll, Conduct.stopToll]
  | scripted => simp [Conduct.startToll, Conduct.stopToll, callbacksToll]

theorem toll_named (c : Child) (unit : Name) : serviceToll τ (c.named unit) = childToll τ c := by
  obtain ⟨suffix, service⟩ := c
  cases suffix with
  | none => rw [ChildDeclaration.named, childToll]
  | some => rw [ChildDeclaration.named, childToll, serviceToll_eq, serviceToll_eq]

theorem toll_compositePlan_le (c : Composite) (scope : Option Name) (k : Ticket) :
    (Request.install (c.plan scope) k).toll τ ≤
      τ.install 0 (c.children.length * (τ.unit + τ.fan)) := by
  have hrosters : (c.plan scope).rosters.size = 0 := by
    simp only [CompositeDeclaration.plan]
    rw [Plan.foldl_eq Plan.rosters (by intros; rfl)]
    rfl
  have hconduct : (c.plan scope).conduct =
      .composite (Names.ofList (c.services.map Declaration.name)).toList := by
    simp only [CompositeDeclaration.plan]
    rw [Plan.foldl_eq Plan.conduct (by intros; rfl)]
    rfl
  have hchildren : (Names.ofList (c.services.map Declaration.name)).toList.length ≤
      c.children.length := by
    have hsub : (Names.ofList (c.services.map Declaration.name)).toList ⊆
        c.services.map Declaration.name := fun x hx => by simpa using hx
    have hle := ((Names.nodup_toList _).subperm hsub).length_le
    simpa [CompositeDeclaration.services] using hle
  simp only [Request.toll, hconduct, Conduct.startToll, Conduct.stopToll, hrosters, Nat.zero_add]
  exact Tariff.install_le (Nat.le_refl 0) (Nat.mul_le_mul_right _ hchildren)

/-! ## Callbacks -/

/-- The price of what a callback has brought about so far. -/
def Progress.toll (τ : Tariff) (p : Progress) : Nat :=
  2 * τ.unit * p.world.timers.length + requestsToll τ p.requests

/-- The price of what a callback that waits still does. -/
def Halt.toll (τ : Tariff) : Halt → Nat
  | .waiting _ rest => τ.unit + actionsToll τ rest
  | .returned _ => 0

namespace Progress

theorem toll_begin (w : World) :
    (begin w).toll τ = 2 * τ.unit * w.timers.length := by
  simp [toll, begin]

theorem toll_record (p : Progress) (c : Context) (note : Note) :
    (p.record c note).toll τ = p.toll τ := rfl

theorem toll_ask (p : Progress) (subject : Option Subject) (request : Ticket → Request) :
    (p.ask subject request).2.toll τ =
      p.toll τ + (request (p.world.pledge subject).1).toll τ := by
  simp [toll, ask, World.pledge, Nat.add_assoc]

theorem toll_finish (p : Progress) (c : Context) : (p.finish c).toll τ = p.toll τ := by
  unfold finish
  split <;> rfl

theorem toll_defer {p p' : Progress} {work : Completion} {interruptible : Bool}
    (h : p.defer work interruptible = .ok p') : p'.toll τ = p.toll τ := by
  unfold defer at h
  split at h
  · contradiction
  · rw [← Except.ok.inj h]
    rfl

theorem toll_install (p : Progress) (origin : Origin) (scope : Option Name) (d : Service) :
    (p.install origin scope d).toll τ ≤ p.toll τ + serviceToll τ d := by
  unfold install
  rw [toll_ask]
  exact Nat.add_le_add_left (toll_plan_le d scope _) _

theorem toll_installAlone (p : Progress) (origin : Origin) (scope : Option Name) (c : Composite) :
    (p.installAlone origin scope c).toll τ ≤
      p.toll τ + τ.install 0 (c.children.length * (τ.unit + τ.fan)) := by
  unfold installAlone
  rw [toll_ask]
  exact Nat.add_le_add_left (toll_compositePlan_le c scope _) _

theorem toll_installComposite (p : Progress) (origin : Origin) (scope : Option Name)
    (c : Composite) : (p.installComposite origin scope c).toll τ ≤
      p.toll τ + compositeToll τ c := by
  have hservices : ∀ (l : List Child) (p : Progress),
      ((l.map (·.named c.name)).foldl (fun p d => p.install origin none d) p).toll τ ≤
        p.toll τ + childrenToll τ l := by
    intro l
    induction l with
    | nil => exact fun p => Nat.le_refl _
    | cons child l ih =>
        intro p
        have hone := toll_install (τ := τ) p origin none (child.named c.name)
        have hrest := ih (p.install origin none (child.named c.name))
        rw [toll_named] at hone
        simp only [List.map_cons, List.foldl_cons, childrenToll]
        omega
  rw [compositeToll_eq, ← Nat.add_assoc]
  exact Nat.le_trans (toll_installAlone _ origin scope c)
    (Nat.add_le_add_right (hservices c.children p) _)

end Progress

open Progress in
/-- What a callback brings about, and what it leaves undone, is paid for with its actions. -/
theorem toll_perform (c : Context) (actions : List Action) (p : Progress) :
    (perform c actions p).1.toll τ + (perform c actions p).2.toll τ ≤
      p.toll τ + actionsToll τ actions := by
  induction actions generalizing p with
  | nil => simp [perform, Halt.toll, actionsToll, toll_finish]
  | cons a rest ih =>
      rw [actionsToll]
      -- it goes on with what its first action left
      have hgo : ∀ {p' : Progress}, p'.toll τ ≤ p.toll τ + a.toll τ →
          (perform c rest p').1.toll τ + (perform c rest p').2.toll τ ≤
            p.toll τ + (a.toll τ + actionsToll τ rest) := by
        intro p' h
        have hrest := ih p'
        omega
      have hwait : ∀ {request : Ticket → Request} {awaited : Awaited},
          (∀ k, (request k).toll τ + τ.unit ≤ a.toll τ) →
          (p.ask none request).2.toll τ +
              (Halt.waiting (.answer (p.ask none request).1 awaited) rest).toll τ ≤
            p.toll τ + (a.toll τ + actionsToll τ rest) := by
        intro request awaited h
        have hasked := h (p.world.pledge none).1
        rw [toll_ask, Halt.toll]
        omega
      cases a with
      | sleep millis =>
          cases millis with
          | zero => exact hgo (Nat.le_add_right _ _)
          | succ millis =>
              simp only [perform, Action.toll, Halt.toll, toll, World.setTimer, List.length_append,
                List.length_singleton, Nat.mul_add]
              omega
      | note text | context | read label => exact hgo (Nat.le_add_right _ _)
      | fail failure | panic cause => exact Nat.le_add_right _ _
      | runAsync _ _ catching | run _ catching =>
          simp only [perform, deferThen]
          split
          · next p' hd => exact hgo (toll_defer hd ▸ Nat.le_add_right _ _)
          · split
            · exact hgo (Nat.le_add_right _ _)
            · exact Nat.le_add_right _ _
      | remove name awaited =>
          cases awaited with
          | false =>
              refine hgo ?_
              rw [toll_ask, Request.toll, Action.toll]
              omega
          | true => exact hwait fun _ => by simp only [Request.toll, Action.toll]; omega
      | has name =>
          simp only [perform]
          split
          · exact hgo (Nat.le_add_right _ _)
          · exact hwait fun _ => by simp only [Request.toll, Action.toll]; omega
      | install service =>
          simp only [perform]
          split
          · exact hgo (Nat.le_add_right _ _)
          · exact hgo (toll_install _ _ _ _)
      | composite unit =>
          simp only [perform]
          split
          · exact hgo (Nat.le_add_right _ _)
          · exact hgo (toll_installComposite _ _ _ _)
      | compositeAlone unit =>
          simp only [perform]
          split
          · exact hgo (Nat.le_add_right _ _)
          · exact hgo (toll_installAlone _ _ _ _)

theorem toll_carryOn (c : Context) (rest : List Action) (p : Progress)
    (answer : Option (Awaited × Except Error Answer)) :
    (carryOn c rest p answer).1.toll τ + (carryOn c rest p answer).2.toll τ ≤
      p.toll τ + actionsToll τ rest := by
  have hperform := fun note => toll_perform (τ := τ) c rest (p.record c note)
  simp only [Progress.toll_record] at hperform
  unfold carryOn
  split
  · exact toll_perform c rest p
  · exact hperform _
  · exact hperform _
  · exact toll_perform c rest p
  · exact Nat.add_le_add_left (Nat.zero_le _) _

end ServiceHost

import Mathlib.Data.List.Nodup
import ServiceHost.Proofs.System.Tameness

/-! # Declared services

What the plan of a declared service says about it, and which of the services of a list can start. -/

namespace ServiceHost

/-! ## Plans -/

/-- A service needs what it depends on and whatever a slot of it is bound to. -/
def Declaration.Needs (d : Service) (e : Name) : Prop :=
  e ∈ d.dependencies ∨ ∃ b ∈ d.slots, b.dependency = e

namespace Plan

variable {β γ : Type} {p : Plan}

/-- What no binding of a list changes. -/
theorem foldl_eq (g : Plan → γ) {f : Plan → β → Plan} (h : ∀ p b, g (f p b) = g p) (l : List β)
    (p : Plan) : g (l.foldl f p) = g p := by
  induction l generalizing p with
  | nil => rfl
  | cons b l ih => rw [List.foldl_cons, ih, h]

theorem mem_dependOn_foldl (l : List Name) (p : Plan) (e : Name) :
    e ∈ (l.foldl dependOn p).dependencies ↔ e ∈ p.dependencies ∨ e ∈ l := by
  induction l generalizing p with
  | nil => simp
  | cons a l ih =>
      rw [List.foldl_cons, ih, dependOn]
      simp only [Std.ExtTreeSet.mem_insert, Std.LawfulEqCmp.compare_eq_iff_eq, List.mem_cons]
      grind

theorem mem_bindSlot_foldl (l : List SlotBinding) (p : Plan) (e : Name) :
    e ∈ (l.foldl (fun p s => p.bindSlot s.dependency s.label) p).dependencies ↔
      e ∈ p.dependencies ∨ ∃ b ∈ l, b.dependency = e := by
  induction l generalizing p with
  | nil => simp
  | cons b l ih =>
      rw [List.foldl_cons, ih, bindSlot]
      simp only [Std.ExtTreeSet.mem_insert, Std.LawfulEqCmp.compare_eq_iff_eq, List.mem_cons]
      grind

theorem mem_slotsOf_bindSlot (p : Plan) (b : SlotBinding) (e : Name) (x : Label) :
    x ∈ (p.bindSlot b.dependency b.label).slotsOf e ↔
      x ∈ p.slotsOf e ∨ (b.dependency = e ∧ b.label = x) := by
  simp only [bindSlot, slotsOf, Std.ExtTreeMap.getElem?_insert, Std.LawfulEqCmp.compare_eq_iff_eq]
  by_cases h : b.dependency = e
  · subst h
    simp [eq_comm]
  · simp [h]

theorem mem_slotsOf_foldl (l : List SlotBinding) (p : Plan) (e : Name) (x : Label) :
    x ∈ (l.foldl (fun p s => p.bindSlot s.dependency s.label) p).slotsOf e ↔
      x ∈ p.slotsOf e ∨ ∃ b ∈ l, b.dependency = e ∧ b.label = x := by
  induction l generalizing p with
  | nil => simp
  | cons b l ih =>
      rw [List.foldl_cons, ih, mem_slotsOf_bindSlot]
      simp only [List.mem_cons]
      grind

end Plan

namespace Declaration

variable (d : Service) (scope : Option Name)

@[simp] theorem plan_name : (d.plan scope).name = d.name := by
  simp only [plan]
  iterate 5 rw [Plan.foldl_eq Plan.name (by intros; rfl)]
  rfl

@[simp] theorem plan_value : (d.plan scope).value = d.value := by
  simp only [plan]
  iterate 5 rw [Plan.foldl_eq Plan.value (by intros; rfl)]
  rfl

@[simp] theorem plan_conduct : (d.plan scope).conduct = d.conduct := by
  simp only [plan]
  iterate 5 rw [Plan.foldl_eq Plan.conduct (by intros; rfl)]
  rfl

theorem mem_plan_dependencies_or {e : Name} :
    e ∈ (d.plan scope).dependencies ↔ e ∈ scope ∨ d.Needs e := by
  simp only [plan]
  iterate 2 rw [Plan.foldl_eq Plan.dependencies (by intros; rfl)]
  rw [Plan.mem_bindSlot_foldl, Plan.mem_dependOn_foldl, Plan.mem_dependOn_foldl, Needs]
  simp [Plan.bare, or_assoc]

theorem mem_plan_dependencies {e : Name} : e ∈ (d.plan none).dependencies ↔ d.Needs e := by
  simp [mem_plan_dependencies_or]

theorem mem_plan_slotsOf {e : Name} {x : Label} :
    x ∈ (d.plan scope).slotsOf e ↔ ∃ b ∈ d.slots, b.dependency = e ∧ b.label = x := by
  simp only [plan]
  iterate 2 rw [Plan.foldl_eq (fun p => p.slotsOf e) (by intros; rfl)]
  rw [Plan.mem_slotsOf_foldl]
  iterate 2 rw [Plan.foldl_eq (fun p => p.slotsOf e) (by intros; rfl)]
  simp [Plan.bare, Plan.slotsOf]

end Declaration

/-! ## Slots -/

namespace Cells

variable {cells : Cells} {l : Label} {slot : Slot}

theorem mem_create {cell : Cell} {x : Label} : l ∈ cells.create x cell ↔ x = l ∨ l ∈ cells := by
  rw [create, Std.ExtTreeMap.mem_insertIfNew, Std.LawfulEqCmp.compare_eq_iff_eq]

theorem slot?_create {cell : Cell} {x : Label} (h : (cells.create x cell).slot? l = some slot) :
    cells.slot? l = some slot ∨ (x = l ∧ l ∉ cells ∧ cell = .slot slot) := by
  simp only [create, slot?, Std.ExtTreeMap.getElem?_insertIfNew,
    Std.LawfulEqCmp.compare_eq_iff_eq] at h ⊢
  by_cases hnew : x = l ∧ x ∉ cells
  · rw [if_pos hnew] at h
    refine .inr ⟨hnew.1, hnew.1 ▸ hnew.2, ?_⟩
    cases cell <;> simp_all
  · rw [if_neg hnew] at h
    exact .inl h

section Create

variable {β : Type} {label : β → Label} {cell : β → Cell}

theorem mem_create_foldl (bindings : List β) (cells : Cells) :
    l ∈ bindings.foldl (fun cells b => cells.create (label b) (cell b)) cells ↔
      (∃ b ∈ bindings, label b = l) ∨ l ∈ cells := by
  induction bindings generalizing cells with
  | nil => simp
  | cons b bindings ih =>
      rw [List.foldl_cons, ih, mem_create, List.exists_mem_cons_iff, or_left_comm, or_assoc]

theorem slot?_create_foldl (bindings : List β) (cells : Cells)
    (h : slot? (bindings.foldl (fun cells b => cells.create (label b) (cell b)) cells) l =
      some slot) :
    cells.slot? l = some slot ∨ ∃ b ∈ bindings, label b = l ∧ l ∉ cells ∧ cell b = .slot slot := by
  induction bindings generalizing cells with
  | nil => exact .inl h
  | cons b bindings ih =>
      rcases ih _ h with h | ⟨b', hb', hl, hno, h⟩
      · refine (slot?_create h).imp_right fun hnew => ?_
        exact ⟨b, List.mem_cons_self, hnew⟩
      · rw [mem_create, not_or] at hno
        exact .inr ⟨b', List.mem_cons_of_mem _ hb', hl, hno.2, h⟩

end Create

theorem mem_createFor {d : Service} : l ∈ cells.createFor d ↔
    (∃ b ∈ d.rosters, b.label = l) ∨ (∃ b ∈ d.slots, b.label = l) ∨ l ∈ cells :=
  (mem_create_foldl _ _).trans (or_congr_right (mem_create_foldl _ _))

/-- A slot there is was there before, or it is a new one of those the service binds. -/
theorem slot?_createFor {d : Service} (h : (cells.createFor d).slot? l = some slot) :
    cells.slot? l = some slot ∨
      ∃ b ∈ d.slots, b.label = l ∧ l ∉ cells ∧ slot = .empty b.type := by
  rcases slot?_create_foldl _ _ h with h | ⟨_, _, _, _, hcell⟩
  · refine (slot?_create_foldl _ _ h).imp_right fun ⟨b, hb, hl, hno, hcell⟩ => ⟨b, hb, hl, hno, ?_⟩
    injection hcell with hslot
    exact hslot.symm
  · cases hcell

/-- Slots that take values of a type take a value of that type. -/
theorem inject_ok (source : Name) {value : Value} {labels : List Label}
    (h : ∀ l ∈ labels, ∀ slot, cells.slot? l = some slot → slot.type = value.type) :
    (cells.inject source value labels).2 = .ok () := by
  induction labels generalizing cells with
  | nil => rfl
  | cons x labels ih =>
      rw [inject]
      cases hx : cells.slot? x with
      | none => exact ih fun l hl => h l (List.mem_cons_of_mem _ hl)
      | some slot =>
          have htype := h x List.mem_cons_self slot hx
          simp only [Slot.inject, htype, if_true]
          refine ih fun l hl slot' hslot => ?_
          rw [slot?_insert_slot] at hslot
          split at hslot
          · rw [← Option.some.inj hslot]
          · exact h l (List.mem_cons_of_mem _ hl) slot' hslot

end Cells

/-- Every slot takes what is offered for it, if it takes values of that type. -/
theorem Turn.inject_ok {plan : Plan} {cells : Cells} {values : List (Name × Value)}
    (h : ∀ p ∈ values, ∀ l ∈ plan.slotsOf p.1, ∀ slot, cells.slot? l = some slot →
      slot.type = p.2.type) : (Turn.inject plan cells values).2 = .ok () := by
  induction values generalizing cells with
  | nil => rfl
  | cons p values ih =>
      obtain ⟨e, v⟩ := p
      have hok := Cells.inject_ok e (h (e, v) List.mem_cons_self)
      have hframe := Cells.frame_inject (P := fun _ => True) e v (plan.slotsOf e) cells
        fun _ _ => trivial
      rw [Turn.inject]
      generalize cells.inject e v (plan.slotsOf e) = result at hok hframe
      obtain ⟨cells', outcome⟩ := result
      obtain rfl : outcome = .ok () := hok
      refine ih fun p hp l hl slot hslot => ?_
      have htype := hframe.type l
      rw [hslot, Option.map_some, eq_comm, Option.map_eq_some_iff] at htype
      obtain ⟨slot', hslot', htype⟩ := htype
      exact htype ▸ h p (List.mem_cons_of_mem _ hp) l hl slot' hslot'

/-! ## Services that go together -/

/-- Services that can be installed side by side, where `type` tells what a slot takes: each has a
name of its own and a `start` that comes to a good end and asks for nothing, and each slot has the
type of the value it is bound to. -/
structure Fits (type : Label → ValueType) (services : List Service) : Prop where
  names : (services.map (·.name)).Nodup
  tame : ∀ d ∈ services, d.conduct.Tame .start
  typed : ∀ d ∈ services, ∀ b ∈ d.slots, b.type = type b.label
  fitting : ∀ d ∈ services, ∀ b ∈ d.slots, ∀ e ∈ services, e.name = b.dependency →
    e.value.type = b.type

namespace Fits

variable {type : Label → ValueType} {l l' : List Service}

theorem sublist (h : Fits type l) (hl : l'.Sublist l) : Fits type l' :=
  ⟨h.names.sublist (hl.map _), fun d hd => h.tame d (hl.subset hd),
    fun d hd => h.typed d (hl.subset hd),
    fun d hd b hb e he => h.fitting d (hl.subset hd) b hb e (hl.subset he)⟩

theorem perm (h : Fits type l) (hl : l.Perm l') : Fits type l' :=
  ⟨(hl.map _).nodup_iff.mp h.names, fun d hd => h.tame d (hl.mem_iff.mpr hd),
    fun d hd => h.typed d (hl.mem_iff.mpr hd),
    fun d hd b hb e he => h.fitting d (hl.mem_iff.mpr hd) b hb e (hl.mem_iff.mpr he)⟩

end Fits

/-- The services that can start, by name: a service can once all that it needs can. -/
inductive Founded (services : List Service) : Name → Prop
  | intro {d : Service} (hd : d ∈ services) (h : ∀ e, d.Needs e → Founded services e) :
    Founded services d.name

theorem Founded.mono {l l' : List Service} (h : l ⊆ l') {m : Name} (hm : Founded l m) :
    Founded l' m := by
  induction hm with
  | intro hd _ ih => exact .intro (h hd) ih

/-- What there is for a slot: a service that can start binds it to one that exposes this value. -/
def Provided (services : List Service) (l : Label) (p : Name × Value) : Prop :=
  ∃ d ∈ services, Founded services d.name ∧ (∃ b ∈ d.slots, b.dependency = p.1 ∧ b.label = l) ∧
    ∃ e ∈ services, e.name = p.1 ∧ e.value = p.2

theorem Provided.mono {l l' : List Service} (h : l ⊆ l') {x : Label} {p : Name × Value}
    (hp : Provided l x p) : Provided l' x p := by
  obtain ⟨d, hd, hfound, hb, e, he, hname, hvalue⟩ := hp
  exact ⟨d, h hd, hfound.mono h, hb, e, h he, hname, hvalue⟩

end ServiceHost

import ServiceHost.Proofs.System.Ledger

/-! # What is in the slots

A controller touches the slots its plan binds and no others, the container touches none, and no slot
ever comes to accept values of another type. -/

namespace ServiceHost

/-- A plan binds a slot of this label to some dependency. -/
def Plan.Binds (p : Plan) (l : Label) : Prop := ∃ d, l ∈ p.slotsOf d

namespace Cells

/-- Of the slots there were, at most those of certain labels changed, and none its type. No cell is
gone. -/
structure Frame (P : Label → Prop) (cells cells' : Cells) : Prop where
  type : ∀ l, (cells'.slot? l).map Slot.type = (cells.slot? l).map Slot.type
  kept : ∀ {l}, ¬P l → cells'.slot? l = cells.slot? l
  mem : ∀ {l}, l ∈ cells → l ∈ cells'

variable {P Q : Label → Prop} {cells cells' cells'' : Cells} {l : Label}

namespace Frame

theorem refl (P : Label → Prop) (cells : Cells) : Frame P cells cells :=
  ⟨fun _ => rfl, fun _ => rfl, id⟩

theorem of_eq (h : cells' = cells) : Frame P cells cells' := h ▸ refl P cells

theorem of_slots (h : ∀ l, cells'.slot? l = cells.slot? l) (hmem : ∀ {l}, l ∈ cells → l ∈ cells') :
    Frame P cells cells' :=
  ⟨fun l => by rw [h l], fun _ => h _, hmem⟩

theorem trans (h : Frame P cells cells') (h' : Frame P cells' cells'') : Frame P cells cells'' :=
  ⟨fun l => (h'.type l).trans (h.type l), fun hl => (h'.kept hl).trans (h.kept hl),
    fun hl => h'.mem (h.mem hl)⟩

theorem mono (h : Frame P cells cells') (hPQ : ∀ l, P l → Q l) : Frame Q cells cells' :=
  ⟨h.type, fun hl => h.kept fun hp => hl (hPQ _ hp), h.mem⟩

end Frame

theorem mem_insert_of_mem {cell : Cell} {x : Label} (h : l ∈ cells) :
    l ∈ (cells.insert x cell : Cells) :=
  Std.ExtTreeMap.mem_insert.mpr (.inr h)

theorem slot?_insert_slot (cells : Cells) (l x : Label) (slot : Slot) :
    Cells.slot? (cells.insert l (.slot slot)) x = if l = x then some slot else cells.slot? x := by
  simp only [Cells.slot?, Std.ExtTreeMap.getElem?_insert, Std.LawfulEqCmp.compare_eq_iff_eq]
  by_cases hx : l = x <;> simp [hx]

theorem slot?_insert_roster {roster roster' : Roster} (h : cells.roster? l = some roster)
    (x : Label) : Cells.slot? (cells.insert l (.roster roster')) x = cells.slot? x := by
  simp only [Cells.slot?, Std.ExtTreeMap.getElem?_insert, Std.LawfulEqCmp.compare_eq_iff_eq]
  by_cases hx : l = x
  · subst hx
    simp only [roster?] at h
    split at h <;> simp_all
  · simp [hx]

/-- A slot is replaced by one of its type. -/
theorem frame_insert {slot slot' : Slot} (h : cells.slot? l = some slot)
    (ht : slot'.type = slot.type) (hl : P l) :
    Frame P cells (cells.insert l (.slot slot')) := by
  constructor
  · intro x
    rw [slot?_insert_slot]
    split
    · next hx => simp [← hx, h, ht]
    · rfl
  · intro x hx
    rw [slot?_insert_slot, if_neg]
    rintro rfl
    exact hx hl
  · exact mem_insert_of_mem

/-! ## Slots are filled and emptied -/

theorem frame_inject (source : Name) (value : Value) (labels : List Label) (cells : Cells)
    (hl : ∀ l ∈ labels, P l) : Frame P cells (cells.inject source value labels).1 := by
  induction labels generalizing cells with
  | nil => exact .refl P cells
  | cons l rest ih =>
      have hrest : ∀ l ∈ rest, P l := fun l h => hl l (List.mem_cons_of_mem _ h)
      unfold Cells.inject
      split
      · exact ih cells hrest
      · next slot hslot =>
          split
          · next slot' hinject =>
              have ht : slot'.type = slot.type := by
                unfold Slot.inject at hinject
                split at hinject <;> cases hinject
                rfl
              exact (frame_insert hslot ht (hl l (List.mem_cons_self ..))).trans (ih _ hrest)
          · exact .refl P cells

theorem frame_clearSlot (cells : Cells) (hl : P l) : Frame P cells (cells.clearSlot l) := by
  unfold clearSlot
  split
  · exact .refl P cells
  · next slot hslot => exact frame_insert hslot rfl hl

theorem frame_clearRoster (cells : Cells) (l : Label) : Frame P cells (cells.clearRoster l) := by
  unfold clearRoster
  split
  · exact .refl P cells
  · next roster hroster => exact .of_slots (slot?_insert_roster hroster) mem_insert_of_mem

theorem Frame.foldl {f : Cells → Label → Cells} {labels : List Label}
    (h : ∀ cells, ∀ l ∈ labels, Frame P cells (f cells l)) (cells : Cells) :
    Frame P cells (labels.foldl f cells) := by
  induction labels generalizing cells with
  | nil => exact .refl P cells
  | cons l rest ih =>
      exact (h cells l (List.mem_cons_self ..)).trans
        (ih (fun cells l hl => h cells l (List.mem_cons_of_mem _ hl)) _)

end Cells

open Cells (Frame)

theorem recordCalls_cells (w : World) (label : Label) (calls : List HandlerCall) :
    (w.recordCalls label calls).cells = w.cells := by
  unfold World.recordCalls
  induction calls generalizing w with
  | nil => rfl
  | cons call rest ih => exact ih _

/-- Changes of a roster concern no slot. -/
theorem frame_addMember {P : Label → Prop} (w : World) (label : Label) (group member : Name)
    (value : Value) : Frame P w.cells (w.addMember label group member value).cells := by
  unfold World.addMember
  split
  · exact .refl P w.cells
  · next roster hroster =>
      split
      · rw [recordCalls_cells]
        exact .of_slots (Cells.slot?_insert_roster hroster) Cells.mem_insert_of_mem
      · exact .refl P w.cells

theorem frame_removeMember {P : Label → Prop} (w : World) (label : Label) (member : Name) :
    Frame P w.cells (w.removeMember label member).cells := by
  unfold World.removeMember
  split
  · exact .refl P w.cells
  · next roster hroster =>
      dsimp only
      rw [recordCalls_cells]
      exact .of_slots (Cells.slot?_insert_roster hroster) Cells.mem_insert_of_mem

theorem settle_cells (w : World) (ticket : Ticket) (outcome : Except Error Answer) :
    (w.settle ticket outcome).cells = w.cells := by
  unfold World.settle
  split
  · rfl
  · split <;> rfl

namespace Turn

theorem frame_inject (plan : Plan) (values : List (Name × Value)) (cells : Cells) :
    Frame plan.Binds cells (inject plan cells values).1 := by
  induction values generalizing cells with
  | nil => exact .refl _ cells
  | cons v rest ih =>
      obtain ⟨d, value⟩ := v
      have hf := Cells.frame_inject (P := plan.Binds) d value (plan.slotsOf d) cells
        fun l hl => ⟨d, hl⟩
      unfold inject
      split
      · next cells' he =>
          rw [he] at hf
          exact hf.trans (ih cells')
      · next cells' expected he =>
          rw [he] at hf
          exact hf

theorem answerInstall_cells (t : Turn) (outcome : Except Error Answer) :
    (t.answerInstall outcome).world.cells = t.world.cells := by
  unfold answerInstall
  split
  · rfl
  · exact settle_cells _ _ _

theorem completeStart_cells (t : Turn) : t.completeStart.world.cells = t.world.cells := by
  unfold completeStart
  dsimp only
  split <;> exact answerInstall_cells _ _

theorem failStart_cells (t : Turn) (why : StartAbort) (event : Event) :
    (t.failStart why event).world.cells = t.world.cells := by
  unfold failStart
  dsimp only
  split <;> exact answerInstall_cells _ _

theorem frame_releaseInjected (t : Turn) :
    Frame t.controller.plan.Binds t.world.cells t.releaseInjected.world.cells := by
  refine Frame.trans (.foldl (fun cells l hl => ?_) _) (.foldl (fun cells l _ => ?_) _)
  · obtain ⟨d, _, hd⟩ := List.mem_flatMap.mp hl
    exact Cells.frame_clearSlot cells ⟨d, hd⟩
  · exact Cells.frame_clearRoster cells l

theorem frame_onUpdate {P : Label → Prop} (t : Turn) (u : GroupUpdate) :
    Frame P t.world.cells (t.onUpdate u).world.cells := by
  cases u with
  | added group member value =>
      unfold onUpdate
      dsimp only
      split
      · exact .refl P t.world.cells
      · exact frame_addMember _ _ _ _ _
  | removed group member =>
      unfold onUpdate
      dsimp only
      split
      · exact .refl P t.world.cells
      · exact frame_removeMember _ _ _

end Turn

/-! ## The container -/

namespace System

theorem settle_cells (s : System) (ticket : Ticket) (outcome : Except Error Answer) :
    (s.settle ticket outcome).world.cells = s.world.cells := by
  rw [settle_world]
  exact ServiceHost.settle_cells _ _ _

theorem settleAll_cells (s : System) (tickets : List Ticket) (outcome : Except Error Answer) :
    (s.settleAll tickets outcome).world.cells = s.world.cells := by
  unfold settleAll
  induction tickets generalizing s with
  | nil => rfl
  | cons k rest ih => exact (ih _).trans (settle_cells s k outcome)

theorem refuse_cells (s : System) (r : Request) (e : Error) :
    (s.refuse r e).world.cells = s.world.cells := by
  cases r with
  | install plan ticket => exact settle_cells _ _ _
  | _ => exact settleAll_cells _ _ _

theorem refuseAll_cells (s : System) (requests : List Request) (e : Error) :
    (requests.foldl (fun s r => s.refuse r e) s).world.cells = s.world.cells := by
  induction requests generalizing s with
  | nil => rfl
  | cons r rest ih => exact (ih _).trans (refuse_cells s r e)

theorem sendAll_cells (s : System) (requests : List Request) :
    (s.sendAll requests).world.cells = s.world.cells := by
  have hsend : ∀ (s : System) (r : Request), (s.send r).world.cells = s.world.cells := by
    intro s r
    unfold System.send
    split
    · exact refuse_cells s r _
    · rw [wake_world]
  unfold sendAll
  induction requests generalizing s with
  | nil => rfl
  | cons r rest ih => exact (ih _).trans (hsend s r)

theorem applyGraph_world (s : System) (outcome : Graph.Outcome) :
    (s.applyGraph outcome).world = s.world :=
  (operates_applyGraph s outcome).world

theorem process_cells (s : System) (r : Request) :
    (s.process r).world.cells = s.world.cells := by
  cases r with
  | install plan ticket =>
      show (s.install plan ticket).world.cells = _
      unfold System.install
      split
      · exact refuse_cells s _ _
      · split
        · exact refuse_cells s _ _
        · exact congrArg World.cells (operates_install s plan ticket).world
  | remove name ticket =>
      show (s.remove name ticket).world.cells = _
      unfold System.remove
      split
      · exact congrArg World.cells (applyGraph_world s _)
      · exact settle_cells s _ _
  | has name ticket | state name ticket | text ticket => exact settle_cells s _ _
  | close ticket =>
      show (s.close ticket).world.cells = _
      rw [close_eq]
      split
      · exact settle_cells s _ _
      · rw [closeIfEmpty_world, requestRemovals_world]
        rfl
  | report name state value =>
      show (s.acceptReport name state value).world.cells = _
      rw [acceptReport_eq]
      dsimp only
      split
      · rw [closeIfEmpty_world, settleAll_cells]
        exact congrArg World.cells (applyGraph_world s _)
      · rw [applyGraph_world]

theorem shutDown_cells (s : System) : s.shutDown.world.cells = s.world.cells := by
  unfold System.shutDown
  dsimp only
  split
  · rw [settleAll_cells]
    exact refuseAll_cells _ _ _
  · exact refuseAll_cells _ _ _

/-- The container touches no slot. -/
theorem receive_cells (s : System) : s.receive.world.cells = s.world.cells := by
  cases hi : s.container.inbox with
  | nil => simp [System.receive, hi]
  | cons r rest =>
      rw [receive_eq hi]
      dsimp only
      split
      · rw [shutDown_cells, process_cells]
      · rw [process_cells]

theorem finish_cells (s : System) : s.finish.world.cells = s.world.cells := by
  unfold System.finish
  dsimp only
  rw [settleAll_cells, settleAll_cells]
  rfl

theorem endController_cells (s : System) (id : Nat) (c : Controller) :
    (s.endController id c).world.cells = s.world.cells := by
  unfold endController
  rw [noticeEnd_world, settleAll_cells]
  rfl

theorem applyTurn_cells (s : System) (id : Nat) (t : Turn) :
    (s.applyTurn id t).world.cells = t.world.cells := by
  obtain ⟨before, after, hworld, -, hcells, -, -, happly⟩ := applyTurn_stages s id t
  have hsent : (after.sendAll t.reported.toList).world.cells = t.world.cells := by
    rw [sendAll_cells, hcells, sendAll_cells, hworld]
  rw [happly]
  split
  · exact (endController_cells _ _ _).trans hsent
  · exact hsent

end System

end ServiceHost

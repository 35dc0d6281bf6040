import ServiceHost.Proofs.System.Ledger

/-! # What the container does not touch

The container settles promises and logs. It leaves the cells and the journal alone, sets no timer,
and has nothing to do with tasks. -/

namespace ServiceHost

/-- Two worlds that only differ in promises and in the log. -/
structure World.Spared (w w' : World) : Prop where
  clock : w'.clock = w.clock
  round : w'.round = w.round
  timers : w'.timers = w.timers
  cells : w'.cells = w.cells
  journal : w'.journal = w.journal

namespace World.Spared

variable {w w' w'' : World}

theorem refl (w : World) : w.Spared w := ⟨rfl, rfl, rfl, rfl, rfl⟩

theorem trans (h : w.Spared w') (h' : w'.Spared w'') : w.Spared w'' :=
  ⟨h'.clock.trans h.clock, h'.round.trans h.round, h'.timers.trans h.timers,
    h'.cells.trans h.cells, h'.journal.trans h.journal⟩

theorem settle (w : World) (k : Ticket) (o : Except Error Answer) : w.Spared (w.settle k o) := by
  unfold World.settle
  split
  · exact refl w
  · split
    · exact ⟨rfl, rfl, rfl, rfl, rfl⟩
    · exact refl w

theorem log (w : World) (level : Level) (message : String) : w.Spared (w.log level message) :=
  ⟨rfl, rfl, rfl, rfl, rfl⟩

end World.Spared

namespace System

/-- A step that leaves the tasks alone, and of the world all but promises and the log. -/
structure Spares (s s' : System) : Prop where
  world : s.world.Spared s'.world
  tasks : s'.tasks = s.tasks
  cancelled : s'.cancelled = s.cancelled

variable {s s' s'' : System}

namespace Spares

theorem refl (s : System) : s.Spares s := ⟨.refl _, rfl, rfl⟩

theorem trans (h : s.Spares s') (h' : s'.Spares s'') : s.Spares s'' :=
  ⟨h.world.trans h'.world, h'.tasks.trans h.tasks, h'.cancelled.trans h.cancelled⟩

theorem of_unmoved (h : s.Unmoved s') (hw : s.world.Spared s'.world) : s.Spares s' :=
  ⟨hw, h.tasks, h.cancelled⟩

theorem of_operates {outcome : Graph.Outcome} (h : s.Operates outcome s') : s.Spares s' :=
  ⟨h.world ▸ .refl _, h.tasks, h.cancelled⟩

end Spares

variable (s)

theorem spares_log (level : Level) (message : String) : s.Spares (s.log level message) :=
  ⟨.log _ _ _, rfl, rfl⟩

theorem spares_settle (k : Ticket) (o : Except Error Answer) : s.Spares (s.settle k o) :=
  .of_unmoved (unmoved_settle s k o) (by rw [settle_world]; exact .settle _ _ _)

theorem spares_settleAll (tickets : List Ticket) (o : Except Error Answer) :
    s.Spares (s.settleAll tickets o) := by
  unfold settleAll
  induction tickets generalizing s with
  | nil => exact .refl s
  | cons k tickets ih => exact (spares_settle s k o).trans (ih _)

theorem spares_refuse (r : Request) (e : Error) : s.Spares (s.refuse r e) := by
  unfold refuse
  split
  · exact (spares_log s _ _).trans (spares_settle _ _ _)
  · exact spares_settleAll s _ _

theorem spares_refuseAll (requests : List Request) (e : Error) :
    s.Spares (requests.foldl (fun s r => s.refuse r e) s) := by
  induction requests generalizing s with
  | nil => exact .refl s
  | cons r requests ih => exact (spares_refuse s r e).trans (ih _)

theorem spares_send (r : Request) : s.Spares (s.send r) := by
  unfold send
  split
  · exact spares_refuse s r _
  · exact ⟨by rw [wake_world]; exact .refl _, wake_tasks _ _, wake_cancelled _ _⟩

theorem spares_sendAll (requests : List Request) : s.Spares (s.sendAll requests) := by
  unfold sendAll
  induction requests generalizing s with
  | nil => exact .refl s
  | cons r requests ih => exact (spares_send s r).trans (ih _)

theorem spares_noticeEnd : s.Spares s.noticeEnd :=
  .of_unmoved (unmoved_noticeEnd s) (by rw [noticeEnd_world]; exact .refl _)

theorem spares_closeIfEmpty : s.Spares s.closeIfEmpty := by
  unfold closeIfEmpty
  split
  · exact ⟨.refl _, rfl, rfl⟩
  · exact .refl s

theorem spares_applyGraph (outcome : Graph.Outcome) : s.Spares (s.applyGraph outcome) :=
  .of_operates (operates_applyGraph s outcome)

theorem spares_requestRemovals (names : List Name) : s.Spares (s.requestRemovals names) := by
  unfold requestRemovals
  induction names generalizing s with
  | nil => exact .refl s
  | cons a names ih => exact (spares_applyGraph s _).trans (ih _)

theorem spares_install (plan : Plan) (ticket : Ticket) : s.Spares (s.install plan ticket) := by
  unfold System.install
  split
  · exact spares_refuse s _ _
  · split
    · exact spares_refuse s _ _
    · have hlaunch : s.Spares
          { s with controllers := s.controllers ++ [Controller.launch plan ticket] } :=
        ⟨.refl _, rfl, rfl⟩
      exact hlaunch.trans (.of_operates (operates_install s plan ticket))

theorem spares_remove (name : Name) (ticket : Ticket) : s.Spares (s.remove name ticket) := by
  unfold System.remove
  split
  · exact (spares_applyGraph s _).trans ⟨.refl _, rfl, rfl⟩
  · exact spares_settle s _ _

theorem spares_close (ticket : Ticket) : s.Spares (s.close ticket) := by
  rw [close_eq]
  split
  · exact spares_settle s _ _
  · have hbegin : s.Spares (s.beginClosing ticket) := ⟨.log _ _ _, rfl, rfl⟩
    exact (hbegin.trans (spares_requestRemovals _ _)).trans (spares_closeIfEmpty _)

theorem spares_acceptReport (name : Name) (state : State) (value : Option Value) :
    s.Spares (s.acceptReport name state value) := by
  rw [acceptReport_eq]
  have hgraph := spares_applyGraph s (s.container.graph.report name state value)
  dsimp only
  generalize s.applyGraph (s.container.graph.report name state value) = s₁ at hgraph
  split
  · have hfree : s₁.Spares (s₁.freeRemovals name) := ⟨.refl _, rfl, rfl⟩
    exact ((hgraph.trans hfree).trans (spares_settleAll _ _ _)).trans (spares_closeIfEmpty _)
  · exact hgraph

theorem spares_process (r : Request) : s.Spares (s.process r) := by
  cases r with
  | install plan ticket => exact spares_install s plan ticket
  | remove name ticket => exact spares_remove s name ticket
  | has name ticket | state name ticket | text ticket => exact spares_settle s _ _
  | close ticket => exact spares_close s ticket
  | report name state value => exact spares_acceptReport s name state value

/-- The container stops taking requests and turns down those left before it. -/
def turnDown : System := s.container.inbox.foldl (fun s r => s.refuse r refusal)
  { s with container := { s.container with stage := .closed, inbox := [] } }

/-- The container ends where it is and gives up the promises it holds. -/
def endForced : System :=
  { s.log .warn "⚠️  Service container was closed forcefully" with
    container := { s.container with ended := true, removals := ∅, closing := [] } }.settleAll
      (s.container.removals.values.flatten ++ s.container.closing) (.error .abandoned)

theorem shutDown_eq_ite :
    s.shutDown = if s.turnDown.cancelled then s.turnDown.endForced else s.turnDown := rfl

theorem spares_turnDown : s.Spares s.turnDown := by
  unfold turnDown
  refine Spares.trans ?_ (spares_refuseAll _ _ _)
  exact ⟨.refl _, rfl, rfl⟩

theorem spares_endForced : s.Spares s.endForced := by
  unfold endForced
  refine Spares.trans ?_ (spares_settleAll _ _ _)
  exact ⟨.log _ _ _, rfl, rfl⟩

theorem spares_shutDown : s.Spares s.shutDown := by
  rw [shutDown_eq_ite]
  split
  · exact (spares_turnDown s).trans (spares_endForced _)
  · exact spares_turnDown s

theorem spares_receive : s.Spares s.receive := by
  unfold System.receive
  split
  · exact .refl s
  · next r rest _ =>
      have htaken : s.Spares { s with container := { s.container with inbox := rest } } :=
        ⟨.refl _, rfl, rfl⟩
      dsimp only
      split
      · exact (htaken.trans (spares_process _ r)).trans (spares_shutDown _)
      · exact htaken.trans (spares_process _ r)

theorem spares_finish : s.Spares s.finish := by
  unfold System.finish
  refine Spares.trans ?_ (spares_settleAll _ _ _)
  refine Spares.trans ?_ (spares_settleAll _ _ _)
  exact ⟨.log _ _ _, rfl, rfl⟩

theorem spares_endController (id : Nat) (c : Controller) : s.Spares (s.endController id c) := by
  have hset : s.Spares
      (s.setController id { c with ended := true, inbox := [], install := none }) :=
    ⟨.refl _, rfl, rfl⟩
  exact (hset.trans (spares_settleAll _ _ _)).trans (spares_noticeEnd _)

end System

end ServiceHost

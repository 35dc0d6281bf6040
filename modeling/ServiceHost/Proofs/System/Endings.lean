import ServiceHost.Proofs.System.Bookkeeping
import ServiceHost.Proofs.System.Closing
import ServiceHost.Proofs.System.Replies
import ServiceHost.Proofs.System.Waits

/-! # Once nothing is under way

Unless everyone is told to stop, work that nobody waits for has come to an end. So once nothing is
under way a container that was asked to close is closed, with everything removed and stopped, and
only those who installed a service that waits are left without an answer. -/

namespace ServiceHost

/-- Work that may be called off does not block. -/
theorem blocking_of_completion? {actions : List Action} {work : Completion}
    (h : completion? actions = some (work, true)) : work.blocking = false := by
  obtain ⟨action, -, haction⟩ := List.exists_of_findSome?_eq_some h
  cases action with
  | runAsync => exact (Prod.mk.inj (Option.some.inj haction)).1 ▸ rfl
  | run => simp [Action.completion?] at haction
  | _ => cases haction

namespace System

variable {s : System} {k : Ticket} {i : Nat} {c : Controller} {happened : List Stimulus}

/-! ## Work that nobody waits for -/

/-- Only work that does not block is unwanted while its end is waited for. -/
theorem blocking_of_unwanted (hx : ∀ x ∈ happened, x ≠ .cancel) {t : Task}
    (ht : t ∈ (initial.run happened).tasks) (hw : t.watched = true) (hun : t.unwanted = true) :
    t.work.blocking = false := by
  obtain ⟨k, hk⟩ := List.getElem?_of_mem ht
  have hc := List.getElem?_eq_getElem (owner_lt_run hx t ht)
  have haccount := (allAccounted_run hx).known hc t.phase
  have htask : taskOf? (initial.run happened).tasks t.owner t.phase k = some t :=
    taskOf?_eq_some.mpr ⟨hk, rfl, rfl⟩
  obtain ⟨-, -, -, -, -, hcut⟩ := haccount.pending_of htask hw
  obtain ⟨-, -, interruptible, hasks⟩ := haccount.works htask
  obtain ⟨-, work, hasked⟩ := hcut hun
  obtain ⟨hwork, -⟩ := Prod.mk.inj (Option.some.inj (hasked.symm.trans hasks))
  exact hwork ▸ blocking_of_completion? hasked

/-- Unless everyone is told to stop, work that nobody waits for has come to an end. -/
theorem done_run (hx : ∀ x ∈ happened, x ≠ .cancel) {k : Nat} {t : Task}
    (ht : (initial.run happened).tasks[k]? = some t) (hw : t.watched = false) : t.Done := by
  induction happened using List.reverseRecOn generalizing k t with
  | nil => simp [initial, run] at ht
  | append_singleton happened x ih =>
      have hbefore : ∀ y ∈ happened, y ≠ .cancel := fun y hy => hx y (List.mem_append_left _ hy)
      have hb := taskBefalls_apply (initial.run happened) x k
      rw [← run_snoc, ht] at hb
      generalize hpast : (initial.run happened).tasks[k]? = past at hb
      cases hb with
      | kept hs hwork hw' =>
          have hdone := ih hbefore hpast (hw'.symm.trans hw)
          rwa [Task.Done, ← hs] at hdone
      | alarmed t => exact (ih hbefore hpast hw).alarm
      | ran t hx ht hcan =>
          have hdone := ih hbefore hpast ((t.run_watched k _).symm.trans hw)
          simp [hdone.not_canRun] at hcan
      | joined t hw ho => exact done_of_outcome ho
      | calledOff t hmove hwatched hoff =>
          have hun := hoff.resolve_right (by simp [(orderly_run hbefore).uncancelled])
          refine Task.done_callOff ?_
          simp [Task.isBusy, blocking_of_unwanted hbefore (List.mem_of_getElem? hpast) hwatched hun]
      | launched hl hs hw' =>
          rw [hw'] at hw
          contradiction

/-! ## A container that was asked to close -/

/-- Nothing is under way any more, and the container does not have its own end before it. -/
structure AtRest (s : System) : Prop extends s.Settled where
  finished : s.canMove .finish = false

instance (s : System) : Decidable s.AtRest :=
  decidable_of_iff (s.Settled ∧ s.canMove .finish = false)
    ⟨fun h => ⟨h.1, h.2⟩, fun h => ⟨h.toSettled, h.finished⟩⟩

theorem isQuiet_of_settled (hx : ∀ x ∈ happened, x ≠ .cancel)
    (hs : (initial.run happened).Settled)
    (hnone : ∀ m : Name, (initial.run happened).container.graph.nodes[m]? = none) :
    (initial.run happened).isQuiet = true := by
  unfold System.isQuiet
  rw [Bool.and_eq_true, List.all_eq_true, List.all_eq_true]
  refine ⟨fun c hc => ?_, fun t ht => ?_⟩
  · obtain ⟨i, hi⟩ := List.getElem?_of_mem hc
    refine (((orderly_run hx).steady hs).ended hi ?_).2
    rintro m ⟨n, hn, _⟩
    simp [hnone m] at hn
  · obtain ⟨k, hk⟩ := List.getElem?_of_mem ht
    have hwatched := hs.completions t ht
    exact Task.isOver_iff.mpr ⟨hwatched, done_run hx hk hwatched⟩

/-- Everything is removed and stopped, and whoever asked for it was told so: `k` is the promise made
for the request to close. -/
structure Drained (happened : List Stimulus) (k : Ticket) : Prop where
  empty : (initial.run happened).container.graph.isEmpty = true
  closed : (initial.run happened).container.stage = .closed
  ended : ∀ c ∈ (initial.run happened).controllers, c.state = .removed ∧ c.ended = true
  kept : (initial.run happened).world.outcome? k = some (.ok .done)
  removed : ∀ {before after : List Stimulus} {name : Name} {j : Ticket} {rest : List Request},
    happened = before ++ .move .receive :: after →
    (initial.run before).container.isServing = true →
    (initial.run before).container.inbox = .remove name j :: rest →
    (initial.run happened).world.outcome? j = some (.ok .done)
  asked : ∀ {before after : List Stimulus} {name : Name} {j : Ticket},
    happened = before ++ after → .remove name j ∈ (initial.run before).container.inbox →
    (initial.run happened).world.outcome? j = some (.ok .done) ∨
      (initial.run happened).world.outcome? j = some (.error refusal)
  stopped : ∀ i : Nat, .injectAndStart ∈ initial.trace happened i →
    .failStart .failed ∉ initial.trace happened i →
    (initial.trace happened i).countP Effect.isStop = 1

/-- A container that is asked to close is closed and has ended once nothing is under way. -/
theorem ended_of_atRest (hx : ∀ x ∈ happened, x ≠ .cancel) (hr : (initial.run happened).AtRest)
    (hc : (initial.run happened).IsClosing) :
    (initial.run happened).container.stage = .closed ∧
      (initial.run happened).container.ended = true := by
  have hs := hr.toSettled
  have ho := orderly_run hx
  have hst := hc.resolve_left (hs.not_closing ho)
  have hnone := (ho.unserved (by simp [Container.isServing, hst])).1
  refine ⟨hst, ?_⟩
  have hfinish := hr.finished
  simpa [canMove, hst, isQuiet_of_settled hx hs hnone] using hfinish

/-- What the container took on before it ended is done. -/
theorem EndsFree.kept (h : (s.run happened).EndsFree)
    (ho : s.Onward (s.run happened)) (he : (s.run happened).container.ended = true)
    (hk : s.Holds k ∨ s.world.status k = some (some (.ok .done))) :
    (s.run happened).world.outcome? k = some (.ok .done) := by
  rw [World.outcome?_eq_some]
  rcases hk with hk | hk
  · exact (ho.held hk).resolve_left ((h he).2 k)
  · exact ho.settled hk

/-- What an ended container took on by receiving a request is done. -/
theorem kept_of_receive {before after : List Stimulus} {r : Request} {rest : List Request}
    (hx : ∀ x ∈ before ++ .move .receive :: after, x ≠ .cancel)
    (hs : (initial.run before).container.isServing = true)
    (hi : (initial.run before).container.inbox = r :: rest)
    (he : (initial.run (before ++ .move .receive :: after)).container.ended = true)
    (hk : (initial.run before).receive.Holds k ∨
      (initial.run before).receive.world.status k = some (some (.ok .done))) :
    (initial.run (before ++ .move .receive :: after)).world.outcome? k = some (.ok .done) := by
  have hfree := endsFree_run hx
  have hxb : ∀ x ∈ before, x ≠ .cancel := fun x hxb => hx x (List.mem_append_left _ hxb)
  have hxa : ∀ x ∈ after, x ≠ .cancel := fun x hxa =>
    hx x (List.mem_append_right _ (List.mem_cons_of_mem _ hxa))
  have ho := orderly_run hxb
  have hstep : Step (initial.run before) (.move .receive) _ := .received _ _ hs hi
  have hledger := ((ledger_run hxb).step ho hstep).1
  rw [run_receive hs hi] at hfree he ⊢
  exact hfree.kept (hledger.run (ho.step hstep) hxa).2 he hk

/-- Every controller of an empty system at rest has ended. -/
theorem AtRest.removed (hr : s.AtRest) (h : s.Orderly)
    (hnone : ∀ m : Name, s.container.graph.nodes[m]? = none) {i : Nat}
    (hc : s.controllers[i]? = some c) : c.state = .removed ∧ c.ended = true := by
  refine (h.steady hr.toSettled).ended hc ?_
  rintro m ⟨n, hn, _⟩
  simp [hnone m] at hn

/-- Whatever is going on when an open container takes a request to close, and whatever happens
afterwards: once the system is at rest, everything has drained. -/
theorem drained_of_atRest {before after : List Stimulus} {k : Ticket} {rest : List Request}
    (hx : ∀ x ∈ before ++ .move .receive :: after, x ≠ .cancel)
    (hst : (initial.run before).container.stage = .opened)
    (hi : (initial.run before).container.inbox = .close k :: rest)
    (hr : (initial.run (before ++ .move .receive :: after)).AtRest) :
    Drained (before ++ .move .receive :: after) k := by
  have hserving := isServing_iff.mpr (.inl hst)
  have ho := orderly_run hx
  have hpast : ∀ {past future : List Stimulus},
      before ++ .move .receive :: after = past ++ future → ∀ x ∈ past, x ≠ .cancel := by
    intro past future hsplit x hxp
    exact hx x (hsplit ▸ List.mem_append_left _ hxp)
  have hfuture : ∀ {past future : List Stimulus},
      before ++ .move .receive :: after = past ++ future → ∀ x ∈ future, x ≠ .cancel := by
    intro past future hsplit x hxf
    exact hx x (hsplit ▸ List.mem_append_right _ hxf)
  have hclosing : (initial.run (before ++ .move .receive :: after)).IsClosing := by
    have hop := orderly_run (hpast rfl)
    rw [run_receive hserving hi]
    refine (isClosing_receive hop hst hi).run (hop.step (.received _ _ hserving hi)) ?_
    exact fun x hxr => hfuture rfl x (List.mem_cons_of_mem _ hxr)
  obtain ⟨hclosed, hended⟩ := ended_of_atRest hx hr hclosing
  have hnone := (ho.unserved (by simp [Container.isServing, hclosed])).1
  refine ⟨Graph.isEmpty_iff.mpr hnone, hclosed, fun c hc => ?_, ?_, ?_, ?_, fun i => ?_⟩
  · obtain ⟨i, hi⟩ := List.getElem?_of_mem hc
    exact hr.removed ho hnone hi
  · have hkept := (ledger_run (hpast rfl)).onward_close (orderly_run (hpast rfl)) hst hi
    exact kept_of_receive hx hserving hi hended hkept
  · intro past future name j rest hsplit hserving hinbox
    have hkept := (ledger_run (hpast hsplit)).onward_remove (orderly_run (hpast hsplit)) hserving
      hinbox
    rw [hsplit] at hx hended ⊢
    exact kept_of_receive hx hserving hinbox hended hkept
  · intro past future name j hsplit hmem
    have hon := ((ledger_run (hpast hsplit)).run (orderly_run (hpast hsplit)) (hfuture hsplit)).2
    have hj := hon.asked hmem
    rw [← run_append, ← hsplit] at hj
    rw [World.outcome?_eq_some, World.outcome?_eq_some]
    rcases hj with hj | hj | hj | hj
    · simp [hr.requests] at hj
    · exact absurd hj ((endsFree_run hx hended).2 j)
    · exact .inl hj
    · exact .inr hj
  · exact stopped_of_removed hx fun hc => (hr.removed ho hnone hc).1

/-- A container with two started services is asked to close, and then to remove one of them. -/
def pairCloses : List Stimulus :=
  pairStarts ++ [.request (.request 3) .close, .request (.request 4) (.remove "base")]

/-- The services are stopped one after the other. -/
def pairStops : List Stimulus :=
  [.move .receive, .move (.take 0), .move .receive, .move (.take 0), .move (.take 1),
    .move .receive, .move (.take 1), .move .receive, .move (.take 1), .move .receive,
    .move (.take 0), .move .receive, .move (.take 0), .move .receive, .move (.take 0),
    .move (.take 1), .move .finish]

theorem drained_pairStops :
    (∀ x ∈ pairCloses ++ .move .receive :: pairStops, x ≠ .cancel) ∧
    (initial.run pairCloses).container.stage = .opened ∧
    (∃ rest, (initial.run pairCloses).container.inbox = .close 2 :: rest) ∧
    (initial.run (pairCloses ++ .move .receive :: pairStops)).AtRest ∧
    Drained (pairCloses ++ .move .receive :: pairStops) 2 := by
  have hx : ∀ x ∈ pairCloses ++ .move .receive :: pairStops, x ≠ .cancel := by
    simp [pairCloses, pairStarts, pairStops]
  have hst : (initial.run pairCloses).container.stage = .opened := by decide +kernel
  have hi : ∃ rest, (initial.run pairCloses).container.inbox = .close 2 :: rest := by
    have h : ((initial.run pairCloses).container.inbox.head?.map fun r =>
        (r.operation, r.ticket?)) = some ("close service container", some 2) := by decide +kernel
    obtain ⟨r, hr, hclose⟩ := Option.map_eq_some_iff.mp h
    have hclose : r = .close 2 := by
      cases r <;> simp_all [Request.operation, Request.ticket?]
    exact List.head?_eq_some_iff.mp (hclose ▸ hr)
  have hr : (initial.run (pairCloses ++ .move .receive :: pairStops)).AtRest := by decide +kernel
  obtain ⟨rest, hinbox⟩ := hi
  exact ⟨hx, hst, ⟨rest, hinbox⟩, hr, drained_of_atRest hx hst hinbox hr⟩

/-- A container without services is asked to close, and then to remove something. -/
def lateRemoval : List Stimulus :=
  [.request (.request 0) .start, .request (.request 1) .close, .request (.request 2) (.remove "x")]

/-- Not every removal asked for is carried out: a closed container turns down the requests still
before it. -/
theorem not_removed_of_asked : ¬∀ (before after : List Stimulus) (k j : Ticket) (name : Name)
    (rest : List Request), (∀ x ∈ before ++ .move .receive :: after, x ≠ .cancel) →
    (initial.run before).container.stage = .opened →
    (initial.run before).container.inbox = .close k :: rest → .remove name j ∈ rest →
    (initial.run (before ++ .move .receive :: after)).AtRest →
    (initial.run (before ++ .move .receive :: after)).world.outcome? j = some (.ok .done) := by
  intro h
  have hkept := h lateRemoval [.move .finish] 0 1 "x" [.remove "x" 1] (by simp [lateRemoval])
    (by decide +kernel) rfl List.mem_cons_self (by decide +kernel)
  revert hkept
  decide +kernel

/-! ## Promises without an answer -/

/-- How promises fare in a run: an open one is in one hand, once, and a settled one in none. -/
structure AnsweredOnce (happened : List Stimulus) : Prop where
  once : ∀ k, (initial.run happened).hands.count k =
    if (initial.run happened).world.status k = some none then 1 else 0
  fixed : ∀ {before after : List Stimulus} {k : Ticket} {o : Except Error Answer},
    happened = before ++ after → (initial.run before).world.outcome? k = some o →
    (initial.run happened).world.outcome? k = some o
  answered : ∀ k, (initial.run happened).world.outcome? k ≠ some (.error .abandoned)
  removed : ∀ {name : Name} {i : Nat} {k : Ticket}, RemovalOf happened name i k →
    ((initial.run happened).world.outcome? k = some (.ok .done) ↔
      ¬(initial.run happened).container.graph.Hosts name i) ∧
    ((initial.run happened).world.outcome? k = none ↔
      (initial.run happened).container.graph.Hosts name i)
  settled : (initial.run happened).Settled → ∀ k,
    (initial.run happened).world.status k = some none ↔ InstallWaits happened k ∨
      (k ∈ (initial.run happened).container.closing ∧
        (initial.run happened).canMove .finish = true)
  atRest : (initial.run happened).AtRest → ∀ k,
    (initial.run happened).world.status k = some none ↔ InstallWaits happened k

/-- Once nothing is under way, the container has nothing to keep but to come to its own end. -/
theorem holds_of_settled (hx : ∀ x ∈ happened, x ≠ .cancel) (hs : (initial.run happened).Settled)
    (hk : (initial.run happened).Holds k) : k ∈ (initial.run happened).container.closing ∧
      (initial.run happened).canMove .finish = true := by
  have ho := orderly_run hx
  obtain ⟨name, hk⟩ := hk
  cases name with
  | none =>
      refine ⟨hk, ?_⟩
      have hst : (initial.run happened).container.stage = .closed := by
        rcases undisturbed_run hx with hc | hc
        · exact hc.resolve_left (hs.not_closing ho)
        · simp [Container.held, hc] at hk
      have hquiet :=
        isQuiet_of_settled hx hs (ho.unserved (by simp [Container.isServing, hst])).1
      have hended : (initial.run happened).container.ended = false := by
        by_contra he
        exact (endsFree_run hx (by simpa using he)).2 k ⟨none, hk⟩
      simp [canMove, hst, hended, hquiet]
  | some name =>
      have hmem : name ∈ (initial.run happened).container.removals := by
        rw [Std.ExtTreeMap.mem_iff_isSome_getElem?, Option.isSome_iff_ne_none]
        intro hnone
        simp [Container.held, hnone] at hk
      obtain ⟨n, hn, hst⟩ := sought_run hx hmem
      obtain ⟨_, _, _, _, hno, _⟩ := (ho.steady hs).installed hn
      simp [hst] at hno

theorem Settled.unanswered (hx : ∀ x ∈ happened, x ≠ .cancel)
    (hs : (initial.run happened).Settled) (k : Ticket) :
    (initial.run happened).world.status k = some none ↔ InstallWaits happened k ∨
      (k ∈ (initial.run happened).container.closing ∧
        (initial.run happened).canMove .finish = true) := by
  have ho := orderly_run hx
  have howned := owned_run hx
  rw [← howned.mem_hands]
  simp only [hands, List.mem_append]
  constructor
  · rintro (((hk | hk) | hk) | hk)
    · simp [Container.tickets, hs.requests] at hk
    · obtain ⟨⟨name, tickets⟩, hmem, hk⟩ := List.mem_flatMap.mp hk
      rw [Std.ExtTreeMap.mem_toList_iff_getElem?_eq_some] at hmem
      have hheld : (initial.run happened).Holds k := ⟨some name, by simpa [Container.held, hmem]⟩
      exact .inr (holds_of_settled hx hs hheld)
    · exact .inr (holds_of_settled hx hs ⟨none, hk⟩)
    · obtain ⟨c, hmem, hk⟩ := List.mem_filterMap.mp hk
      obtain ⟨i, hc⟩ := List.getElem?_of_mem hmem
      obtain ⟨name, n, hn, rfl, hw⟩ := hs.hosted_of_install ho (owes_run hx hc) hc hk
      obtain ⟨j, hlaunched, hinstall⟩ := launchedBy_run hx hc
      exact .inl ⟨name, n, c.plan, hn, hw, hlaunched.mpr ⟨rfl, hinstall k hk⟩⟩
  · rintro (⟨name, n, plan, hn, hw, hlaunched⟩ | ⟨hk, _⟩)
    · obtain ⟨c, hc, _, hsame, _⟩ := (ho.steady hs).installed hn
      obtain ⟨j, hj, hinstall⟩ := launchedBy_run hx hc
      have howes : c.install.isSome = true :=
        (owes_run hx hc).mpr (by simp [hsame, hw, State.phase])
      obtain ⟨l, hl⟩ := Option.isSome_iff_exists.mp howes
      refine .inr (List.mem_filterMap.mpr ⟨c, List.mem_of_getElem? hc, ?_⟩)
      rw [hl, hinstall l hl, (hj.mp hlaunched).2]
    · exact .inl (.inr hk)

/-- Whatever happens, short of being told to stop where it is: every promise is answered once, and
only those to the installers of waiting services are left open when nothing is under way. -/
theorem answeredOnce_run (hx : ∀ x ∈ happened, x ≠ .cancel) :
    AnsweredOnce happened := by
  have howned := owned_run hx
  refine ⟨howned.once, ?_, ?_, ?_, fun hs => hs.unanswered hx, fun hr k => ?_⟩
  · intro before after k o hsplit hk
    have hxb : ∀ x ∈ before, x ≠ .cancel := fun x hxb =>
      hx x (hsplit ▸ List.mem_append_left _ hxb)
    have hxa : ∀ x ∈ after, x ≠ .cancel := fun x hxa =>
      hx x (hsplit ▸ List.mem_append_right _ hxa)
    rw [World.outcome?_eq_some] at hk ⊢
    rw [hsplit, run_append]
    exact ((ledger_run hxb).run (orderly_run hxb) hxa).2.settled hk
  · intro k
    rw [ne_eq, World.outcome?_eq_some]
    exact howned.answered k
  · intro name i k hk
    have hb := hk.bound hx
    by_cases hh : (initial.run happened).container.graph.Hosts name i
    · have hopen : (initial.run happened).world.outcome? k = none :=
        World.outcome?_eq_none ((ledger_run hx).held ⟨some name, hb.held hh⟩).1
      simp [hopen, hh]
    · simp [World.outcome?_eq_some.mpr (hb.kept hh), hh]
  · rw [hr.toSettled.unanswered hx k, or_iff_left]
    rintro ⟨_, hfinish⟩
    simp [hr.finished] at hfinish

theorem answeredOnce_pairStops : (∀ x ∈ pairCloses ++ .move .receive :: pairStops, x ≠ .cancel) ∧
    AnsweredOnce (pairCloses ++ .move .receive :: pairStops) := by
  have hx : ∀ x ∈ pairCloses ++ .move .receive :: pairStops, x ≠ .cancel := by
    simp [pairCloses, pairStarts, pairStops]
  exact ⟨hx, answeredOnce_run hx⟩

end System

end ServiceHost

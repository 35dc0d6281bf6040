import ServiceHost.Proofs.System.Orderly

/-! # Promises

A promise is made once, and settled at most once. What each part of a step settles is told by the
tickets it may concern. -/

namespace ServiceHost

/-- How far a promise has come, if it was made. -/
def World.status (w : World) (k : Ticket) : Option (Option (Except Error Answer)) :=
  w.pledges[k]?.map (·.promise.outcome)

/-- Some promises were settled, all of them among those of certain tickets. -/
structure Settles (P : Ticket → Prop) (w w' : World) : Prop where
  length : w'.pledges.length = w.pledges.length
  kept : ∀ {k : Ticket}, ¬P k → w'.status k = w.status k
  settled : ∀ {k : Ticket} {o : Except Error Answer}, w.status k = some (some o) →
    w'.status k = some (some o)

variable {w w' w'' : World} {P Q : Ticket → Prop} {j k : Ticket} {o : Except Error Answer}

theorem World.outcome?_eq_some : w.outcome? k = some o ↔ w.status k = some (some o) := by
  unfold outcome? status
  cases w.pledges[k]? <;> simp

theorem World.status_eq_none : w.status k = none ↔ w.pledges.length ≤ k := by
  simp [status]

theorem World.status_congr (h : w'.pledges = w.pledges) : w'.status k = w.status k := by
  rw [status, status, h]

/-- Only an open promise is settled. -/
theorem World.status_settle (w : World) (j k : Ticket) (o : Except Error Answer) :
    (w.settle j o).status k =
      if j = k ∧ w.status k = some none then some (some o) else w.status k := by
  unfold settle status
  cases hj : w.pledges[j]? with
  | none =>
      dsimp only
      rw [if_neg]
      rintro ⟨rfl, h⟩
      simp [hj] at h
  | some p =>
      obtain ⟨hlt, rfl⟩ := List.getElem?_eq_some_iff.mp hj
      dsimp only
      by_cases hjk : j = k
      · subst hjk
        cases hp : w.pledges[j].promise.outcome <;>
          simp [hp, hlt, Promise.isOpen, Promise.settle]
      · split
        · simp [hjk]
        · simp [hjk]

namespace Settles

theorem of_eq (h : w'.pledges = w.pledges) : Settles P w w' :=
  ⟨by rw [h], fun _ => World.status_congr h, fun hs => (World.status_congr h).trans hs⟩

theorem trans (h : Settles P w w') (h' : Settles P w' w'') : Settles P w w'' :=
  ⟨h'.length.trans h.length, fun hk => (h'.kept hk).trans (h.kept hk),
    fun hs => h'.settled (h.settled hs)⟩

theorem mono (h : Settles P w w') (hPQ : ∀ k, P k → Q k) : Settles Q w w' :=
  ⟨h.length, fun hk => h.kept fun hp => hk (hPQ _ hp), h.settled⟩

theorem settle (w : World) (j : Ticket) (o : Except Error Answer) :
    Settles (· = j) w (w.settle j o) := by
  refine ⟨?_, fun {k} hk => ?_, fun {k o'} hs => ?_⟩
  · unfold World.settle
    split
    · rfl
    · split
      · simp
      · rfl
  · rw [World.status_settle, if_neg fun h => hk h.1.symm]
  · rw [World.status_settle, hs, if_neg (by simp)]

end Settles

/-! ## Promises made -/

namespace Asked

variable {l : List Request}

theorem filterMap_ticket (h : Asked w l w') :
    l.filterMap Request.ticket? = List.range' w.pledges.length l.length := by
  have := congrArg (List.filterMap id) h.tickets
  simpa [List.filterMap_map] using this

theorem status_of_lt (h : Asked w l w') (hk : k < w.pledges.length) : w'.status k = w.status k := by
  obtain ⟨made, hw, _⟩ := h.pledges
  rw [World.status, World.status, hw, List.getElem?_append_left hk]

theorem length_le (h : Asked w l w') : w.pledges.length ≤ w'.pledges.length := by
  obtain ⟨made, hw, _⟩ := h.pledges
  simp [hw]

theorem length (h : Asked w l w') : w'.pledges.length = w.pledges.length + l.length := by
  obtain ⟨made, hw, hlen, _⟩ := h.pledges
  rw [hw, List.length_append, hlen]

/-- The promises asked for are those made meanwhile. -/
theorem mem_tickets (h : Asked w l w') : k ∈ l.filterMap Request.ticket? ↔
    w.pledges.length ≤ k ∧ ¬w'.pledges.length ≤ k := by
  rw [h.filterMap_ticket, List.mem_range'_1, h.length, Nat.not_le]

/-- The promises asked for are new, and open. -/
theorem of_mem (h : Asked w l w') (hk : k ∈ l.filterMap Request.ticket?) :
    w.pledges.length ≤ k ∧ w'.status k = some none := by
  obtain ⟨made, hw, hlen, hopen⟩ := h.pledges
  rw [h.filterMap_ticket, List.mem_range'_1] at hk
  refine ⟨hk.1, ?_⟩
  have hlt : k - w.pledges.length < made.length :=
    Nat.sub_lt_left_of_lt_add hk.1 (hlen ▸ hk.2)
  rw [World.status, hw, List.getElem?_append_right hk.1, List.getElem?_eq_getElem hlt,
    Option.map_some, hopen _ (List.getElem_mem hlt)]
  rfl

theorem nodup (h : Asked w l w') : (l.filterMap Request.ticket?).Nodup := by
  rw [h.filterMap_ticket]
  exact List.nodup_range'

/-- Each request that was asked has a promise of its own. -/
theorem eq_of_ticket (h : Asked w l w') {r r' : Request} (hr : r ∈ l) (hr' : r' ∈ l)
    (hk : r.ticket? = some k) (hk' : r'.ticket? = some k) : r = r' := by
  have hget : ∀ {r : Request} {i : Nat}, l[i]? = some r → r.ticket? = some k →
      k = w.pledges.length + i := by
    intro r i hi hk
    have hlt : i < l.length := (List.getElem?_eq_some_iff.mp hi).1
    have hticket := congrArg (·[i]?) h.tickets
    simp only [List.getElem?_map, hi, Option.map_some, hk,
      List.getElem?_range' hlt, Nat.one_mul, Option.some.injEq] at hticket
    exact hticket
  obtain ⟨i, hi⟩ := List.getElem?_of_mem hr
  obtain ⟨j, hj⟩ := List.getElem?_of_mem hr'
  obtain rfl : i = j := Nat.add_left_cancel ((hget hi hk).symm.trans (hget hj hk'))
  exact Option.some.inj (hi.symm.trans hj)

end Asked

/-- The promise made to an installer is kept, or settled and given up. -/
theorem Turn.Answers.settles {install install' : Option Ticket}
    (h : Turn.Answers w install w' install') : Settles (install = some ·) w w' := by
  rcases h with ⟨hw, _⟩ | ⟨ticket, outcome, hi, _, hw⟩
  · exact .of_eq hw
  · subst hi
    have hs := (Settles.settle w ticket outcome).mono (Q := (some ticket = some ·))
      fun k hk => congrArg some hk.symm
    exact hs.trans (.of_eq hw)

theorem Turn.Answers.install_eq {install install' : Option Ticket}
    (h : Turn.Answers w install w' install') (hk : install' = some k) : install = some k := by
  rcases h with ⟨_, hi⟩ | ⟨_, _, _, hi, _⟩
  · exact hi ▸ hk
  · simp [hi] at hk

/-- What a turn means for promises: the one made to the installer may be settled, and those asked
for are made. -/
structure Turn.Pays (w : World) (c : Controller) (t : Turn) : Prop where
  asks : ∃ w', Settles (c.install = some ·) w w' ∧ Asked w' t.requests t.world
  install : ∀ {k : Ticket}, t.controller.install = some k → c.install = some k
  reported : t.reported.toList.filterMap Request.ticket? = []

theorem Turn.pays_take {c : Controller} (h : c.canTake = true) (id : Nat) (w : World) :
    Turn.Pays w c (c.take id w) := by
  rcases Controller.take_cases h id w with ⟨_, _, _, _, _, hs⟩ | ⟨_, _, _, _, _, _, ht⟩
  · refine ⟨⟨w, .of_eq rfl, hs.requests ▸ .of_eq hs.pledges⟩, ?_, by simp [hs.reported]⟩
    rw [hs.controller]
    exact fun hk => hk
  · obtain ⟨w', hanswers, hasked⟩ := ht.asks
    refine ⟨⟨w', hanswers.settles, hasked⟩, hanswers.install_eq, ?_⟩
    rw [ht.reported]
    split <;> rfl

theorem Turn.pays_resume {c : Controller} {callback : Callback}
    {answer : Option (Awaited × Except Error Answer)} {w : World}
    (h : c.wakeUp? w = some (callback, answer)) (id : Nat) :
    Turn.Pays w c (c.resume id w) := by
  have ht := Controller.resume_resumed h id
  refine ⟨⟨w, .of_eq rfl, ht.asks⟩, ?_, ?_⟩
  · rw [ht.alike.install]
    exact fun hk => hk
  · rw [ht.reported]
    split <;> rfl

theorem Turn.final_install {t : Turn} {task : Nat} (h : (t.final task).install = some k) :
    t.controller.install = some k := by
  unfold final at h
  split at h
  · cases h
  · split at h <;> exact h

namespace System

/-! ## Answers of the container -/

theorem settles_settle (s : System) (j : Ticket) (o : Except Error Answer) :
    Settles (· = j) s.world (s.settle j o).world := by
  rw [settle_world]
  exact .settle s.world j o

theorem settles_settleAll (s : System) (tickets : List Ticket) (o : Except Error Answer) :
    Settles (· ∈ tickets) s.world (s.settleAll tickets o).world := by
  unfold settleAll
  induction tickets generalizing s with
  | nil => exact .of_eq rfl
  | cons j tickets ih =>
      have hj := (settles_settle s j o).mono (Q := (· ∈ j :: tickets))
        fun k hk => hk ▸ List.mem_cons_self
      exact hj.trans ((ih _).mono fun k => List.mem_cons_of_mem j)

theorem status_settle_self {s : System} (hk : s.world.status k = some none)
    (o : Except Error Answer) : (s.settle k o).world.status k = some (some o) := by
  rw [settle_world, World.status_settle, if_pos ⟨rfl, hk⟩]

theorem status_settleAll {s : System} {tickets : List Ticket} (hmem : k ∈ tickets)
    (hk : s.world.status k = some none) (o : Except Error Answer) :
    (s.settleAll tickets o).world.status k = some (some o) := by
  induction tickets generalizing s with
  | nil => simp at hmem
  | cons j tickets ih =>
      have hrest := settles_settleAll (s.settle j o) tickets o
      by_cases hj : j = k
      · subst hj
        exact hrest.settled (status_settle_self hk o)
      · have hmem : k ∈ tickets := (List.mem_cons.mp hmem).resolve_left (Ne.symm hj)
        refine ih hmem ?_
        rw [(settles_settle s j o).kept (Ne.symm hj), hk]

theorem settles_refuse (s : System) (r : Request) (e : Error) :
    Settles (r.ticket? = some ·) s.world (s.refuse r e).world := by
  have hall : Settles (r.ticket? = some ·) s.world
      (s.settleAll r.ticket?.toList (.error e)).world :=
    (settles_settleAll s r.ticket?.toList (.error e)).mono fun k hk => by simpa using hk
  cases r with
  | install plan ticket =>
      let s₁ := s.log .error s!"Failed to install service {plan.name}: {e.message}"
      have hlog : Settles (· = ticket) s.world s₁.world := .of_eq rfl
      have hs := hlog.trans (settles_settle s₁ ticket (.error e))
      exact hs.mono fun k hk => congrArg some hk.symm
  | _ => exact hall

theorem status_refuse {s : System} {r : Request} (hr : r.ticket? = some k)
    (hk : s.world.status k = some none) (e : Error) :
    (s.refuse r e).world.status k = some (some (.error e)) := by
  have hall : (s.settleAll r.ticket?.toList (.error e)).world.status k = some (some (.error e)) :=
    status_settleAll (by simp [hr]) hk _
  cases r with
  | install plan ticket =>
      obtain rfl := Option.some.inj hr
      exact status_settle_self (s := s.log .error _) hk _
  | _ => exact hall

theorem settles_refuseAll (s : System) (requests : List Request) (e : Error) :
    Settles (· ∈ requests.filterMap Request.ticket?) s.world
      (requests.foldl (fun s r => s.refuse r e) s).world := by
  induction requests generalizing s with
  | nil => exact .of_eq rfl
  | cons r requests ih =>
      refine ((settles_refuse s r e).mono fun k hk => ?_).trans ((ih _).mono fun k hk => ?_)
      · simp [hk]
      · rw [List.filterMap_cons]
        split
        · exact hk
        · exact List.mem_cons_of_mem _ hk

theorem status_refuseAll {s : System} {requests : List Request} (e : Error)
    (hmem : k ∈ requests.filterMap Request.ticket?) (hk : s.world.status k = some none) :
    (requests.foldl (fun s r => s.refuse r e) s).world.status k = some (some (.error e)) := by
  induction requests generalizing s with
  | nil => simp at hmem
  | cons r requests ih =>
      by_cases hr : r.ticket? = some k
      · exact (settles_refuseAll (s.refuse r e) requests e).settled (status_refuse hr hk e)
      · refine ih ?_ (((settles_refuse s r e).kept hr).trans hk)
        rw [List.filterMap_cons] at hmem
        split at hmem
        · exact hmem
        · next j hj =>
            refine (List.mem_cons.mp hmem).resolve_left fun hkj => hr ?_
            rw [hj, hkj]

/-- Which promises are lost when requests are sent to a container that takes none. -/
def Lost (c : Container) (requests : List Request) (k : Ticket) : Prop :=
  c.isServing = false ∧ k ∈ requests.filterMap Request.ticket?

theorem settles_sendAll (s : System) (requests : List Request) :
    Settles (Lost s.container requests) s.world (s.sendAll requests).world := by
  unfold sendAll
  induction requests generalizing s with
  | nil => exact .of_eq rfl
  | cons r requests ih =>
      have hserving : (s.send r).container.isServing = s.container.isServing := by
        rw [(sends_send _ _).container]
        exact sent_isServing _ _
      have hr : Settles (Lost s.container (r :: requests)) s.world (s.send r).world := by
        unfold send
        split
        · next e he =>
            have hno : s.container.isServing = false := by
              unfold Container.refusal? at he
              split at he <;> simp_all
            refine (settles_refuse s r e).mono fun k hk => ⟨hno, ?_⟩
            simp [hk]
        · exact .of_eq (by rw [wake_world])
      refine hr.trans ((ih _).mono fun k hk => ?_)
      obtain ⟨hno, hk⟩ := hk
      refine ⟨hserving ▸ hno, ?_⟩
      rw [List.filterMap_cons]
      split
      · exact hk
      · exact List.mem_cons_of_mem _ hk

theorem callOff_world (s : System) (id : Nat) : (s.callOff id).world = s.world := by
  unfold callOff
  split
  · rfl
  · rw [wake_world]
    rfl

theorem settles_endController (s : System) (id : Nat) (c : Controller) :
    Settles (c.install = some ·) s.world (s.endController id c).world := by
  unfold endController
  rw [noticeEnd_world]
  have h := settles_settleAll
    (s.setController id { c with ended := true, inbox := [], install := none })
    c.install.toList (.error .abandoned)
  exact h.mono fun k hk => by simpa using hk

/-- A turn comes into effect in stages: its requests are sent, its work is left to a task, its
report is sent, and the controller may end. Calling a task off and leaving work to one concern
neither the cells nor the promises. -/
theorem applyTurn_stages (s : System) (id : Nat) (t : Turn) : ∃ before after : System,
    before.world = t.world ∧ before.container = s.container ∧
    after.world.cells = (before.sendAll t.requests).world.cells ∧
    after.world.pledges = (before.sendAll t.requests).world.pledges ∧
    after.container = (before.sendAll t.requests).container ∧
    s.applyTurn id t =
      if t.controller.ended then (after.sendAll t.reported.toList).endController id t.controller
      else after.sendAll t.reported.toList := by
  let started := { s with world := t.world }.setController id t.controller
  let before := t.calledOff.toList.foldl callOff started
  let asked := before.sendAll t.requests
  let after := t.deferred.toList.foldl (fun s d => s.launchTask id d.1 d.2) asked
  have hbefore : before.world = t.world := by
    simp only [before]
    cases t.calledOff with
    | none => rfl
    | some task => exact callOff_world started task
  have hafter : after.world.cells = asked.world.cells ∧ after.world.pledges = asked.world.pledges ∧
      after.container = asked.container := by
    simp only [after]
    cases t.deferred with
    | none => exact ⟨rfl, rfl, rfl⟩
    | some d =>
        simp only [Option.toList_some, List.foldl_cons, List.foldl_nil, launchTask]
        split
        · exact ⟨rfl, rfl, rfl⟩
        · rw [wakeAll_world, wakeAll_container]
          exact ⟨rfl, rfl, rfl⟩
  exact ⟨before, after, hbefore, (callsOff_foldl started t.calledOff).container, hafter.1,
    hafter.2.1, hafter.2.2, rfl⟩

/-- What else is settled when a turn comes into effect. -/
theorem settles_applyTurn (s : System) (id : Nat) (t : Turn) :
    Settles (fun k => Lost s.container (t.requests ++ t.reported.toList) k ∨
      t.controller.install = some k) t.world (s.applyTurn id t).world := by
  obtain ⟨before, after, hworld, hcontainer, -, hpledges, hcontainer', happly⟩ :=
    applyTurn_stages s id t
  have hserving : after.container.isServing = s.container.isServing := by
    rw [hcontainer', (sends_sendAll before t.requests).container, sent_isServing, hcontainer]
  have hlost : ∀ k, Lost s.container t.requests k ∨ Lost s.container t.reported.toList k →
      Lost s.container (t.requests ++ t.reported.toList) k := by
    rintro k (⟨hno, hk⟩ | ⟨hno, hk⟩) <;> refine ⟨hno, ?_⟩ <;> simp only [List.filterMap_append]
    · exact List.mem_append_left _ hk
    · exact List.mem_append_right _ hk
  have hasked := (settles_sendAll before t.requests).mono
    (Q := fun k => Lost s.container (t.requests ++ t.reported.toList) k ∨
      t.controller.install = some k) fun k hk => .inl (hlost k (.inl (hcontainer ▸ hk)))
  have hreported := (settles_sendAll after t.reported.toList).mono
    (Q := fun k => Lost s.container (t.requests ++ t.reported.toList) k ∨
      t.controller.install = some k) fun k hk => .inl (hlost k (.inr ⟨hserving ▸ hk.1, hk.2⟩))
  have hsent := (hworld ▸ hasked).trans ((Settles.of_eq hpledges).trans hreported)
  rw [happly]
  split
  · exact hsent.trans ((settles_endController _ id t.controller).mono fun k hk => .inr hk)
  · exact hsent

end System

end ServiceHost

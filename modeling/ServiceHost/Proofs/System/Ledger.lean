import ServiceHost.Proofs.System.Effects
import ServiceHost.Proofs.System.Tickets

/-! # Who keeps which promise

Every promise that is not settled is in one hand: it came with a request before the container, or
the container is to keep it, or the controller of the service it was made for. So nobody settles a
promise of someone else. -/

namespace ServiceHost

/-- The promises a container is to keep: once a service of a name is removed, or once everything
is. -/
def Container.held (c : Container) : Option Name → List Ticket
  | none => c.closing
  | some name => c.removals[name]?.getD []

/-- The promises that came with the requests before a container. -/
def Container.tickets (c : Container) : List Ticket := c.inbox.filterMap Request.ticket?

theorem Container.tickets_congr {c c' : Container} (h : c'.inbox = c.inbox) :
    c'.tickets = c.tickets := by
  rw [tickets, tickets, h]

namespace System

/-- The container is to keep a promise. -/
def Holds (s : System) (k : Ticket) : Prop := ∃ a, k ∈ s.container.held a

/-- A controller is to keep a promise made to the installer of its service. -/
def Installs (s : System) (k : Ticket) : Prop :=
  ∃ (i : Nat) (c : Controller), s.controllers[i]? = some c ∧ c.install = some k

/-- Whatever the container is asked to remove is installed. -/
def Known (s : System) : Prop :=
  ∀ {name : Name}, name ∈ s.container.removals →
    ∃ n : Node, s.container.graph.nodes[name]? = some n

/-- Every promise to be kept is in one hand, and open as long as the container has to do with it. -/
structure Ledger (s : System) : Prop where
  distinct : s.container.tickets.Nodup
  asked : ∀ {k : Ticket}, k ∈ s.container.tickets →
    s.world.status k = some none ∧ ¬s.Holds k ∧ ¬s.Installs k
  held : ∀ {k : Ticket}, s.Holds k → s.world.status k = some none ∧ ¬s.Installs k
  apart : ∀ {k : Ticket} {a b : Option Name}, k ∈ s.container.held a → k ∈ s.container.held b →
    a = b
  installs : ∀ {k : Ticket}, s.Installs k → k < s.world.pledges.length
  known : s.Known

/-- How a request is turned down that a closing container did not come to. -/
def refusal : Error := .invalidState "complete request" .closed

/-- What becomes of promises: what is settled stays so, what the container is to keep is kept, and
what a removal was asked with is kept or the request is turned down. -/
structure Onward (s s' : System) : Prop where
  settled : ∀ {k : Ticket} {o : Except Error Answer}, s.world.status k = some (some o) →
    s'.world.status k = some (some o)
  held : ∀ {k : Ticket}, s.Holds k → s'.Holds k ∨ s'.world.status k = some (some (.ok .done))
  asked : ∀ {k : Ticket} {name : Name}, .remove name k ∈ s.container.inbox →
    .remove name k ∈ s'.container.inbox ∨ s'.Holds k ∨
      s'.world.status k = some (some (.ok .done)) ∨
      s'.world.status k = some (some (.error refusal))

variable {s s' s'' : System} {k : Ticket} {P : Ticket → Prop}

theorem Onward.refl (s : System) : s.Onward s :=
  ⟨fun hk => hk, fun hk => .inl hk, fun hk => .inl hk⟩

theorem Onward.trans (h : s.Onward s') (h' : s'.Onward s'') : s.Onward s'' := by
  have hheld : ∀ {k : Ticket}, s'.Holds k ∨ s'.world.status k = some (some (.ok .done)) →
      s''.Holds k ∨ s''.world.status k = some (some (.ok .done)) := by
    rintro k (hk | hk)
    · exact h'.held hk
    · exact .inr (h'.settled hk)
  refine ⟨fun hk => h'.settled (h.settled hk), fun hk => hheld (h.held hk), fun hk => ?_⟩
  rcases h.asked hk with hk | hk | hk | hk
  · exact h'.asked hk
  · exact .inr ((hheld (.inl hk)).imp_right .inl)
  · exact .inr ((hheld (.inr hk)).imp_right .inl)
  · exact .inr (.inr (.inr (h'.settled hk)))

theorem lt_of_status (h : s.world.status k = some none) : k < s.world.pledges.length := by
  by_contra hlt
  rw [World.status_eq_none.mpr (Nat.not_lt.mp hlt)] at h
  cases h

/-- Promises are settled that nobody has to do with afterwards. -/
theorem Ledger.pass (h : s.Ledger) (hw : Settles P s.world s'.world)
    (htickets : s'.container.tickets.Sublist s.container.tickets)
    (hheld : ∀ {k : Ticket} {a : Option Name}, k ∈ s'.container.held a → k ∈ s.container.held a)
    (hinstalls : ∀ {k : Ticket}, s'.Installs k → s.Installs k)
    (hP : ∀ {k : Ticket}, P k → k ∉ s'.container.tickets ∧ ¬s'.Holds k)
    (hknown : s'.Known) : s'.Ledger := by
  have hholds : ∀ {k : Ticket}, s'.Holds k → s.Holds k := fun ⟨a, ha⟩ => ⟨a, hheld ha⟩
  refine ⟨h.distinct.sublist htickets, fun {k} hk => ?_, fun {k} hk => ?_, ?_, ?_, hknown⟩
  · obtain ⟨hopen, hno, hni⟩ := h.asked (htickets.subset hk)
    rw [hw.kept fun hp => (hP hp).1 hk]
    exact ⟨hopen, fun hk' => hno (hholds hk'), fun hk' => hni (hinstalls hk')⟩
  · obtain ⟨hopen, hni⟩ := h.held (hholds hk)
    rw [hw.kept fun hp => (hP hp).2 hk]
    exact ⟨hopen, fun hk' => hni (hinstalls hk')⟩
  · exact fun ha hb => h.apart (hheld ha) (hheld hb)
  · intro k hk
    rw [hw.length]
    exact h.installs (hinstalls hk)

/-! ## Requests are made -/

theorem sent_held (c : Container) (l : List Request) (a : Option Name) :
    (c.sent l).held a = c.held a := by
  unfold Container.sent
  split <;> rfl

theorem sent_removals (c : Container) (l : List Request) : (c.sent l).removals = c.removals := by
  unfold Container.sent
  split <;> rfl

theorem holds_sent {l : List Request} (hc : s'.container = s.container.sent l) :
    s'.Holds k ↔ s.Holds k := by
  unfold Holds
  simp only [hc, sent_held]

theorem sent_tickets (c : Container) (l : List Request) : (c.sent l).tickets =
    c.tickets ++ if c.isServing then l.filterMap Request.ticket? else [] := by
  unfold Container.sent Container.tickets
  split <;> simp

section Asks

variable {w₁ w₂ : World} {l l' : List Request}

/-- What is left of the promises there are once a controller settled that of its installer, and
new ones were made. -/
theorem status_asks (hw₁ : Settles s.Installs s.world w₁) (ha : Asked w₁ l w₂)
    (hw₂ : Settles (fun k => Lost s.container l k ∨ s.Installs k) w₂ s'.world)
    (hk : k < s.world.pledges.length) (hno : ¬s.Installs k) :
    s'.world.status k = s.world.status k := by
  have hlt : k < w₁.pledges.length := hw₁.length ▸ hk
  rw [hw₂.kept, ha.status_of_lt hlt, hw₁.kept hno]
  rintro (⟨_, hmem⟩ | hi)
  · exact absurd (ha.of_mem hmem).1 (Nat.not_le.mpr hlt)
  · exact hno hi

theorem Ledger.asks (h : s.Ledger) (hw₁ : Settles s.Installs s.world w₁) (ha : Asked w₁ l w₂)
    (hw₂ : Settles (fun k => Lost s.container l k ∨ s.Installs k) w₂ s'.world)
    (hc : s'.container = s.container.sent l')
    (hl : l'.filterMap Request.ticket? = l.filterMap Request.ticket?)
    (hinstalls : ∀ {k : Ticket}, s'.Installs k → s.Installs k) : s'.Ledger := by
  have htickets : s'.container.tickets = s.container.tickets ++
      if s.container.isServing then l.filterMap Request.ticket? else [] := by
    rw [hc, sent_tickets, hl]
  have hstatus := fun {k : Ticket} => status_asks (k := k) hw₁ ha hw₂
  -- whoever is asked for something new has not been promised it before
  have hnew : ∀ {k : Ticket}, k ∈ l.filterMap Request.ticket? → s.world.pledges.length ≤ k :=
    fun hk => hw₁.length ▸ (ha.of_mem hk).1
  refine ⟨?_, fun {k} hk => ?_, fun {k} hk => ?_, ?_, fun {k} hk => ?_, ?_⟩
  · rw [htickets]
    split
    · refine List.nodup_append.mpr ⟨h.distinct, ha.nodup, fun j hj k hk hjk => ?_⟩
      have hlt := lt_of_status (h.asked hj).1
      exact absurd (hnew hk) (Nat.not_le.mpr (hjk ▸ hlt))
    · simpa using h.distinct
  · rw [holds_sent hc]
    rw [htickets, List.mem_append] at hk
    rcases hk with hk | hk
    · obtain ⟨hopen, hno, hni⟩ := h.asked hk
      exact ⟨(hstatus (lt_of_status hopen) hni).trans hopen, hno, fun hi => hni (hinstalls hi)⟩
    · split at hk
      · next hserving =>
          have hge := hnew hk
          have hni : ¬s.Installs k := fun hi => Nat.not_le.mpr (h.installs hi) hge
          refine ⟨?_, fun hh => ?_, fun hi => hni (hinstalls hi)⟩
          · rw [hw₂.kept, (ha.of_mem hk).2]
            rintro (⟨hno, _⟩ | hi)
            · simp [hserving] at hno
            · exact hni hi
          · exact Nat.not_le.mpr (lt_of_status (h.held hh).1) hge
      · simp at hk
  · rw [holds_sent hc] at hk
    obtain ⟨hopen, hni⟩ := h.held hk
    exact ⟨(hstatus (lt_of_status hopen) hni).trans hopen, fun hi => hni (hinstalls hi)⟩
  · simp only [hc, sent_held]
    exact h.apart
  · have hlt := h.installs (hinstalls hk)
    rw [hw₂.length]
    exact Nat.lt_of_lt_of_le (hw₁.length ▸ hlt) ha.length_le
  · unfold Known
    rw [hc, sent_removals, sent_graph]
    exact h.known

theorem onward_asks (hw₁ : Settles s.Installs s.world w₁) (ha : Asked w₁ l w₂)
    (hw₂ : Settles (fun k => Lost s.container l k ∨ s.Installs k) w₂ s'.world)
    (hc : s'.container = s.container.sent l') : s.Onward s' := by
  refine ⟨fun {k o} hk => ?_, fun hk => .inl ((holds_sent hc).mpr hk), fun hk => .inl ?_⟩
  · have hlt : k < w₁.pledges.length := by
      by_contra hlt
      rw [hw₁.length, Nat.not_lt] at hlt
      rw [World.status_eq_none.mpr hlt] at hk
      cases hk
    exact hw₂.settled ((ha.status_of_lt hlt).trans (hw₁.settled hk))
  · rw [hc, Container.sent]
    split
    · exact List.mem_append_left _ hk
    · exact hk

end Asks

/-! ## Requests are carried out -/

/-- The promise that came with a request is in nobody's hand any more. -/
def InHand (s : System) (r : Request) : Prop :=
  ∀ {k : Ticket}, r.ticket? = some k → s.world.status k = some none ∧
    k ∉ s.container.tickets ∧ ¬s.Holds k ∧ ¬s.Installs k

/-- A request is taken out of the inbox. -/
theorem Ledger.taken {r : Request} {rest : List Request} (h : s.Ledger)
    (hi : s.container.inbox = r :: rest) :
    Ledger { s with container := { s.container with inbox := rest } } ∧
      InHand { s with container := { s.container with inbox := rest } } r := by
  have htickets : s.container.tickets = r.ticket?.toList ++
      Container.tickets { s.container with inbox := rest } := by
    unfold Container.tickets
    rw [hi]
    cases hr : r.ticket? <;> simp [hr]
  refine ⟨?_, fun {k} hr => ?_⟩
  · refine h.pass (P := fun _ => False) (.of_eq rfl) ?_ (fun hk => hk) (fun hk => hk)
      (fun hp => hp.elim) h.known
    rw [htickets]
    exact List.sublist_append_right _ _
  · have hdistinct := h.distinct
    rw [htickets, hr] at hdistinct
    have hk : k ∈ s.container.tickets := by
      rw [htickets, hr]
      exact List.mem_cons_self
    obtain ⟨hopen, hno, hni⟩ := h.asked hk
    exact ⟨hopen, (List.nodup_cons.mp hdistinct).1, hno, hni⟩

/-- A request is answered at once. -/
theorem Ledger.answer {r : Request} (h : s.Ledger) (hr : s.InHand r) (hu : s.Unmoved s')
    (hw : Settles (r.ticket? = some ·) s.world s'.world) : s'.Ledger ∧ s.Onward s' := by
  have hc := hu.container
  have hholds : ∀ k, s'.Holds k ↔ s.Holds k := fun k => by rw [Holds, Holds, hc]
  refine ⟨h.pass hw (hc ▸ List.Sublist.refl _) (by simp [hc]) ?_ ?_ ?_, hw.settled, fun hk => .inl ?_,
    fun hk => .inl (hc ▸ hk)⟩
  · unfold Installs
    rw [hu.controllers]
    exact fun hk => hk
  · intro k hk
    rw [hc, hholds]
    exact ⟨(hr hk).2.1, (hr hk).2.2.1⟩
  · unfold Known
    rw [hc]
    exact h.known
  · exact (hholds _).mpr hk

/-- A promise that came with a request is to be kept by the container from now on. -/
theorem Ledger.hold {r : Request} {k : Ticket} {b : Option Name} (h : s.Ledger)
    (hr : s.InHand r) (hk : r.ticket? = some k) (hw : s'.world.pledges = s.world.pledges)
    (hinbox : s'.container.inbox = s.container.inbox)
    (hheld : ∀ a, s'.container.held a =
      if a = b then s.container.held a ++ [k] else s.container.held a)
    (hinstalls : ∀ {k : Ticket}, s'.Installs k → s.Installs k)
    (hknown : s'.Known) :
    s'.Ledger ∧ s.Onward s' ∧ s'.Holds k := by
  obtain ⟨hopen, hnt, hno, hni⟩ := hr hk
  have hstatus : ∀ j, s'.world.status j = s.world.status j := fun j => World.status_congr hw
  have hmem : ∀ {j : Ticket} {a : Option Name}, j ∈ s'.container.held a ↔
      j ∈ s.container.held a ∨ (j = k ∧ a = b) := by
    intro j a
    rw [hheld]
    split
    · next hab => simp [hab]
    · next hab => simp [hab]
  have hholds : ∀ {j : Ticket}, s'.Holds j ↔ s.Holds j ∨ j = k := by
    intro j
    constructor
    · rintro ⟨a, ha⟩
      exact (hmem.mp ha).imp (fun ha => ⟨a, ha⟩) And.left
    · rintro (⟨a, ha⟩ | rfl)
      · exact ⟨a, hmem.mpr (.inl ha)⟩
      · exact ⟨b, hmem.mpr (.inr ⟨rfl, rfl⟩)⟩
  have htickets := Container.tickets_congr hinbox
  refine ⟨⟨htickets ▸ h.distinct, fun {j} hj => ?_, fun {j} hj => ?_, ?_, fun {j} hj => ?_,
    hknown⟩, ⟨fun hs => (hstatus _).trans hs, fun hj => .inl (hholds.mpr (.inl hj)),
    fun hj => .inl (hinbox ▸ hj)⟩, hholds.mpr (.inr rfl)⟩
  · rw [htickets] at hj
    obtain ⟨hopen', hno', hni'⟩ := h.asked hj
    refine ⟨(hstatus j).trans hopen', fun hh => ?_, fun hi => hni' (hinstalls hi)⟩
    rcases hholds.mp hh with hh | rfl
    · exact hno' hh
    · exact hnt hj
  · rw [hstatus]
    rcases hholds.mp hj with hj | rfl
    · exact ⟨(h.held hj).1, fun hi => (h.held hj).2 (hinstalls hi)⟩
    · exact ⟨hopen, fun hi => hni (hinstalls hi)⟩
  · intro j a a' ha ha'
    rcases hmem.mp ha with ha | ⟨rfl, rfl⟩
    · rcases hmem.mp ha' with ha' | ⟨rfl, rfl⟩
      · exact h.apart ha ha'
      · exact absurd ⟨a, ha⟩ hno
    · rcases hmem.mp ha' with ha' | ⟨_, rfl⟩
      · exact absurd ⟨a', ha'⟩ hno
      · rfl
  · rw [hw]
    exact h.installs (hinstalls hj)

/-- A service is installed, and its controller is to keep the promise made to the installer. -/
theorem Ledger.launch {r : Request} {k : Ticket} (h : s.Ledger) (hr : s.InHand r)
    (hk : r.ticket? = some k) (hw : s'.world.pledges = s.world.pledges)
    (hinbox : s'.container.inbox = s.container.inbox)
    (hheld : ∀ a, s'.container.held a = s.container.held a)
    (hinstalls : ∀ {j : Ticket}, s'.Installs j → s.Installs j ∨ j = k)
    (hknown : s'.Known) :
    s'.Ledger ∧ s.Onward s' := by
  obtain ⟨hopen, hnt, hno, hni⟩ := hr hk
  have hstatus : ∀ j, s'.world.status j = s.world.status j := fun j => World.status_congr hw
  have hholds : ∀ {j : Ticket}, s'.Holds j ↔ s.Holds j := fun {j} => by simp only [Holds, hheld]
  have htickets := Container.tickets_congr hinbox
  refine ⟨⟨htickets ▸ h.distinct, fun {j} hj => ?_, fun {j} hj => ?_, ?_, fun {j} hj => ?_,
    hknown⟩, ⟨fun hs => (hstatus _).trans hs, fun hj => .inl (hholds.mpr hj),
    fun hj => .inl (hinbox ▸ hj)⟩⟩
  · rw [htickets] at hj
    obtain ⟨hopen', hno', hni'⟩ := h.asked hj
    refine ⟨(hstatus j).trans hopen', fun hh => hno' (hholds.mp hh), fun hi => ?_⟩
    rcases hinstalls hi with hi | rfl
    · exact hni' hi
    · exact hnt hj
  · rw [hstatus]
    have hj := hholds.mp hj
    refine ⟨(h.held hj).1, fun hi => ?_⟩
    rcases hinstalls hi with hi | rfl
    · exact (h.held hj).2 hi
    · exact hno hj
  · simp only [hheld]
    exact h.apart
  · rw [hw]
    rcases hinstalls hj with hi | rfl
    · exact h.installs hi
    · exact lt_of_status hopen

theorem Operates.installs {outcome : Graph.Outcome} (ho : s.Operates outcome s')
    (hk : s'.Installs k) : s.Installs k := by
  obtain ⟨i, c', hc', hi⟩ := hk
  rw [ho.controllers] at hc'
  obtain ⟨c, hc, rfl⟩ := Option.map_eq_some_iff.mp hc'
  exact ⟨i, c, hc, c.told_install _ ▸ hi⟩

theorem exists_requestRemoval {g : Graph} (hg : g.Coherent) (a : Name) {m : Name}
    (h : ∃ n : Node, g.nodes[m]? = some n) : ∃ n : Node, (g.requestRemoval a).1.nodes[m]? = some n := by
  obtain ⟨n, hn⟩ := h
  obtain ⟨n', hn', _⟩ := hg.shown_requestRemoval (a := a) hn
  exact ⟨n', hn'⟩

/-- What becomes of a system whose container asks services to stop. -/
structure Requested (s s' : System) : Prop where
  nodes : ∀ {m : Name}, (∃ n : Node, s.container.graph.nodes[m]? = some n) →
    ∃ n : Node, s'.container.graph.nodes[m]? = some n
  installs : ∀ {k : Ticket}, s'.Installs k → s.Installs k
  world : s'.world = s.world

theorem requested_requestRemovals (hg : s.container.graph.Coherent) (names : List Name) :
    s.Requested (s.requestRemovals names) := by
  unfold requestRemovals
  induction names generalizing s with
  | nil => exact ⟨fun h => h, fun h => h, rfl⟩
  | cons a names ih =>
      have ho := operates_applyGraph s (s.container.graph.requestRemoval a)
      have hgraph : (s.applyGraph (s.container.graph.requestRemoval a)).container.graph =
          (s.container.graph.requestRemoval a).1 := by rw [ho.container]
      have h := ih (s := s.applyGraph (s.container.graph.requestRemoval a))
        (hgraph ▸ hg.requestRemoval a)
      refine ⟨fun hm => h.nodes ?_, fun hk => ho.installs (h.installs hk), h.world.trans ho.world⟩
      rw [hgraph]
      exact exists_requestRemoval hg a hm

theorem closeIfEmpty_container (s : System) : ∃ stage, s.closeIfEmpty.container =
    { s.container with stage } ∧ (stage = s.container.stage ∨ stage = .closed) := by
  unfold closeIfEmpty
  split
  · exact ⟨_, rfl, .inr rfl⟩
  · exact ⟨_, rfl, .inl rfl⟩

theorem requestRemovals_world (s : System) (names : List Name) :
    (s.requestRemovals names).world = s.world := by
  unfold requestRemovals
  induction names generalizing s with
  | nil => rfl
  | cons a names ih => exact (ih _).trans (operates_applyGraph s _).world

theorem closeIfEmpty_world (s : System) : s.closeIfEmpty.world = s.world := by
  unfold closeIfEmpty
  split <;> rfl

theorem held_insert (c : Container) (name : Name) (l : List Ticket) (a : Option Name) :
    Container.held { c with removals := c.removals.insert name l } a =
      if a = some name then l else c.held a := by
  cases a with
  | none => rfl
  | some b =>
      simp only [Container.held, Std.ExtTreeMap.getElem?_insert, Std.LawfulEqCmp.compare_eq_iff_eq,
        Option.some.injEq, eq_comm (a := name)]
      split <;> rfl

theorem held_erase (c : Container) (name : Name) (a : Option Name) :
    Container.held { c with removals := c.removals.erase name } a =
      if a = some name then [] else c.held a := by
  cases a with
  | none => rfl
  | some b =>
      simp only [Container.held, Std.ExtTreeMap.getElem?_erase, Std.LawfulEqCmp.compare_eq_iff_eq,
        Option.some.injEq, eq_comm (a := name)]
      split <;> rfl

theorem Ledger.remove (h : s.Ledger) (hg : s.container.graph.Coherent) {name : Name}
    {ticket : Ticket} (hr : s.InHand (.remove name ticket)) :
    (s.remove name ticket).Ledger ∧ s.Onward (s.remove name ticket) ∧
      ((s.remove name ticket).Holds ticket ∨
        (s.remove name ticket).world.status ticket = some (some (.ok .done))) := by
  unfold System.remove
  split
  · next hname =>
      rw [Graph.contains_iff] at hname
      have ho := operates_applyGraph s (s.container.graph.requestRemoval name)
      generalize s.applyGraph (s.container.graph.requestRemoval name) = s₁ at ho
      have hremovals : s₁.container.removals = s.container.removals := by rw [ho.container]
      have hheld : ∀ a, s₁.container.held a = s.container.held a := by
        intro a
        cases a <;> simp [Container.held, ho.container]
      have hgraph : s₁.container.graph = (s.container.graph.requestRemoval name).1 := by
        rw [ho.container]
      refine (h.hold hr rfl (b := some name) ?_ ?_ ?_ ?_ ?_).imp_right (And.imp_right .inl)
      · rw [← ho.world]
      · rw [← show s₁.container.inbox = s.container.inbox by rw [ho.container]]
      · intro a
        rw [held_insert, hheld, hremovals]
        split
        · next ha => rw [ha]; rfl
        · rfl
      · exact ho.installs
      · intro b hb
        rw [Std.ExtTreeMap.mem_insert, Std.LawfulEqCmp.compare_eq_iff_eq, hremovals] at hb
        show ∃ n : Node, s₁.container.graph.nodes[b]? = some n
        rw [hgraph]
        apply exists_requestRemoval hg
        rcases hb with rfl | hb
        · exact hname
        · exact h.known hb
  · obtain ⟨hl, hon⟩ := h.answer hr (unmoved_settle s ticket (.ok .done))
      ((settles_settle s ticket (.ok .done)).mono fun k hk => congrArg some hk.symm)
    exact ⟨hl, hon, .inr (status_settle_self (hr rfl).1 _)⟩

theorem Ledger.install (h : s.Ledger) {plan : Plan} {ticket : Ticket}
    (hr : s.InHand (.install plan ticket)) :
    (s.install plan ticket).Ledger ∧ s.Onward (s.install plan ticket) := by
  have hrefuse : ∀ e, (s.refuse (.install plan ticket) e).Ledger ∧
      s.Onward (s.refuse (.install plan ticket) e) := fun e =>
    h.answer hr (unmoved_refuse s _ e) (settles_refuse s _ e)
  unfold System.install
  split
  · exact hrefuse _
  · split
    · exact hrefuse _
    · next hname =>
        have hname : s.container.graph.nodes[plan.name]? = none :=
          Graph.not_contains_iff.mp hname
        have ho := operates_install s plan ticket
        dsimp only
        generalize System.applyGraph _ _ = s₁ at ho
        have hheld : ∀ a, s₁.container.held a = s.container.held a := by
          intro a
          cases a <;> simp [Container.held, ho.container]
        refine h.launch hr rfl (congrArg World.pledges ho.world) ?_ hheld ?_ ?_
        · rw [ho.container]
        · intro j hj
          obtain ⟨i, c, hc, hi⟩ := ho.installs hj
          rw [List.getElem?_append] at hc
          split at hc
          · exact .inl ⟨i, c, hc, hi⟩
          · rw [List.mem_singleton.mp (List.mem_of_getElem? hc)] at hi
            exact .inr (Option.some.inj hi).symm
        · intro name hmem
          have hold : name ∈ s.container.removals := by simpa [ho.container] using hmem
          obtain ⟨n, hn⟩ := h.known hold
          have hne : plan.name ≠ name := by
            rintro rfl
            simp [hname] at hn
          refine ⟨n, ?_⟩
          rw [ho.container]
          exact (Graph.nodes_register_of_ne (r := plan.registration) _ hne).trans hn

theorem Ledger.close (h : s.Ledger) (hg : s.container.graph.Coherent) {ticket : Ticket}
    (hr : s.InHand (.close ticket)) :
    (s.close ticket).Ledger ∧ s.Onward (s.close ticket) ∧
      (s.container.stage = .opened → (s.close ticket).Holds ticket) := by
  rw [close_eq]
  split
  · next hst =>
      obtain ⟨hl, hon⟩ := h.answer hr (unmoved_settle s ticket _)
        ((settles_settle s ticket _).mono fun k hk => congrArg some hk.symm)
      exact ⟨hl, hon, fun hopen => absurd hopen hst⟩
  · have hreq := requested_requestRemovals (s := s.beginClosing ticket) hg s.container.graph.roots
    obtain ⟨graph, hcontainer⟩ := requestRemovals_container (s.beginClosing ticket)
      s.container.graph.roots
    generalize (s.beginClosing ticket).requestRemovals s.container.graph.roots = s₁ at hreq hcontainer
    obtain ⟨stage, hclose, _⟩ := closeIfEmpty_container s₁
    have hheld : ∀ a, s₁.closeIfEmpty.container.held a =
        if a = none then s.container.held a ++ [ticket] else s.container.held a := by
      intro a
      rw [hclose, hcontainer]
      cases a <;> rfl
    refine (h.hold hr rfl ?_ ?_ hheld ?_ ?_).imp_right (And.imp_right fun hh _ => hh)
    · rw [closeIfEmpty_world, hreq.world]
      rfl
    · rw [hclose, hcontainer]
      rfl
    · intro k hk
      unfold Installs at hk
      rw [closeIfEmpty_controllers] at hk
      exact hreq.installs hk
    · intro name hmem
      rw [closeIfEmpty_graph]
      refine hreq.nodes (h.known ?_)
      rw [hclose, hcontainer] at hmem
      exact hmem

/-- The promises of a removal are kept. -/
theorem Ledger.free {a : Name} (h : s.Ledger)
    (hw : Settles (· ∈ s.container.held (some a)) s.world s'.world)
    (hdone : ∀ k ∈ s.container.held (some a), s'.world.status k = some (some (.ok .done)))
    (hinbox : s'.container.inbox = s.container.inbox)
    (hheld : ∀ b, s'.container.held b = if b = some a then [] else s.container.held b)
    (hinstalls : ∀ {k : Ticket}, s'.Installs k → s.Installs k)
    (hknown : s'.Known) : s'.Ledger ∧ s.Onward s' := by
  have hsub : ∀ {k : Ticket} {b : Option Name}, k ∈ s'.container.held b →
      b ≠ some a ∧ k ∈ s.container.held b := by
    intro k b hk
    rw [hheld] at hk
    split at hk
    · simp at hk
    · next hb => exact ⟨hb, hk⟩
  have htickets := Container.tickets_congr hinbox
  refine ⟨h.pass hw (htickets ▸ List.Sublist.refl _) (fun hk => (hsub hk).2) hinstalls ?_ hknown,
    ⟨hw.settled, fun hk => ?_, fun hk => .inl (hinbox ▸ hk)⟩⟩
  · intro k hk
    rw [htickets]
    refine ⟨fun hmem => (h.asked hmem).2.1 ⟨_, hk⟩, ?_⟩
    rintro ⟨b, hb⟩
    exact (hsub hb).1 (h.apart (hsub hb).2 hk)
  · obtain ⟨b, hb⟩ := hk
    by_cases hba : b = some a
    · exact .inr (hdone _ (hba ▸ hb))
    · refine .inl ⟨b, ?_⟩
      rw [hheld, if_neg hba]
      exact hb

theorem Ledger.acceptReport (h : s.Ledger) (hg : s.container.graph.Coherent) (a : Name)
    (state : State) (value : Option Value) : (s.acceptReport a state value).Ledger ∧
      s.Onward (s.acceptReport a state value) := by
  have ho := operates_applyGraph s (s.container.graph.report a state value)
  rw [acceptReport_eq]
  dsimp only
  generalize s.applyGraph (s.container.graph.report a state value) = s₁ at ho
  have hheld : ∀ b, s₁.container.held b = s.container.held b := by
    intro b
    cases b <;> simp [Container.held, ho.container]
  have hinbox : s₁.container.inbox = s.container.inbox := by rw [ho.container]
  have hremovals : s₁.container.removals = s.container.removals := by rw [ho.container]
  have hworld : s₁.world.pledges = s.world.pledges := congrArg World.pledges ho.world
  have hnodes : ∀ {b : Name}, (b = a → state ≠ .removed) →
      (∃ n : Node, s.container.graph.nodes[b]? = some n) →
      ∃ n : Node, s₁.container.graph.nodes[b]? = some n := by
    rintro b hb ⟨n, hn⟩
    rw [ho.container, ← Option.ne_none_iff_exists']
    intro hnone
    rcases hg.nodes_report_eq_none state value hnone with hno | ⟨hba, hr⟩
    · simp [hn] at hno
    · exact hb hba hr
  split
  · rw [show s₁.container.removals[a]?.getD [] = s.container.held (some a) from hheld (some a)]
    generalize hs₂ : (s₁.freeRemovals a).settleAll (s.container.held (some a)) (.ok .done) = s₂
    have hu : (s₁.freeRemovals a).Unmoved s₂ := hs₂ ▸ unmoved_settleAll _ _ _
    have hfree : Settles (· ∈ s.container.held (some a)) s.world (s₁.freeRemovals a).world :=
      .of_eq hworld
    obtain ⟨stage, hclose, _⟩ := closeIfEmpty_container s₂
    refine h.free (hfree.trans ?_) (fun k hk => ?_) ?_ (fun b => ?_) (fun hk => ?_)
      fun {b} hb => ?_
    · rw [closeIfEmpty_world, ← hs₂]
      exact settles_settleAll _ _ _
    · rw [closeIfEmpty_world, ← hs₂]
      have hopen : (s₁.freeRemovals a).world.status k = some none :=
        (World.status_congr hworld).trans (h.held ⟨_, hk⟩).1
      exact status_settleAll hk hopen _
    · rw [hclose, hu.container]
      exact hinbox
    · rw [← hheld b, ← held_erase s₁.container a b, hclose, hu.container]
      cases b <;> rfl
    · unfold Installs at hk
      rw [closeIfEmpty_controllers, hu.controllers] at hk
      exact ho.installs hk
    · rw [hclose, hu.container] at hb
      replace hb : b ∈ s₁.container.removals.erase a := hb
      rw [Std.ExtTreeMap.mem_erase, ne_eq, Std.LawfulEqCmp.compare_eq_iff_eq, hremovals] at hb
      rw [closeIfEmpty_graph, hu.container]
      exact hnodes (fun h => absurd h.symm hb.1) (h.known hb.2)
  · next hr =>
      have hholds : ∀ {k : Ticket}, s₁.Holds k ↔ s.Holds k := fun {k} => by simp only [Holds, hheld]
      have hw : Settles (fun _ => False) s.world s₁.world := .of_eq hworld
      refine ⟨h.pass hw ?_ (hheld _ ▸ ·) ho.installs (fun hp => hp.elim) ?_,
        hw.settled, fun hk => .inl (hholds.mpr hk), fun hk => .inl (hinbox ▸ hk)⟩
      · exact Container.tickets_congr hinbox ▸ List.Sublist.refl _
      · exact fun hb => hnodes (fun _ => hr) (h.known (hremovals ▸ hb))

/-- What a request that is carried out makes of promises. -/
theorem Ledger.process {r : Request} (h : s.Ledger) (hg : s.container.graph.Coherent)
    (hr : s.InHand r) : (s.process r).Ledger ∧ s.Onward (s.process r) := by
  have hsettle : ∀ {k : Ticket}, r.ticket? = some k → ∀ o,
      (s.settle k o).Ledger ∧ s.Onward (s.settle k o) := fun hk o =>
    h.answer hr (unmoved_settle s _ o) ((settles_settle s _ o).mono fun j hj => hj ▸ hk)
  cases r with
  | install plan ticket => exact h.install hr
  | remove name ticket =>
      obtain ⟨hl, hon, _⟩ := h.remove hg hr
      exact ⟨hl, hon⟩
  | close ticket =>
      obtain ⟨hl, hon, _⟩ := h.close hg hr
      exact ⟨hl, hon⟩
  | has name ticket | state name ticket | text ticket => exact hsettle rfl _
  | report a state value => exact h.acceptReport hg a state value

theorem Ledger.shutDown (h : s.Ledger) (hc : s.cancelled = false) :
    s.shutDown.Ledger ∧ s.Onward s.shutDown := by
  have hu := unmoved_shutDown hc
  have hw : Settles (· ∈ s.container.tickets) s.world s.shutDown.world := by
    rw [shutDown_eq hc]
    exact settles_refuseAll
      { s with container := { s.container with stage := .closed, inbox := [] } }
      s.container.inbox refusal
  have hheld : ∀ a, s.shutDown.container.held a = s.container.held a := by
    intro a
    rw [hu.container]
    cases a <;> rfl
  have hholds : ∀ {k : Ticket}, s.shutDown.Holds k ↔ s.Holds k :=
    fun {k} => by simp only [Holds, hheld]
  have htickets : s.shutDown.container.tickets = [] := by
    rw [hu.container]
    rfl
  refine ⟨h.pass hw (htickets ▸ List.nil_sublist _) (hheld _ ▸ ·) ?_ (fun hk => ?_) ?_,
    hw.settled, fun hk => .inl (hholds.mpr hk), fun {k name} hk => ?_⟩
  · unfold Installs
    rw [hu.controllers]
    exact fun hk => hk
  · rw [htickets, hholds]
    exact ⟨by simp, (h.asked hk).2.1⟩
  · unfold Known
    rw [hu.container]
    exact h.known
  · have hmem : k ∈ s.container.tickets := List.mem_filterMap.mpr ⟨_, hk, rfl⟩
    refine .inr (.inr (.inr ?_))
    rw [shutDown_eq hc]
    exact status_refuseAll
      (s := { s with container := { s.container with stage := .closed, inbox := [] } })
      refusal hmem (h.asked hmem).1

/-- The container carries out a request, and turns down what is left if it is closed then. -/
theorem Ledger.receive {r : Request} {rest : List Request} (h : s.Ledger) (ho : s.Orderly)
    (hs : s.container.isServing = true) (hi : s.container.inbox = r :: rest) :
    s.receive.Ledger ∧
      Onward (System.process { s with container := { s.container with inbox := rest } } r)
        s.receive := by
  obtain ⟨hl, hhand⟩ := h.taken hi
  obtain ⟨hl, hon⟩ := hl.process ho.consistent.ordered.coherent hhand
  have hc := (ho.process hs hi).uncancelled
  unfold System.receive
  rw [hi]
  dsimp only
  generalize System.process _ r = s₁ at hl hc
  split
  · exact hl.shutDown hc
  · exact ⟨hl, .refl s₁⟩

theorem Ledger.onward_remove {name : Name} {rest : List Request} (h : s.Ledger) (ho : s.Orderly)
    (hs : s.container.isServing = true) (hi : s.container.inbox = .remove name k :: rest) :
    s.receive.Holds k ∨ s.receive.world.status k = some (some (.ok .done)) := by
  obtain ⟨hl, hhand⟩ := h.taken hi
  obtain ⟨_, hon⟩ := h.receive ho hs hi
  obtain ⟨_, _, hk⟩ := hl.remove ho.consistent.ordered.coherent hhand
  rcases hk with hk | hk
  · exact hon.held hk
  · exact .inr (hon.settled hk)

theorem Ledger.onward_close {rest : List Request} (h : s.Ledger) (ho : s.Orderly)
    (hst : s.container.stage = .opened) (hi : s.container.inbox = .close k :: rest) :
    s.receive.Holds k ∨ s.receive.world.status k = some (some (.ok .done)) := by
  obtain ⟨hl, hhand⟩ := h.taken hi
  obtain ⟨_, hon⟩ := h.receive ho (isServing_iff.mpr (.inl hst)) hi
  obtain ⟨_, _, hk⟩ := hl.close ho.consistent.ordered.coherent hhand
  exact hon.held (hk hst)

theorem Ledger.onward_receive {r : Request} {rest : List Request} (h : s.Ledger) (ho : s.Orderly)
    (hs : s.container.isServing = true) (hi : s.container.inbox = r :: rest) :
    s.Onward s.receive := by
  obtain ⟨hl, hhand⟩ := h.taken hi
  obtain ⟨_, hon⟩ := hl.process ho.consistent.ordered.coherent hhand
  have hon := hon.trans (h.receive ho hs hi).2
  refine ⟨hon.settled, hon.held, fun {k name} hk => ?_⟩
  rw [hi] at hk
  rcases List.mem_cons.mp hk with rfl | hk
  · exact .inr ((h.onward_remove ho hs hi).imp_right .inl)
  · exact hon.asked hk

/-- A container that ends keeps its promises. -/
theorem Ledger.finish (h : s.Ledger) (ho : s.Orderly) (hst : s.container.stage = .closed) :
    s.finish.Ledger ∧ s.Onward s.finish := by
  have hu := unmoved_finish s
  have hnone := (ho.unserved (by simp [Container.isServing, hst])).1
  have hempty : s.container.removals = ∅ := by
    refine Std.ExtTreeMap.eq_empty_iff_forall_not_mem.mpr fun name hmem => ?_
    obtain ⟨n, hn⟩ := h.known hmem
    simp [hnone name] at hn
  have hheld : ∀ {k : Ticket}, s.Holds k → k ∈ s.container.closing := by
    rintro k ⟨a, ha⟩
    cases a with
    | none => exact ha
    | some name => simp [Container.held, hempty] at ha
  have hholds : ∀ {k : Ticket} {a : Option Name}, k ∉ s.finish.container.held a := by
    intro k a
    rw [hu.container]
    cases a <;> simp [Container.held]
  have hinbox : s.finish.container.inbox = s.container.inbox := by rw [hu.container]
  obtain ⟨s₁, hpledges, hfinish⟩ : ∃ s₁ : System, s₁.world.pledges = s.world.pledges ∧
      s.finish = s₁.settleAll s.container.closing (.ok .done) := by
    have hvalues : (∅ : Std.ExtTreeMap Name (List Ticket) compare).values.flatten = [] := rfl
    refine ⟨{ s.log .info "🔌 Service container closed" with
      container := { s.container with ended := true, removals := ∅, closing := [] } }, rfl, ?_⟩
    unfold System.finish
    dsimp only
    rw [show (s.log .info "🔌 Service container closed").container.removals = ∅ from hempty, hvalues]
    rfl
  have hw : Settles (· ∈ s.container.closing) s.world s.finish.world := by
    rw [hfinish]
    exact (Settles.of_eq hpledges).trans (settles_settleAll _ _ _)
  refine ⟨h.pass hw ?_ (fun hk => absurd hk hholds) ?_ (fun {k} hk => ?_) ?_,
    hw.settled, fun hk => .inr ?_, fun hk => .inl (hinbox ▸ hk)⟩
  · exact Container.tickets_congr hinbox ▸ List.Sublist.refl _
  · unfold Installs
    rw [hu.controllers]
    exact fun hk => hk
  · rw [Container.tickets_congr hinbox]
    refine ⟨fun hmem => (h.asked hmem).2.1 ⟨none, hk⟩, ?_⟩
    rintro ⟨a, ha⟩
    exact hholds ha
  · intro name hmem
    rw [hu.container] at hmem
    simp at hmem
  · rw [hfinish]
    exact status_settleAll (hheld hk) ((World.status_congr hpledges).trans (h.held hk).1) _

/-! ## Whole steps -/

/-- A step that concerns no promises. -/
theorem Ledger.congr (h : s.Ledger) (hw : s'.world.pledges = s.world.pledges) {stage : Stage}
    (hc : s'.container = { s.container with stage })
    (hinstalls : ∀ {k : Ticket}, s'.Installs k → s.Installs k) : s'.Ledger ∧ s.Onward s' := by
  have hheld : ∀ a, s'.container.held a = s.container.held a := by
    intro a
    rw [hc]
    cases a <;> rfl
  have hholds : ∀ {k : Ticket}, s'.Holds k ↔ s.Holds k := fun {k} => by simp only [Holds, hheld]
  have hinbox : s'.container.inbox = s.container.inbox := by rw [hc]
  have hsettles : Settles (fun _ => False) s.world s'.world := .of_eq hw
  refine ⟨h.pass hsettles ?_ (hheld _ ▸ ·) hinstalls (fun hp => hp.elim) ?_,
    hsettles.settled, fun hk => .inl (hholds.mpr hk), fun hk => .inl (hinbox ▸ hk)⟩
  · exact Container.tickets_congr hinbox ▸ List.Sublist.refl _
  · unfold Known
    rw [hc]
    exact h.known

theorem Ledger.turn {id : Nat} {c : Controller} {t : Turn} (h : s.Ledger)
    (hc : s.controllers[id]? = some c) (ht : t.Pays s.world c) :
    (s.applyTurn id t).Ledger ∧ s.Onward (s.applyTurn id t) := by
  obtain ⟨w, hsettles, hasked⟩ := ht.asks
  have hid : id < s.controllers.length := (List.getElem?_eq_some_iff.mp hc).1
  have ha := applies_applyTurn (t := t) hid
  have hinstall : ∀ k, c.install = some k → s.Installs k := fun k hk => ⟨id, c, hc, hk⟩
  have hrequests : (t.requests ++ t.reported.toList).filterMap Request.ticket? =
      t.requests.filterMap Request.ticket? := by
    rw [List.filterMap_append, ht.reported, List.append_nil]
  have hw₁ := hsettles.mono hinstall
  have hw₂ := (settles_applyTurn s id t).mono
    (Q := fun k => Lost s.container t.requests k ∨ s.Installs k) fun k hk => by
      rcases hk with ⟨hno, hk⟩ | hk
      · exact .inl ⟨hno, hrequests ▸ hk⟩
      · exact .inr (hinstall k (ht.install hk))
  refine ⟨h.asks hw₁ hasked hw₂ ha.container hrequests ?_, onward_asks hw₁ hasked hw₂ ha.container⟩
  rintro k ⟨i, c', hc', hk⟩
  rcases ha.cases_controller hc' with ⟨_, rfl⟩ | ⟨_, hc'⟩
  · exact hinstall k (ht.install (Turn.final_install hk))
  · exact ⟨i, c', hc', hk⟩

theorem Ledger.step {x : Stimulus} (h : s.Ledger) (ho : s.Orderly) (hs : Step s x s') :
    s'.Ledger ∧ s.Onward s' := by
  cases hs with
  | calm hcalm =>
      refine h.congr hcalm.pledges hcalm.container ?_
      rintro k ⟨i, c', hc', hk⟩
      obtain ⟨c, hc, hn⟩ := hcalm.exists_controller hc'
      refine ⟨i, c, hc, ?_⟩
      rcases hn with rfl | rfl <;> exact hk
  | opened origin hst hu hw =>
      refine h.congr hw hu.container ?_
      unfold Installs
      rw [hu.controllers]
      exact fun hk => hk
  | asked origin o requests w ha =>
      have hsent := sends_sendAll { s with world := w } requests
      have hw₁ : Settles s.Installs s.world s.world := .of_eq rfl
      have hw₂ := (settles_sendAll { s with world := w } requests).mono
        (Q := fun k => Lost s.container requests k ∨ s.Installs k) fun k hk => .inl hk
      refine ⟨h.asks hw₁ ha hw₂ hsent.container rfl ?_, onward_asks hw₁ ha hw₂ hsent.container⟩
      unfold Installs
      rw [hsent.controllers]
      exact fun hk => hk
  | received request rest hserving hi =>
      exact ⟨(h.receive ho hserving hi).1, h.onward_receive ho hserving hi⟩
  | finished hst hq => exact h.finish ho hst
  | took id c hc hcan => exact h.turn hc (Turn.pays_take hcan id s.world)
  | resumed id c callback answer hc hwake => exact h.turn hc (Turn.pays_resume hwake id)
  | joined id t outcome hj =>
      refine h.congr hj.pledges hj.container ?_
      rintro k ⟨i, c', hc', hk⟩
      rw [hj.controllers] at hc'
      obtain ⟨c, hc, rfl⟩ := Option.map_eq_some_iff.mp hc'
      exact ⟨i, c, hc, c.told_install _ ▸ hk⟩

theorem ledger_initial : initial.Ledger := by
  have hheld : ∀ {k : Ticket} {a : Option Name}, k ∉ initial.container.held a := by
    intro k a
    cases a <;> simp [initial, Container.fresh, Container.held]
  refine ⟨List.nodup_nil, ?_, ?_, fun ha => absurd ha hheld, ?_, ?_⟩
  · intro k hk
    simp [initial, Container.fresh, Container.tickets] at hk
  · rintro k ⟨a, ha⟩
    exact absurd ha hheld
  · rintro k ⟨i, c, hc, _⟩
    simp [initial] at hc
  · intro name hmem
    simp [initial, Container.fresh] at hmem

/-- Whatever happens, short of being told to stop where it is, nobody takes a promise of someone
else. -/
theorem Ledger.run (h : s.Ledger) (ho : s.Orderly) {happened : List Stimulus}
    (hx : ∀ x ∈ happened, x ≠ .cancel) : (s.run happened).Ledger ∧ s.Onward (s.run happened) := by
  induction happened generalizing s with
  | nil => exact ⟨h, .refl s⟩
  | cons x happened ih =>
      have hs := step_apply ho.uncancelled (hx x List.mem_cons_self)
      obtain ⟨hl, hon⟩ := h.step ho hs
      obtain ⟨hl', hon'⟩ := ih hl (ho.step hs) fun y hy => hx y (List.mem_cons_of_mem _ hy)
      exact ⟨hl', hon.trans hon'⟩

theorem ledger_run {happened : List Stimulus} (hx : ∀ x ∈ happened, x ≠ .cancel) :
    (initial.run happened).Ledger :=
  (ledger_initial.run orderly_initial hx).1

end System

end ServiceHost

import ServiceHost.Graph.Trial
import ServiceHost.Proofs.Graph.Indexes

/-! # Signals sent by the graph

Every operation of the graph is described by the node it leaves under each name and by the signals
it sends to each inbox. A graph is coherent if its nodes and its index of dependents agree. -/

namespace ServiceHost

/-- The signal a message carries, if it is one of the lifecycle. -/
def Message.signal? : Message → Option Signal
  | .lifecycle event => some event.signal
  | .reference _ => none

namespace Graph

/-- The signals sent to an inbox, in order. -/
def signalsTo (i : Inbox) (sent : List Delivery) : List Signal :=
  (Trial.messagesTo i sent).filterMap Message.signal?

/-- The incarnation installed under a name is the one with this inbox. -/
def Hosts (g : Graph) (m : Name) (i : Inbox) : Prop := ∃ n : Node, g.nodes[m]? = some n ∧ n.inbox = i

/-- The incarnation with this inbox is installed, with a name among its dependencies. -/
def Needs (g : Graph) (i : Inbox) (d : Name) : Prop :=
  ∃ (m : Name) (n : Node), g.nodes[m]? = some n ∧ n.inbox = i ∧ d ∈ n.dependencies

/-- No two installed services share an inbox. -/
def InboxesDistinct (g : Graph) : Prop :=
  ∀ ⦃m m' : Name⦄ ⦃n n' : Node⦄, g.nodes[m]? = some n → g.nodes[m']? = some n' →
    n.inbox = n'.inbox → m = m'

/-- The index of dependents is exact, every incarnation has an inbox of its own, and only a
stopping service awaits dependents: installed ones, and at least one of them. -/
structure Coherent (g : Graph) : Prop where
  dependents : ∀ {d m : Name}, m ∈ g.dependents.members d ↔
    ∃ n : Node, g.nodes[m]? = some n ∧ d ∈ n.dependencies
  inboxes : g.InboxesDistinct
  value : ∀ {m : Name} {n : Node}, g.nodes[m]? = some n → n.stopping = true → n.value = none
  pending : ∀ {m : Name} {n : Node} {p : Names}, g.nodes[m]? = some n →
    n.pendingDependents = some p →
    n.stopping = true ∧ p ≠ ∅ ∧ ∀ x ∈ p, ∃ k : Node, g.nodes[x]? = some k ∧ m ∈ k.dependencies

/-- An operation that adds no service and gives none another inbox keeps them distinct. -/
theorem InboxesDistinct.of_nodes {g g' : Graph} (hg : g.InboxesDistinct)
    (h : ∀ (x : Name) (n' : Node), g'.nodes[x]? = some n' →
      ∃ n : Node, g.nodes[x]? = some n ∧ n.inbox = n'.inbox) : g'.InboxesDistinct := by
  intro x x' n n' hn hn' hi
  obtain ⟨k, hk, hki⟩ := h x n hn
  obtain ⟨k', hk', hki'⟩ := h x' n' hn'
  exact hg hk hk' (by rw [hki, hki', hi])

theorem InboxesDistinct.eq_of_hosts {g : Graph} (hg : g.InboxesDistinct) {a b : Name} {n : Node}
    (hn : g.nodes[a]? = some n) (h : g.Hosts b n.inbox) : b = a := by
  obtain ⟨k, hk, hi⟩ := h
  exact hg hk hn hi

/-! ## Signals -/

@[simp] theorem signalsTo_nil (i : Inbox) : signalsTo i [] = [] := rfl

@[simp] theorem signalsTo_append (i : Inbox) (l l' : List Delivery) :
    signalsTo i (l ++ l') = signalsTo i l ++ signalsTo i l' := by
  simp [signalsTo, Trial.messagesTo]

@[simp] theorem signalsTo_cons (i : Inbox) (d : Delivery) (l : List Delivery) :
    signalsTo i (d :: l) =
      (if d.inbox = i then d.message.signal?.toList else []) ++ signalsTo i l := by
  by_cases h : d.inbox = i
  · cases hm : d.message.signal? <;> simp [signalsTo, Trial.messagesTo, h, hm]
  · simp [signalsTo, Trial.messagesTo, h]

theorem signalsTo_eq_nil {i : Inbox} {l : List Delivery}
    (h : ∀ d ∈ l, d.message.signal? = none) : signalsTo i l = [] := by
  induction l with
  | nil => rfl
  | cons d l ih => simp [h d (by simp), ih fun d hd => h d (by simp [hd])]

@[simp] theorem signalsTo_notifyAll_reference (g : Graph) (names : List Name) (u : GroupUpdate)
    (i : Inbox) : signalsTo i (g.notifyAll names (.reference u)) = [] := by
  apply signalsTo_eq_nil
  intro d hd
  simp only [notifyAll, List.mem_filterMap, Option.map_eq_some_iff] at hd
  obtain ⟨m, _, n, _, rfl⟩ := hd
  rfl

open Classical in
/-- A message to the services of a list reaches each of them once. -/
theorem signalsTo_notifyAll {g : Graph} (hg : g.InboxesDistinct) {names : List Name} (hn : names.Nodup)
    (e : Event) (i : Inbox) :
    signalsTo i (g.notifyAll names (.lifecycle e)) =
      if ∃ m ∈ names, g.Hosts m i then [e.signal] else [] := by
  induction names with
  | nil => simp [notifyAll]
  | cons m names ih =>
      obtain ⟨hm, hn⟩ := List.nodup_cons.mp hn
      have ih := ih hn
      cases hk : g.nodes[m]? with
      | none =>
          have hno : ¬g.Hosts m i := by simp [Hosts, hk]
          simpa [notifyAll, hk, hno] using ih
      | some n =>
          have hcons : g.notifyAll (m :: names) (.lifecycle e) =
              ⟨n.inbox, .lifecycle e⟩ :: g.notifyAll names (.lifecycle e) := by
            simp [notifyAll, hk]
          rw [hcons, signalsTo_cons, ih]
          by_cases hi : n.inbox = i
          · -- the name found here is the only one with this inbox
            have hrest : ¬∃ m' ∈ names, g.Hosts m' i := by
              rintro ⟨m', hm', n', hn', hi'⟩
              have := hg hk hn' (hi.trans hi'.symm)
              exact hm (this ▸ hm')
            have hhere : ∃ m' ∈ m :: names, g.Hosts m' i := ⟨m, by simp, n, hk, hi⟩
            simp only [hi, hrest, hhere, if_true, if_false]
            rfl
          · have hno : ¬g.Hosts m i := by
              rintro ⟨n', hn', hi'⟩
              simp_all
            simp [hi, hno]

theorem contains_eq (g : Graph) (x : Name) : g.contains x = g.nodes[x]?.isSome :=
  Std.ExtTreeMap.contains_eq_isSome_getElem?

theorem contains_iff {g : Graph} {x : Name} :
    g.contains x = true ↔ ∃ n, g.nodes[x]? = some n := by
  rw [contains_eq, Option.isSome_iff_exists]

theorem not_contains_iff {g : Graph} {x : Name} :
    ¬g.contains x = true ↔ g.nodes[x]? = none := by
  rw [contains_eq, Option.not_isSome_iff_eq_none]

/-! ## Exposure -/

theorem exposed?_eq (g : Graph) (d : Name) :
    g.exposed? d = g.nodes[d]?.bind fun n => if n.stopping then none else n.value := rfl

theorem mapM_eq_none {α β : Type} {f : α → Option β} {l : List α} :
    l.mapM f = none ↔ ∃ a ∈ l, f a = none := by
  induction l with
  | nil => simp
  | cons a l ih =>
      cases h : f a with
      | none => simp [List.mapM_cons, h]
      | some b =>
          cases hl : l.mapM f with
          | none =>
              have := ih.mp hl
              simpa [List.mapM_cons, h, hl] using this
          | some bs =>
              have hno : ¬∃ a ∈ l, f a = none := fun hx => by simpa [hl] using ih.mpr hx
              simpa [List.mapM_cons, h, hl] using hno

theorem mem_of_mapM_eq_some {α β : Type} {f : α → Option β} {l : List α} {r : List β}
    (h : l.mapM f = some r) : ∀ b ∈ r, ∃ a ∈ l, f a = some b := by
  induction l generalizing r with
  | nil => simp_all
  | cons a l ih =>
      cases ha : f a with
      | none => simp [List.mapM_cons, ha] at h
      | some c =>
          cases hl : l.mapM f with
          | none => simp [List.mapM_cons, ha, hl] at h
          | some cs =>
              simp [List.mapM_cons, ha, hl] at h
              subst h
              intro b hb
              rcases List.mem_cons.mp hb with rfl | hb
              · exact ⟨a, by simp, ha⟩
              · obtain ⟨x, hx, hfx⟩ := ih hl b hb
                exact ⟨x, by simp [hx], hfx⟩

theorem exists_of_mapM_eq_some {α β : Type} {f : α → Option β} {l : List α} {r : List β}
    (h : l.mapM f = some r) : ∀ a ∈ l, ∃ b ∈ r, f a = some b := by
  induction l generalizing r with
  | nil => simp
  | cons a l ih =>
      cases ha : f a with
      | none => simp [List.mapM_cons, ha] at h
      | some c =>
          cases hl : l.mapM f with
          | none => simp [List.mapM_cons, ha, hl] at h
          | some cs =>
              simp [List.mapM_cons, ha, hl] at h
              subst h
              intro x hx
              rcases List.mem_cons.mp hx with rfl | hx
              · exact ⟨c, by simp, ha⟩
              · obtain ⟨b, hb, hf⟩ := ih hl x hx
                exact ⟨b, by simp [hb], hf⟩

/-- The values of a set of dependencies are missing as long as one of them is not exposed. -/
theorem available?_eq_none {g : Graph} {ds : Names} :
    g.available? ds = none ↔ ∃ d ∈ ds, g.exposed? d = none := by
  simp [available?, mapM_eq_none]

theorem exposed?_of_mem_available? {g : Graph} {ds : Names} {values : List (Name × Value)}
    (h : g.available? ds = some values) {d : Name} {v : Value} (hd : (d, v) ∈ values) :
    d ∈ ds ∧ g.exposed? d = some v := by
  obtain ⟨a, ha, hf⟩ := mem_of_mapM_eq_some h _ hd
  obtain ⟨w, hw, he⟩ := Option.map_eq_some_iff.mp hf
  obtain ⟨rfl, rfl⟩ := Prod.mk.inj he
  exact ⟨by simpa using ha, hw⟩

theorem exists_of_mem_available? {g : Graph} {ds : Names} {values : List (Name × Value)}
    (h : g.available? ds = some values) {d : Name} (hd : d ∈ ds) :
    ∃ v, (d, v) ∈ values ∧ g.exposed? d = some v := by
  obtain ⟨⟨_, v⟩, hb, hf⟩ := exists_of_mapM_eq_some h d (by simpa using hd)
  obtain ⟨w, hw, he⟩ := Option.map_eq_some_iff.mp hf
  obtain ⟨rfl, rfl⟩ := Prod.mk.inj he
  exact ⟨w, hb, hw⟩

theorem available?_congr {g g' : Graph} (h : ∀ d, g'.exposed? d = g.exposed? d) (ds : Names) :
    g'.available? ds = g.available? ds := by
  simp [available?, h]

end Graph

end ServiceHost

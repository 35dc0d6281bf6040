import Mathlib.Data.List.Induction
import ServiceHost.Proofs.Graph.Trials

/-! # The stop protocol

Over every sequence of steps: when a service begins to stop, whom it tells, and when it is told
itself that its dependents are removed. Incarnations are told apart by their inboxes, so a service
reinstalled under the name of another is not mistaken for it. -/

namespace ServiceHost.Graph.Trial

/-- The trial after steps carried out from the beginning. -/
def after (past : List TrialStep) : Trial := past.foldl next fresh

/-- Everything steps carried out from a trial send, in order. -/
def trace : Trial → List TrialStep → List Delivery
  | _, [] => []
  | t, s :: rest => t.sends s ++ (t.next s).trace rest

/-- Some service is installed with this inbox. -/
def Installed (past : List TrialStep) (i : Inbox) : Prop := ∃ m, (after past).graph.Hosts m i

/-- The incarnation of a service was asked to stop, or was on its way out, in one of the steps. -/
def StoppedIn (past : List TrialStep) (a : Name) (i : Inbox) : Prop :=
  ∃ p s r, past = p ++ s :: r ∧ (after p).graph.Hosts a i ∧ s.Stops a

/-- A step, taken after others, is the first that stops the incarnation of a service. -/
def BeginsToStop (past : List TrialStep) (s : TrialStep) (a : Name) (i : Inbox) : Prop :=
  (after past).graph.Hosts a i ∧ s.Stops a ∧ ¬StoppedIn past a i

/-- A step frees an incarnation to stop: it begins to stop and nothing depends on it, or the step
unregisters the last of those that depended on it when it began to. -/
def Frees (past : List TrialStep) (s : TrialStep) (a : Name) (i : Inbox) : Prop :=
  (BeginsToStop past s a i ∧ ∀ j, ¬(after past).graph.Needs j a) ∨
  ∃ p q r, past = p ++ q :: r ∧ BeginsToStop p q a i ∧ (after (past ++ [s])).graph.Hosts a i ∧
    (∃ j, (after p).graph.Needs j a ∧ Installed past j) ∧
    ∀ j, (after p).graph.Needs j a → ¬Installed (past ++ [s]) j

/-! ## Histories -/

variable {past : List TrialStep} {s : TrialStep} {a x : Name} {i : Inbox} {n n' : Node}

theorem after_append (past : List TrialStep) (s : TrialStep) :
    after (past ++ [s]) = (after past).next s := by
  simp [after]

theorem trace_append_steps (t : Trial) (past later : List TrialStep) :
    t.trace (past ++ later) = t.trace past ++ (past.foldl next t).trace later := by
  induction past generalizing t with
  | nil => rfl
  | cons s past ih => simp [trace, ih]

theorem trace_append (t : Trial) (past : List TrialStep) (s : TrialStep) :
    t.trace (past ++ [s]) = t.trace past ++ (past.foldl next t).sends s := by
  rw [trace_append_steps, trace, trace, List.append_nil]

theorem sound_after (past : List TrialStep) : (after past).Sound := by
  induction past using List.reverseRecOn with
  | nil => exact ⟨coherent_empty, fun {m n} h => by simp [after, fresh, empty] at h⟩
  | append_singleton past s ih =>
      rw [after_append]
      exact (stepSpec ih s).sound

theorem length_after_le (p r : List TrialStep) :
    (after p).inboxes.length ≤ (after (p ++ r)).inboxes.length := by
  induction r using List.reverseRecOn with
  | nil => simp
  | append_singleton r s ih =>
      rw [← List.append_assoc, after_append]
      exact Nat.le_trans ih (stepSpec (sound_after _) s).grows

theorem StepSpec.hosts {t : Trial} (h : t.StepSpec s) (hi : i < t.inboxes.length) :
    (t.next s).graph.Hosts x i ↔ t.graph.Hosts x i ∧ ¬s.Removes x := by
  constructor
  · rintro ⟨n', hn', hni⟩
    by_cases hr : s.Removes x
    · simp [h.gone hr] at hn'
    · cases hn : t.graph.nodes[x]? with
      | none =>
          exact absurd hi (by rw [← hni, (h.new hn hn').1]; exact Nat.lt_irrefl _)
      | some n =>
          obtain ⟨k, hk, hs⟩ := h.survives hn hr
          rw [hn', Option.some.injEq] at hk
          subst hk
          exact ⟨⟨n, hn, hs.inbox ▸ hni⟩, hr⟩
  · rintro ⟨⟨n, hn, hni⟩, hr⟩
    obtain ⟨k, hk, hs⟩ := h.survives hn hr
    exact ⟨k, hk, hs.inbox.trans hni⟩

theorem hosts_lt (h : (after past).graph.Hosts a i) : i < (after past).inboxes.length := by
  obtain ⟨n, hn, rfl⟩ := h
  exact (sound_after past).known hn

theorem needs_lt {j : Inbox} (h : (after past).graph.Needs j a) :
    j < (after past).inboxes.length := by
  obtain ⟨m, n, hn, rfl, _⟩ := h
  exact (sound_after past).known hn

/-- An incarnation that was there once and is there after a step was there before the step, under
the same name, which the step did not remove. -/
theorem hosts_append {p r : List TrialStep} (hi : i < (after p).inboxes.length)
    (hp : past = p ++ r) : (after (past ++ [s])).graph.Hosts x i ↔
      (after past).graph.Hosts x i ∧ ¬s.Removes x := by
  have hlen : i < (after past).inboxes.length :=
    Nat.lt_of_lt_of_le hi (hp ▸ length_after_le p r)
  rw [after_append]
  exact (stepSpec (sound_after past) s).hosts hlen

/-! ## Who has begun to stop -/

theorem stoppedIn_append : StoppedIn (past ++ [s]) a i ↔
    StoppedIn past a i ∨ ((after past).graph.Hosts a i ∧ s.Stops a) := by
  simp only [StoppedIn, append_eq_split]
  constructor
  · rintro ⟨p, q, r, ⟨rfl, rfl, rfl⟩ | ⟨r', rfl, rfl⟩, h⟩
    · exact .inr h
    · exact .inl ⟨p, q, r', rfl, h⟩
  · rintro (⟨p, q, r, rfl, h⟩ | h)
    · exact ⟨p, q, r ++ [s], .inr ⟨r, rfl, rfl⟩, h⟩
    · exact ⟨past, s, [], .inl ⟨rfl, rfl, rfl⟩, h⟩

/-- Whatever was stopped was stopped a first time. -/
theorem stoppedIn_iff_begins : StoppedIn past a i ↔
    ∃ p s r, past = p ++ s :: r ∧ BeginsToStop p s a i := by
  constructor
  · induction past using List.reverseRecOn with
    | nil => rintro ⟨p, s, r, h, _⟩; simp at h
    | append_singleton past q ih =>
        intro h
        by_cases hbefore : StoppedIn past a i
        · obtain ⟨p, s, r, rfl, hb⟩ := ih hbefore
          exact ⟨p, s, r ++ [q], by simp, hb⟩
        · obtain ⟨hh, hs⟩ := (stoppedIn_append.mp h).resolve_left hbefore
          exact ⟨past, q, [], rfl, hh, hs, hbefore⟩
  · rintro ⟨p, s, r, h, hh, hs, _⟩
    exact ⟨p, s, r, h, hh, hs⟩

/-- An incarnation begins to stop once. -/
theorem BeginsToStop.unique {p p' r r' : List TrialStep} {q q' : TrialStep}
    (h : BeginsToStop p q a i) (h' : BeginsToStop p' q' a i)
    (he : p ++ q :: r = p' ++ q' :: r') : p = p' := by
  rcases List.append_eq_append_iff.mp he with ⟨l, rfl, hl⟩ | ⟨l, rfl, hl⟩
  · cases l with
    | nil => simp
    | cons e l =>
        obtain ⟨rfl, rfl⟩ := List.cons.inj hl
        exact absurd ⟨p, q, l, rfl, h.1, h.2.1⟩ h'.2.2
  · cases l with
    | nil => simp
    | cons e l =>
        obtain ⟨rfl, rfl⟩ := List.cons.inj hl
        exact absurd ⟨p', q', l, rfl, h'.1, h'.2.1⟩ h.2.2

/-- What the steps so far have left: a service is stopping if one of them stopped it, and it awaits
those of the incarnations that depended on it then which are still installed. -/
structure Ledger (past : List TrialStep) : Prop where
  stopping : ∀ {a : Name} {n : Node}, (after past).graph.nodes[a]? = some n →
    (n.stopping = true ↔ StoppedIn past a n.inbox)
  awaited : ∀ {p r : List TrialStep} {q : TrialStep} {a : Name} {n : Node},
    past = p ++ q :: r → BeginsToStop p q a n.inbox → (after past).graph.nodes[a]? = some n →
    ∀ x, (∃ set, n.pendingDependents = some set ∧ x ∈ set) ↔
      ∃ j, (after p).graph.Needs j a ∧ (after past).graph.Hosts x j

/-- A node found after a step was there before it, or is new. -/
theorem StepSpec.cases {t : Trial} (h : t.StepSpec s) (hn' : (t.next s).graph.nodes[a]? = some n') :
    (∃ n : Node, t.graph.nodes[a]? = some n ∧ ¬s.Removes a ∧ t.Survives s a n n') ∨
      (n'.inbox = t.inboxes.length ∧ n'.stopping = false) := by
  cases hn : t.graph.nodes[a]? with
  | none =>
      obtain ⟨hi, _, hs⟩ := h.new hn hn'
      exact .inr ⟨hi, hs⟩
  | some n =>
      have hr : ¬s.Removes a := fun hr => by simp [h.gone hr] at hn'
      obtain ⟨k, hk, hs⟩ := h.survives hn hr
      rw [hn', Option.some.injEq] at hk
      exact .inl ⟨n, rfl, hr, hk ▸ hs⟩

theorem StoppedIn.lt (h : StoppedIn past a i) : i < (after past).inboxes.length := by
  obtain ⟨p, q, r, rfl, hh, _⟩ := h
  exact Nat.lt_of_lt_of_le (hosts_lt hh) (length_after_le p _)

theorem ledger (past : List TrialStep) : Ledger past := by
  induction past using List.reverseRecOn with
  | nil =>
      have hno : ∀ (a : Name) (n : Node), (after []).graph.nodes[a]? ≠ some n := by
        intro a n
        simp [after, fresh, empty]
      exact ⟨fun {a n} hn => absurd hn (hno a n), fun {_ _ _ a n} _ _ hn => absurd hn (hno a n)⟩
  | append_singleton past s ih =>
      have hspec := stepSpec (sound_after past) s
      have hcoh := (sound_after past).coherent
      constructor
      · intro a n' hn'
        rw [after_append] at hn'
        rw [stoppedIn_append]
        rcases hspec.cases hn' with ⟨n, hn, _, hs⟩ | ⟨hi, hns⟩
        · have hh : (after past).graph.Hosts a n'.inbox := ⟨n, hn, hs.inbox.symm⟩
          rw [hs.stopping, ih.stopping hn, hs.inbox]
          rw [hs.inbox] at hh
          simp [hh]
        · -- a new incarnation has no past
          have hlt : ¬n'.inbox < (after past).inboxes.length := by
            rw [hi]
            exact Nat.lt_irrefl _
          have hno : ¬StoppedIn past a n'.inbox := fun h => hlt h.lt
          have hno' : ¬(after past).graph.Hosts a n'.inbox := fun h => hlt (hosts_lt h)
          simp [hns, hno, hno']
      · intro p r q a n' hp hb hn' x
        have hlt := hosts_lt hb.1
        rw [after_append] at hn'
        rcases append_eq_split.mp hp with ⟨rfl, rfl, rfl⟩ | ⟨r', rfl, rfl⟩
        · -- the step in which it begins to stop
          rcases hspec.cases hn' with ⟨n, hn, hr, hs⟩ | ⟨hi, _⟩
          · have hawake : n.stopping = false := by
              rw [← Bool.not_eq_true, ih.stopping hn, ← hs.inbox]
              exact hb.2.2
            rw [hs.begun hawake hb.2.1, hcoh.mem_dependentsOf]
            constructor
            · rintro ⟨k, hk, ha⟩
              have hx : ¬q.Removes x := fun h => hr (h.stops.eq hb.2.1 ▸ h)
              have hlt := (sound_after p).known hk
              refine ⟨k.inbox, ⟨x, k, hk, rfl, ha⟩, ?_⟩
              rw [hosts_append hlt (List.append_nil p).symm]
              exact ⟨⟨k, hk, rfl⟩, hx⟩
            · rintro ⟨j, hneeds, hx⟩
              obtain ⟨⟨k, hk, hkj⟩, _⟩ :=
                (hosts_append (needs_lt hneeds) (List.append_nil p).symm).mp hx
              obtain ⟨m, k', hk', hkj', ha⟩ := hneeds
              obtain rfl := hcoh.inboxes hk hk' (hkj.trans hkj'.symm)
              rw [hk, Option.some.injEq] at hk'
              exact ⟨k, hk, hk' ▸ ha⟩
          · exact absurd hlt (by rw [hi]; exact Nat.lt_irrefl _)
        · -- a step after it
          rcases hspec.cases hn' with ⟨n, hn, _, hs⟩ | ⟨hi, _⟩
          · have hstop : n.stopping = true := by
              rw [ih.stopping hn, ← hs.inbox]
              exact stoppedIn_iff_begins.mpr ⟨p, q, r', rfl, hb⟩
            rw [hs.stopped hstop, ih.awaited rfl (hs.inbox ▸ hb) hn]
            constructor
            · rintro ⟨hx, j, hneeds, hh⟩
              exact ⟨j, hneeds, (hosts_append (needs_lt hneeds) rfl).mpr ⟨hh, hx⟩⟩
            · rintro ⟨j, hneeds, hh⟩
              obtain ⟨hh, hx⟩ := (hosts_append (needs_lt hneeds) rfl).mp hh
              exact ⟨hx, j, hneeds, hh⟩
          · exact absurd (Nat.lt_of_lt_of_le hlt (length_after_le p _))
              (by rw [hi]; exact Nat.lt_irrefl _)

/-! ## Signals -/

theorem begins_iff : BeginsToStop past s a i ↔
    s.Stops a ∧ (after past).graph.Awake a ∧ (after past).graph.Hosts a i := by
  constructor
  · rintro ⟨⟨n, hn, rfl⟩, hs, hno⟩
    rw [← (ledger past).stopping hn, Bool.not_eq_true] at hno
    exact ⟨hs, ⟨n, hn, hno⟩, n, hn, rfl⟩
  · rintro ⟨hs, ⟨n, hn, hno⟩, k, hk, rfl⟩
    rw [hn, Option.some.injEq] at hk
    subst hk
    refine ⟨⟨n, hn, rfl⟩, hs, ?_⟩
    rw [← (ledger past).stopping hn, hno]
    exact Bool.false_ne_true

theorem awaitsOnly_iff : (∃ b m, s.Removes b ∧ m ≠ b ∧ ∃ k : Node,
      (after past).graph.nodes[m]? = some k ∧ k.inbox = i ∧ k.AwaitsOnly b) ↔
    ∃ a p q r, past = p ++ q :: r ∧ BeginsToStop p q a i ∧
      (after (past ++ [s])).graph.Hosts a i ∧
      (∃ j, (after p).graph.Needs j a ∧ Installed past j) ∧
      ∀ j, (after p).graph.Needs j a → ¬Installed (past ++ [s]) j := by
  constructor
  · rintro ⟨b, m, hb, hm, k, hk, rfl, set, hset, he⟩
    obtain ⟨hst, hne, _⟩ := (sound_after past).coherent.pending hk hset
    obtain ⟨p, q, r, rfl, hbegin⟩ :=
      stoppedIn_iff_begins.mp (((ledger past).stopping hk).mp hst)
    have hawaited := (ledger _).awaited rfl hbegin hk
    have hm' : ¬s.Removes m := fun h => hm (h.stops.eq hb.stops)
    refine ⟨m, p, q, r, rfl, hbegin, ?_, ?_, ?_⟩
    · exact (hosts_append (hosts_lt hbegin.1) rfl).mpr ⟨⟨k, hk, rfl⟩, hm'⟩
    · obtain ⟨x, hx⟩ := Names.exists_mem_of_ne_empty hne
      obtain ⟨j, hneeds, hh⟩ := (hawaited x).mp ⟨set, hset, hx⟩
      exact ⟨j, hneeds, x, hh⟩
    · rintro j hneeds ⟨x, hx⟩
      obtain ⟨hh, hrx⟩ := (hosts_append (needs_lt hneeds) rfl).mp hx
      obtain ⟨set', hset', hx⟩ := (hawaited x).mpr ⟨j, hneeds, hh⟩
      cases hset.symm.trans hset'
      exact hrx (Names.eq_of_erase_eq_empty he hx ▸ hb)
  · rintro ⟨a, p, q, r, rfl, hbegin, hh, ⟨j, hneeds, x, hx⟩, hgone⟩
    obtain ⟨⟨k, hk, rfl⟩, hra⟩ := (hosts_append (hosts_lt hbegin.1) rfl).mp hh
    have hawaited := (ledger _).awaited rfl hbegin hk
    -- whoever is awaited is removed by this step, and it removes only one
    have hall : ∀ y, (∃ set, k.pendingDependents = some set ∧ y ∈ set) → s.Removes y := by
      intro y hy
      obtain ⟨j', hneeds', hy'⟩ := (hawaited y).mp hy
      by_contra hry
      exact hgone j' hneeds' ⟨y, (hosts_append (needs_lt hneeds') rfl).mpr ⟨hy', hry⟩⟩
    obtain ⟨set, hset, hxs⟩ := (hawaited x).mpr ⟨j, hneeds, hx⟩
    have hrx := hall x ⟨set, hset, hxs⟩
    refine ⟨x, a, hrx, fun h => hra (h ▸ hrx), k, hk, rfl, set, hset, ?_⟩
    apply Std.ExtTreeSet.ext_mem
    intro y
    simp only [Std.ExtTreeSet.mem_erase, ne_eq, Std.LawfulEqCmp.compare_eq_iff_eq,
      Std.ExtTreeSet.not_mem_empty, iff_false, not_and]
    exact fun hne hy => hne (hrx.stops.eq (hall y ⟨set, hset, hy⟩).stops)

open Classical in
theorem count_unavailable (past : List TrialStep) (s : TrialStep) (j : Inbox) :
    (signalsTo j ((after past).sends s)).count .dependenciesUnavailable =
      if ∃ a i, BeginsToStop past s a i ∧ (after past).graph.Needs j a then 1 else 0 := by
  rw [(signalSpec (sound_after past) s j).unavailable]
  apply if_congr _ rfl rfl
  simp only [begins_iff]
  constructor
  · rintro ⟨a, hs, hawake, hneeds⟩
    obtain ⟨n, hn, hns⟩ := hawake
    exact ⟨a, n.inbox, ⟨hs, ⟨n, hn, hns⟩, n, hn, rfl⟩, hneeds⟩
  · rintro ⟨a, i, ⟨hs, hawake, _⟩, hneeds⟩
    exact ⟨a, hs, hawake, hneeds⟩

open Classical in
theorem count_stopped (past : List TrialStep) (s : TrialStep) (i : Inbox) :
    (signalsTo i ((after past).sends s)).count .dependentsStopped =
      if ∃ a, Frees past s a i then 1 else 0 := by
  rw [(signalSpec (sound_after past) s i).stopped]
  apply if_congr _ rfl rfl
  simp only [awaitsOnly_iff, Frees, begins_iff, exists_or, and_assoc]

/-- How often an incarnation was told that its dependents are gone. -/
def releases (past : List TrialStep) (i : Inbox) : Nat :=
  (signalsTo i (fresh.trace past)).count .dependentsStopped

theorem releases_append (past : List TrialStep) (s : TrialStep) (i : Inbox) :
    releases (past ++ [s]) i =
      releases past i + (signalsTo i ((after past).sends s)).count .dependentsStopped := by
  rw [releases, trace_append, signalsTo_append, List.count_append]
  rfl

open Classical in
/-- An installed incarnation was told that its dependents are gone exactly if it is stopping and
awaits no one; it was told so once at most, and never before it was installed. -/
theorem releases_eq (past : List TrialStep) :
    (∀ {a : Name} {n : Node}, (after past).graph.nodes[a]? = some n →
      releases past n.inbox = if n.Released then 1 else 0) ∧
    (∀ i, releases past i ≤ 1) ∧
    ∀ i, (after past).inboxes.length ≤ i → releases past i = 0 := by
  induction past using List.reverseRecOn with
  | nil =>
      refine ⟨fun {a n} hn => ?_, fun i => by simp [releases, trace], fun i _ => rfl⟩
      simp [after, fresh, empty] at hn
  | append_singleton past s ih =>
      obtain ⟨hnode, hone, hnew⟩ := ih
      have hsound := sound_after past
      have hspec := stepSpec hsound s
      -- who is not installed is told nothing
      have hzero : ∀ i, (∀ m, ¬(after past).graph.Hosts m i) →
          (signalsTo i ((after past).sends s)).count .dependentsStopped = 0 := by
        intro i hi
        rw [(signalSpec hsound s i).stopped, if_neg]
        rintro (⟨a, _, _, hh, _⟩ | ⟨b, m, _, _, k, hk, hki, _⟩)
        · exact hi a hh
        · exact hi m ⟨k, hk, hki⟩
      have hfresh : ∀ i, (after past).inboxes.length ≤ i → releases (past ++ [s]) i = 0 := by
        intro i hi
        rw [releases_append, hnew i hi, hzero]
        intro m hh
        exact absurd (hosts_lt hh) (Nat.not_lt.mpr hi)
      refine ⟨fun {a n'} hn' => ?_, fun i => ?_, fun i hi => ?_⟩
      · rw [after_append] at hn'
        rcases hspec.cases hn' with ⟨n, hn, hr, hs⟩ | ⟨hi, hns⟩
        · rw [releases_append, hs.inbox, hnode hn, Nat.add_comm]
          exact released_step hsound hn hn' hr hs
        · have hnr : ¬n'.Released := by simp [Node.Released, hns]
          rw [hfresh _ (Nat.le_of_eq hi.symm), if_neg hnr]
      · rw [releases_append]
        by_cases hi : ∃ m, (after past).graph.Hosts m i
        · obtain ⟨m, n, hn, rfl⟩ := hi
          by_cases hr : n.Released
          · rw [count_of_released hsound hn hr]
            exact hone _
          · rw [hnode hn, if_neg hr, (signalSpec hsound s _).stopped]
            split <;> simp
        · push Not at hi
          rw [hzero i hi]
          exact hone i
      · apply hfresh
        rw [after_append] at hi
        exact Nat.le_trans hspec.grows hi

/-! ## The protocol -/

open Classical in
/-- What holds after steps of any kind, in any order, and for whatever step comes next. -/
structure StopProtocol (past : List TrialStep) : Prop where
  /-- A service is stopping once a step has asked it to stop or has told that it is on its way out;
  the first such step is the one in which it begins to. -/
  stopping : ∀ {a : Name} {n : Node}, (after past).graph.nodes[a]? = some n →
    (n.stopping = true ↔ ∃ p s r, past = p ++ s :: r ∧ BeginsToStop p s a n.inbox)
  /-- A step begins to stop one incarnation at most. -/
  single : ∀ {s : TrialStep} {a b : Name} {i j : Inbox}, BeginsToStop past s a i →
    BeginsToStop past s b j → a = b ∧ i = j
  /-- The step in which a service begins to stop tells each incarnation that depends on it, once,
  and no other step tells anyone. -/
  unavailable : ∀ (s : TrialStep) (j : Inbox),
    (signalsTo j ((after past).sends s)).count .dependenciesUnavailable =
      if ∃ a i, BeginsToStop past s a i ∧ (after past).graph.Needs j a then 1 else 0
  /-- An incarnation is told that its dependents are gone, once, in the step that frees it. -/
  stopped : ∀ (s : TrialStep) (i : Inbox),
    (signalsTo i ((after past).sends s)).count .dependentsStopped =
      if ∃ a, Frees past s a i then 1 else 0
  /-- Over all the steps it is told at most once. -/
  once : ∀ i, (signalsTo i (fresh.trace past)).count .dependentsStopped ≤ 1
  /-- As long as it is installed it has been told exactly if none of those that depended on it when
  it began to stop is left, whoever was installed since. -/
  undelayed : ∀ {p r : List TrialStep} {s : TrialStep} {a : Name} {i : Inbox},
    past = p ++ s :: r → BeginsToStop p s a i → (after past).graph.Hosts a i →
    (signalsTo i (fresh.trace past)).count .dependentsStopped =
      if ∃ j, (after p).graph.Needs j a ∧ Installed past j then 0 else 1

open Classical in
/-- The stop protocol holds over every sequence of steps. -/
theorem stop_protocol (past : List TrialStep) : StopProtocol past where
  stopping := fun hn => ((ledger past).stopping hn).trans stoppedIn_iff_begins
  single := by
    rintro s a b i j ⟨hi, ha, _⟩ ⟨hj, hb, _⟩
    obtain rfl := ha.eq hb
    obtain ⟨n, hn, rfl⟩ := hi
    obtain ⟨k, hk, rfl⟩ := hj
    rw [hn, Option.some.injEq] at hk
    exact ⟨rfl, by rw [hk]⟩
  unavailable := count_unavailable past
  stopped := count_stopped past
  once := (releases_eq past).2.1
  undelayed := by
    rintro p r s a i hp hb ⟨n, hn, rfl⟩
    have hstop := ((ledger past).stopping hn).mpr (stoppedIn_iff_begins.mpr ⟨p, s, r, hp, hb⟩)
    have hiff : n.Released ↔ ¬∃ j, (after p).graph.Needs j a ∧ Installed past j := by
      rw [Node.Released, (sound_after past).coherent.pending_eq_none hn]
      simp only [hstop, true_and, (ledger past).awaited hp hb hn, Installed]
      constructor
      · rintro h ⟨j, hneeds, x, hx⟩
        exact h x ⟨j, hneeds, hx⟩
      · rintro h x ⟨j, hneeds, hx⟩
        exact h ⟨j, hneeds, x, hx⟩
    refine ((releases_eq past).1 hn).trans ?_
    rw [if_congr hiff rfl rfl, ite_not]

end ServiceHost.Graph.Trial

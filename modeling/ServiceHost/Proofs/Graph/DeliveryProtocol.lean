import ServiceHost.Proofs.Graph.Exposure
import ServiceHost.Proofs.Graph.StopProtocol

/-! # The delivery protocol

Over every sequence of steps: when a service is given its dependencies, and with which values.
Incarnations are told apart by their inboxes, as in the stop protocol. -/

namespace ServiceHost.Graph.Trial

/-- The incarnation with this inbox is installed and does not stop, and each service it depends on
is exposed. -/
def Ready (past : List TrialStep) (i : Inbox) : Prop :=
  ∃ (m : Name) (n : Node), (after past).graph.nodes[m]? = some n ∧ n.inbox = i ∧
    n.stopping = false ∧ ∀ d ∈ n.dependencies, ∃ v, (after past).graph.exposed? d = some v

/-- A step, taken after others, is the first after which an incarnation is ready. -/
def Completes (past : List TrialStep) (s : TrialStep) (i : Inbox) : Prop :=
  Ready (past ++ [s]) i ∧ ∀ p r, past = p ++ r → ¬Ready p i

/-- The last value the incarnation of a service reported in a state that counts. -/
def LastReported (counts : State → Prop) (past : List TrialStep) (d : Name) (j : Inbox)
    (v : Value) : Prop :=
  ∃ p reached r, past = p ++ .report d reached (some v) :: r ∧ counts reached ∧
    (after p).graph.Hosts d j ∧
    ∀ reached' w, .report d reached' (some w) ∈ r → ¬counts reached'

variable {past : List TrialStep} {t : Trial} {s : TrialStep} {a m : Name} {i : Inbox}
  {n n' : Node}

/-! ## One step -/

/-- A step gives its dependencies to whom it resolves, once, and to no one else. -/
structure GiftSpec (t : Trial) (s : TrialStep) : Prop where
  once : ∀ i, (signalsTo i (t.sends s)).count .dependenciesAvailable ≤ 1
  supplies : Supplies t.graph (t.next s).graph (t.sends s)
  resolved : ∀ {m : Name} {n n' : Node}, t.graph.nodes[m]? = some n →
    (t.next s).graph.nodes[m]? = some n' → (n'.resolved = true ↔
      n.resolved = true ∨ .dependenciesAvailable ∈ signalsTo n.inbox (t.sends s))
  registered : ∀ {m : Name} {n' : Node}, t.graph.nodes[m]? = none →
    (t.next s).graph.nodes[m]? = some n' → n'.resolved = true →
      .dependenciesAvailable ∈ signalsTo n'.inbox (t.sends s)
  awake : ∀ {m : Name} {n n' : Node}, t.graph.nodes[m]? = some n →
    (t.next s).graph.nodes[m]? = some n' → n.resolved = false → n'.resolved = true →
      n'.stopping = false
  /-- What a service exposes is what it last reported with its start. -/
  value : ∀ {m : Name} {n n' : Node}, t.graph.nodes[m]? = some n →
    (t.next s).graph.nodes[m]? = some n' → n'.stopping = false →
      (∃ v, s = .report m .started (some v) ∧ n'.value = some v) ∨
        (n'.value = n.value ∧ ∀ v, s ≠ .report m .started (some v))
  unexposed : ∀ {m : Name} {n' : Node}, t.graph.nodes[m]? = none →
    (t.next s).graph.nodes[m]? = some n' → n'.value = none
  thorough : t.graph.Thorough → (t.next s).graph.Thorough

/-- A step that changes nothing about the services. -/
theorem GiftSpec.of_same (hgraph : (t.next s).graph = t.graph) (hsends : t.sends s = [])
    (hno : ∀ {m : Name} {n : Node} (v : Value), t.graph.nodes[m]? = some n →
      s ≠ .report m .started (some v)) : t.GiftSpec s := by
  have hsame : ∀ {m : Name} {n n' : Node}, t.graph.nodes[m]? = some n →
      (t.next s).graph.nodes[m]? = some n' → n' = n := by
    intro m n n' hn hn'
    rw [hgraph, hn] at hn'
    exact (Option.some.inj hn').symm
  have hnew : ∀ {m : Name} {n' : Node}, t.graph.nodes[m]? = none →
      (t.next s).graph.nodes[m]? ≠ some n' := by
    intro m n' hn
    rw [hgraph, hn]
    simp
  refine ⟨by simp [hsends], ?_, ?_, fun hn hn' => absurd hn' (hnew hn), ?_, ?_,
    fun hn hn' => absurd hn' (hnew hn), by rw [hgraph]; exact id⟩
  · rw [hsends]
    exact supplies_of_not (by simp)
  · intro m n n' hn hn'
    simp [hsame hn hn', hsends]
  · intro m n n' hn hn' hr hr'
    rw [hsame hn hn', hr] at hr'
    cases hr'
  · intro m n n' hn hn' _
    exact .inr ⟨by rw [hsame hn hn'], fun v => hno v hn⟩

theorem giftSpec_register (ht : t.Sound) (a : Name) (ds : Names) (group : Option Name)
    (refs : Names) : t.GiftSpec (.register a ds group refs) := by
  by_cases hc : t.graph.contains a = true
  · exact .of_same (congrArg graph (next_register_of_taken hc)) (sends_register_of_taken hc)
      (by simp)
  · let r : Registration := ⟨a, ds, group, refs⟩
    have ha : t.graph.nodes[r.name]? = none := not_contains_iff.mp hc
    have hgraph : (t.next (.register a ds group refs)).graph =
        (t.graph.register r t.inboxes.length).1 := by rw [next_register_of_free hc]
    have hsends : t.sends (.register a ds group refs) =
        (t.graph.register r t.inboxes.length).2 := sends_register_of_free hc
    have hp := passage_register (r := r) ha ht.fresh_inbox
    have hself : ∀ {m : Name} {n' : Node}, t.graph.nodes[m]? = none →
        (t.next (.register a ds group refs)).graph.nodes[m]? = some n' →
        n' = (t.graph.enter r t.inboxes.length).grant (r.node t.inboxes.length) := by
      intro m n' hm hn'
      by_cases ham : r.name = m
      · subst ham
        rw [hgraph, nodes_register_self] at hn'
        exact (Option.some.inj hn').symm
      · rw [hgraph, nodes_register_of_ne _ ham, hm] at hn'
        cases hn'
    have hsame : ∀ {m : Name} {n n' : Node}, t.graph.nodes[m]? = some n →
        (t.next (.register a ds group refs)).graph.nodes[m]? = some n' → n' = n := by
      intro m n n' hn hn'
      have ham : r.name ≠ m := by
        rintro rfl
        simp [ha] at hn
      rw [hgraph, nodes_register_of_ne _ ham, hn] at hn'
      exact (Option.some.inj hn').symm
    refine ⟨fun i => ?_, ?_, ?_, ?_, ?_, ?_, ?_, ?_⟩
    · rw [hsends]
      exact count_register_le _ _ _ _
    · rw [hsends, hgraph]
      exact supplies_register t.graph r _ ha
    · intro m n n' hn hn'
      rw [hsends]
      rw [hgraph] at hn'
      exact (hp.carried hn hn').resolved
    · intro m n' hm hn' hr
      rw [hself hm hn'] at hr ⊢
      rw [hsends]
      have hr' := (carried_register t.graph r _).resolved.mp hr
      exact hr'.resolve_left (by simp [Registration.node])
    · intro m n n' hn hn' hr hr'
      rw [hsame hn hn', hr] at hr'
      cases hr'
    · intro m n n' hn hn' _
      exact .inr ⟨by rw [hsame hn hn'], by simp⟩
    · intro m n' hm hn'
      rw [hself hm hn']
      rfl
    · intro h
      rw [hgraph]
      exact thorough_register h ha _

theorem giftSpec_remove (ht : t.Sound) (a : Name) : t.GiftSpec (.remove a) := by
  have hg := ht.coherent
  have hno : ∀ i, .dependenciesAvailable ∉ signalsTo i (t.sends (.remove a)) :=
    hg.not_mem_requestRemoval a
  have hp := hg.passage_requestRemoval a
  have hnew : ∀ {m : Name} {n' : Node}, t.graph.nodes[m]? = none →
      (t.next (.remove a)).graph.nodes[m]? ≠ some n' := by
    intro m n' hm hn'
    obtain ⟨n, hn⟩ := hg.exists_of_requestRemoval hn'
    simp [hm] at hn
  refine ⟨fun i => ?_, supplies_of_not hno, fun hn hn' => (hp.carried hn hn').resolved,
    fun hm hn' => absurd hn' (hnew hm), fun hn hn' hr hr' => ?_,
    fun hn hn' hs => .inr ⟨?_, by simp⟩,
    fun hm hn' => absurd hn' (hnew hm), fun h => hg.thorough_requestRemoval h a⟩
  · rw [List.count_eq_zero.mpr (hno i)]
    exact Nat.zero_le 1
  · rcases (hp.carried hn hn').resolved.mp hr' with hr'' | hx
    · simp [hr] at hr''
    · exact absurd hx (hno _)
  · exact hg.value_requestRemoval hn hn' hs

theorem giftSpec_report (ht : t.Sound) (a : Name) (reached : State) (value : Option Value) :
    t.GiftSpec (.report a reached value) := by
  have hg := ht.coherent
  have hp := hg.passage_report (a := a) reached value
  have hnew : ∀ {m : Name} {n' : Node}, t.graph.nodes[m]? = none →
      (t.next (.report a reached value)).graph.nodes[m]? ≠ some n' := by
    intro m n' hm hn'
    obtain ⟨n, hn⟩ := hg.exists_of_report hn'
    simp [hm] at hn
  refine ⟨fun i => hg.count_report_le a reached value i, hg.supplies_report a reached value,
    fun hn hn' => (hp.carried hn hn').resolved, fun hm hn' => absurd hn' (hnew hm),
    fun hn hn' hr hr' => hg.awake_report hn hn' hr hr', fun {m n n'} hn hn' hs => ?_,
    fun hm hn' => absurd hn' (hnew hm), fun h => hg.thorough_report h a reached value⟩
  have hv := hg.value_report hn hn' hs
  by_cases hstart : a = m ∧ reached = .started ∧ value.isSome = true
  · obtain ⟨rfl, rfl, hsome⟩ := hstart
    obtain ⟨v, rfl⟩ := Option.isSome_iff_exists.mp hsome
    rw [if_pos ⟨rfl, rfl, rfl⟩] at hv
    exact .inl ⟨v, rfl, hv⟩
  · rw [if_neg hstart] at hv
    refine .inr ⟨hv, fun v he => hstart ?_⟩
    obtain ⟨rfl, rfl, rfl⟩ := TrialStep.report.inj he
    exact ⟨rfl, rfl, rfl⟩

theorem giftSpec (ht : t.Sound) (s : TrialStep) : t.GiftSpec s := by
  cases s with
  | register a ds group refs => exact giftSpec_register ht a ds group refs
  | report a reached value => exact giftSpec_report ht a reached value
  | remove a => exact giftSpec_remove ht a
  | contains a | state a | disconnect a => exact .of_same rfl rfl (by simp)

theorem mem_signals_iff (ht : t.Sound) (s : TrialStep) (i : Inbox) :
    .dependenciesAvailable ∈ signalsTo i (t.sends s) ↔
      NewlyResolved t.graph (t.next s).graph i := by
  have hspec := giftSpec ht s
  constructor
  · intro hx
    obtain ⟨values, hgift⟩ := exists_gift hx
    obtain ⟨m, n', hn', hi, hr, _, hno⟩ := hspec.supplies hgift
    exact ⟨m, n', hn', hi, hr, hno⟩
  · rintro ⟨m, n', hn', rfl, hr, hno⟩
    cases hn : t.graph.nodes[m]? with
    | none => exact hspec.registered hn hn' hr
    | some n =>
        have hx := ((hspec.resolved hn hn').mp hr).resolve_left (by simp [hno n hn])
        obtain ⟨k, hk, hs⟩ : ∃ k, (t.next s).graph.nodes[m]? = some k ∧ k.inbox = n.inbox := by
          by_cases hrem : s.Removes m
          · simp [(stepSpec ht s).gone hrem] at hn'
          · obtain ⟨k, hk, hs⟩ := (stepSpec ht s).survives hn hrem
            exact ⟨k, hk, hs.inbox⟩
        rw [← Option.some.inj (hk.symm.trans hn'), hs]
        exact hx

/-! ## Histories -/

/-- How often an incarnation was given its dependencies. -/
def gifts (past : List TrialStep) (i : Inbox) : Nat :=
  (signalsTo i (fresh.trace past)).count .dependenciesAvailable

theorem gifts_append (past : List TrialStep) (s : TrialStep) (i : Inbox) :
    gifts (past ++ [s]) i =
      gifts past i + (signalsTo i ((after past).sends s)).count .dependenciesAvailable := by
  rw [gifts, trace_append, signalsTo_append, List.count_append]
  rfl

theorem Ready.lt (h : Ready past i) : i < (after past).inboxes.length := by
  obtain ⟨m, n, hn, hi, _⟩ := h
  exact hosts_lt ⟨n, hn, hi⟩

/-- What the steps so far have left: nobody is passed over, a service has its dependencies if it
was ready for them at some time, and it exposes what it last reported with its start. -/
structure Deliveries (past : List TrialStep) : Prop where
  thorough : (after past).graph.Thorough
  resolved : ∀ {m : Name} {n : Node}, (after past).graph.nodes[m]? = some n →
    (n.resolved = true ↔ ∃ p r, past = p ++ r ∧ Ready p n.inbox)
  value : ∀ {d : Name} {n : Node} {v : Value}, (after past).graph.nodes[d]? = some n →
    n.stopping = false → n.value = some v → LastReported (· = .started) past d n.inbox v

/-- An incarnation keeps its name. -/
theorem eq_of_hosts_after {p r : List TrialStep} (hp : (after p).graph.Hosts a i)
    (hr : (after (p ++ r)).graph.Hosts m i) : m = a := by
  induction r using List.reverseRecOn with
  | nil =>
      obtain ⟨n, hn, rfl⟩ := hp
      exact (sound_after p).coherent.inboxes.eq_of_hosts hn (by simpa using hr)
  | append_singleton r s ih =>
      rw [← List.append_assoc] at hr
      exact ih ((hosts_append (hosts_lt hp) rfl).mp hr).1

/-- Whoever is resolved by a step is ready after it. -/
theorem ready_of_newlyResolved
    (h : NewlyResolved (after past).graph (after (past ++ [s])).graph i) :
    Ready (past ++ [s]) i := by
  have ht := sound_after past
  have hspec := giftSpec ht s
  obtain ⟨values, hgift⟩ := exists_gift ((mem_signals_iff ht s i).mpr (after_append past s ▸ h))
  obtain ⟨m, n', hn', hi, hr, hav, hno⟩ := hspec.supplies hgift
  refine ⟨m, n', by rw [after_append]; exact hn', hi, ?_, fun d hd => ?_⟩
  · rcases (stepSpec ht s).cases hn' with ⟨n, hn, _, _⟩ | ⟨_, hs⟩
    · exact hspec.awake hn hn' (hno n hn) hr
    · exact hs
  · obtain ⟨v, _, hv⟩ := exists_of_mem_available? hav hd
    exact ⟨v, by rw [after_append]; exact hv⟩

/-- Whoever is ready has its dependencies. -/
theorem resolved_of_ready (h : (after past).graph.Thorough)
    (hn : (after past).graph.nodes[m]? = some n) (hr : Ready past n.inbox) : n.resolved = true := by
  obtain ⟨m', k, hk, hi, hs, hexp⟩ := hr
  obtain rfl := (sound_after past).coherent.inboxes hk hn hi
  obtain rfl := Option.some.inj (hk.symm.trans hn)
  by_contra hres
  obtain ⟨d, hd, hnone⟩ := h hk (by simpa using hres) hs
  obtain ⟨v, hv⟩ := hexp d hd
  simp [hnone] at hv

theorem LastReported.append {d : Name} {j : Inbox} {v : Value} {counts : State → Prop}
    (h : LastReported counts past d j v)
    (hs : ∀ reached w, s = .report d reached (some w) → ¬counts reached) :
    LastReported counts (past ++ [s]) d j v := by
  obtain ⟨p, reached, r, rfl, hc, hh, hr⟩ := h
  refine ⟨p, reached, r ++ [s], by simp, hc, hh, fun reached' w hmem => ?_⟩
  rcases List.mem_append.mp hmem with hmem | hmem
  · exact hr reached' w hmem
  · exact hs reached' w (List.mem_singleton.mp hmem).symm

theorem deliveries (past : List TrialStep) : Deliveries past := by
  induction past using List.reverseRecOn with
  | nil =>
      have hno : ∀ (a : Name) (n : Node), (after []).graph.nodes[a]? ≠ some n := by
        intro a n
        simp [after, fresh, empty]
      exact ⟨thorough_empty, fun hn => absurd hn (hno _ _), fun hn => absurd hn (hno _ _)⟩
  | append_singleton past s ih =>
      have ht := sound_after past
      have hstep := stepSpec ht s
      have hspec := giftSpec ht s
      have hthorough : (after (past ++ [s])).graph.Thorough := by
        rw [after_append]
        exact hspec.thorough ih.thorough
      refine ⟨hthorough, fun {m n'} hn' => ⟨fun hr => ?_, ?_⟩, fun {d n' v} hn' hs hv => ?_⟩
      · -- it has been resolved before, or is by this step
        by_cases hnew : NewlyResolved (after past).graph (after (past ++ [s])).graph n'.inbox
        · exact ⟨past ++ [s], [], by simp, ready_of_newlyResolved hnew⟩
        · obtain ⟨n, hn, hnr⟩ : ∃ n, (after past).graph.nodes[m]? = some n ∧ n.resolved = true := by
            by_contra hno
            push Not at hno
            exact hnew ⟨m, n', hn', rfl, hr, fun n hn => by simpa using hno n hn⟩
          obtain ⟨p, r, hp, hready⟩ := (ih.resolved hn).mp hnr
          rw [after_append] at hn'
          rcases hstep.cases hn' with ⟨k, hk, _, hk'⟩ | ⟨hi, _⟩
          · obtain rfl := Option.some.inj (hn.symm.trans hk)
            exact ⟨p, r ++ [s], by rw [hp, List.append_assoc], hk'.inbox ▸ hready⟩
          · have hgone : ¬s.Removes m := fun h => by simp [hstep.gone h] at hn'
            obtain ⟨k, hk, hk'⟩ := hstep.survives hn hgone
            rw [← Option.some.inj (hk.symm.trans hn'), hk'.inbox]
            exact ⟨p, r ++ [s], by rw [hp, List.append_assoc], hready⟩
      · rintro ⟨p, r, hp, hready⟩
        rcases List.eq_nil_or_concat r with rfl | ⟨r, e, rfl⟩
        · rw [List.append_nil] at hp
          subst hp
          exact resolved_of_ready hthorough hn' hready
        · rw [List.concat_eq_append, ← List.append_assoc] at hp
          obtain ⟨rfl, _⟩ := List.append_inj' hp rfl
          rw [after_append] at hn'
          rcases hstep.cases hn' with ⟨n, hn, _, hk⟩ | ⟨hi, _⟩
          · have hnr := (ih.resolved hn).mpr ⟨p, r, rfl, hk.inbox ▸ hready⟩
            exact (hspec.resolved hn hn').mpr (.inl hnr)
          · -- a new incarnation has no past
            have hlt := Nat.lt_of_lt_of_le hready.lt (length_after_le p r)
            exact absurd hlt (by rw [hi]; exact Nat.lt_irrefl _)
      · rw [after_append] at hn'
        rcases hstep.cases hn' with ⟨n, hn, _, hk⟩ | ⟨hi, _⟩
        · rcases hspec.value hn hn' hs with ⟨w, rfl, hw⟩ | ⟨hsame, hno⟩
          · obtain rfl := Option.some.inj (hw.symm.trans hv)
            exact ⟨past, .started, [], rfl, rfl, ⟨n, hn, hk.inbox.symm⟩, by simp⟩
          · have hns : n.stopping = false := by
              by_contra hns
              simp [hk.stopping.mpr (.inl (by simpa using hns))] at hs
            rw [hk.inbox]
            refine (ih.value hn hns (hsame.symm.trans hv)).append fun reached w he hc => ?_
            exact hno w (hc ▸ he)
        · cases hn : (after past).graph.nodes[d]? with
          | none => simp [hspec.unexposed hn hn'] at hv
          | some n =>
              have hgone : ¬s.Removes d := fun h => by simp [hstep.gone h] at hn'
              obtain ⟨k, hk, hk'⟩ := hstep.survives hn hgone
              have hlt := ht.known hn
              rw [← hk'.inbox, Option.some.inj (hk.symm.trans hn'), hi] at hlt
              exact absurd hlt (Nat.lt_irrefl _)

/-! ## The protocol -/

/-- Whoever a step resolves is one whom it completes. -/
theorem completes_iff (past : List TrialStep) (s : TrialStep) (i : Inbox) :
    Completes past s i ↔
      NewlyResolved (after past).graph (after (past ++ [s])).graph i := by
  constructor
  · rintro ⟨hready, hno⟩
    obtain ⟨m, n', hn', hi, _⟩ := id hready
    have hr : n'.resolved = true :=
      resolved_of_ready (deliveries (past ++ [s])).thorough hn' (by rw [hi]; exact hready)
    refine ⟨m, n', hn', hi, hr, fun n hn => ?_⟩
    by_contra hnr
    obtain ⟨p, r, hp, hready'⟩ := ((deliveries past).resolved hn).mp (by simpa using hnr)
    rw [after_append] at hn'
    rcases (stepSpec (sound_after past) s).cases hn' with ⟨k, hk, _, hk'⟩ | ⟨hi', _⟩
    · obtain rfl := Option.some.inj (hn.symm.trans hk)
      exact hno p r hp (by rw [← hi, hk'.inbox]; exact hready')
    · have hgone : ¬s.Removes m := fun h => by
        simp [(stepSpec (sound_after past) s).gone h] at hn'
      obtain ⟨k, hk, hk'⟩ := (stepSpec (sound_after past) s).survives hn hgone
      rw [← hk'.inbox, Option.some.inj (hk.symm.trans hn'), hi] at hready'
      exact hno p r hp hready'
  · intro h
    refine ⟨ready_of_newlyResolved h, fun p r hp hready => ?_⟩
    obtain ⟨m, n', hn', rfl, _, hno⟩ := h
    rw [after_append] at hn'
    rcases (stepSpec (sound_after past) s).cases hn' with ⟨n, hn, _, hk⟩ | ⟨hi, _⟩
    · have hr := ((deliveries past).resolved hn).mpr ⟨p, r, hp, hk.inbox ▸ hready⟩
      simp [hno n hn] at hr
    · have hlt := Nat.lt_of_lt_of_le hready.lt (length_after_le p r)
      rw [← hp, hi] at hlt
      exact absurd hlt (Nat.lt_irrefl _)

open Classical in
theorem count_delivered (past : List TrialStep) (s : TrialStep) (i : Inbox) :
    (signalsTo i ((after past).sends s)).count .dependenciesAvailable =
      if Completes past s i then 1 else 0 := by
  have ht := sound_after past
  have hiff : Completes past s i ↔ .dependenciesAvailable ∈ signalsTo i ((after past).sends s) := by
    rw [completes_iff, mem_signals_iff ht, after_append]
  split
  · next h =>
      exact Nat.le_antisymm ((giftSpec ht s).once i) (List.count_pos_iff.mpr (hiff.mp h))
  · next h => exact List.count_eq_zero.mpr (mt hiff.mpr h)

/-- Over all the steps an incarnation is given its dependencies once, if it has ever been ready,
and not at all otherwise. -/
theorem gifts_le_one (past : List TrialStep) (i : Inbox) :
    gifts past i ≤ 1 ∧ (gifts past i ≠ 0 → ∃ p r, past = p ++ r ∧ Ready p i) := by
  induction past using List.reverseRecOn with
  | nil => simp [gifts, trace]
  | append_singleton past s ih =>
      classical
      rw [gifts_append, count_delivered]
      split
      · next h =>
          have hzero : gifts past i = 0 := by
            by_contra hne
            obtain ⟨p, r, hp, hready⟩ := ih.2 hne
            exact h.2 p r hp hready
          exact ⟨by omega, fun _ => ⟨past ++ [s], [], by simp, h.1⟩⟩
      · next h =>
          refine ⟨by simpa using ih.1, fun hne => ?_⟩
          obtain ⟨p, r, rfl, hready⟩ := ih.2 (by simpa using hne)
          exact ⟨p, r ++ [s], by simp, hready⟩

open Classical in
/-- What holds after steps of any kind, in any order, and for whatever step comes next. -/
structure DeliveryProtocol (past : List TrialStep) : Prop where
  /-- An incarnation is given its dependencies in the first step after which all of them are exposed
  while it does not stop, and in no other. -/
  delivered : ∀ (s : TrialStep) (i : Inbox),
    (signalsTo i ((after past).sends s)).count .dependenciesAvailable =
      if Completes past s i then 1 else 0
  /-- Over all the steps it is given them at most once. -/
  once : ∀ i, (signalsTo i (fresh.trace past)).count .dependenciesAvailable ≤ 1
  /-- It is not given them once it has begun to stop. -/
  stopped : ∀ {s : TrialStep} {a : Name} {i : Inbox}, StoppedIn (past ++ [s]) a i →
    .dependenciesAvailable ∉ signalsTo i ((after past).sends s)
  /-- It is given each of its dependencies once, in the order of their names, with the value which
  the incarnation now installed reported last along with its start. -/
  message : ∀ {s : TrialStep} {i : Inbox} {values : List (Name × Value)},
    .lifecycle (.dependenciesAvailable values) ∈ messagesTo i ((after past).sends s) →
    ∃ (m : Name) (n : Node), (after (past ++ [s])).graph.nodes[m]? = some n ∧ n.inbox = i ∧
      values.map Prod.fst = n.dependencies.toList ∧
      (values.map Prod.fst).Pairwise (compare · · = .lt) ∧
      ∀ d v, (d, v) ∈ values → (after (past ++ [s])).graph.exposed? d = some v ∧
        ∃ j, (after (past ++ [s])).graph.Hosts d j ∧ LastReported (· = .started) (past ++ [s]) d j v
  /-- Whoever is neither resolved nor stopping lacks a dependency. -/
  missing : ∀ {m : Name} {n : Node}, (after past).graph.nodes[m]? = some n →
    n.resolved = false → n.stopping = false →
    ∃ d ∈ n.dependencies, (after past).graph.exposed? d = none
  /-- Whoever is installed is resolved once it has been ready. -/
  resolved : ∀ {m : Name} {n : Node}, (after past).graph.nodes[m]? = some n →
    (n.resolved = true ↔ ∃ p r, past = p ++ r ∧ Ready p n.inbox)

/-- The delivery protocol holds over every sequence of steps. -/
theorem delivery_protocol (past : List TrialStep) : DeliveryProtocol past where
  delivered := count_delivered past
  once := fun i => (gifts_le_one past i).1
  stopped := by
    intro s a i hstop hmem
    obtain ⟨m, n', hn', rfl, hs, _⟩ := ready_of_newlyResolved
      (after_append past s ▸ (mem_signals_iff (sound_after past) s i).mp hmem)
    obtain ⟨p, q, r, hp, hhosts, _⟩ := id hstop
    obtain rfl : m = a := by
      rw [hp] at hn'
      exact eq_of_hosts_after hhosts ⟨n', hn', rfl⟩
    simp [((ledger (past ++ [s])).stopping hn').mpr hstop] at hs
  message := by
    intro s i values hmem
    obtain ⟨m, n, hn, hi, _, hav, _⟩ :=
      (giftSpec (sound_after past) s).supplies (mem_messagesTo.mp hmem)
    rw [← after_append] at hn hav
    have hnames := map_fst_of_available? hav
    refine ⟨m, n, hn, hi, hnames, hnames ▸ Std.ExtTreeSet.ordered_toList, fun d v hd => ?_⟩
    have hexp := (exposed?_of_mem_available? hav hd).2
    obtain ⟨k, hk, hv⟩ := Option.bind_eq_some_iff.mp hexp
    have hks : k.stopping = false := by
      by_contra hks
      simp [hks] at hv
    exact ⟨hexp, k.inbox, ⟨k, hk, rfl⟩, (deliveries _).value hk hks (by simpa [hks] using hv)⟩
  missing := fun hn hr hs => (deliveries past).thorough hn hr hs
  resolved := (deliveries past).resolved

/-- A service reports a value with its start and another one without starting. -/
def reportsTwice : List TrialStep :=
  [.register "a" ∅ none ∅, .report "a" .started (some (.u64 1)),
    .report "a" .waiting (some (.u64 2))]

/-- A value reported in another state is not what dependents are given, even if it is the last. -/
theorem not_lastReported_anyState : ¬∀ (past : List TrialStep) (s : TrialStep) (i j : Inbox)
    (values : List (Name × Value)) (d : Name) (v : Value),
    .lifecycle (.dependenciesAvailable values) ∈ messagesTo i ((after past).sends s) →
    (d, v) ∈ values → (after (past ++ [s])).graph.Hosts d j →
    LastReported (fun _ => True) (past ++ [s]) d j v := by
  intro h
  have hgiven : Message.lifecycle (.dependenciesAvailable [("a", .u64 1)]) ∈
      messagesTo 1 ((after reportsTwice).sends (.register "b" (Names.ofList ["a"]) none ∅)) := by
    decide +kernel
  have hinbox : ((after (reportsTwice ++
      [.register "b" (Names.ofList ["a"]) none ∅])).graph.nodes["a"]?).map Node.inbox = some 0 := by
    decide +kernel
  obtain ⟨n, hn, hi⟩ := Option.map_eq_some_iff.mp hinbox
  obtain ⟨p, reached, r, hp, -, -, hlast⟩ :=
    h reportsTwice _ 1 0 _ "a" (.u64 1) hgiven List.mem_cons_self ⟨n, hn, hi⟩
  have hlater : .report "a" .waiting (some (.u64 2)) ∈ r := by
    rcases p with _ | ⟨_, _ | ⟨_, _ | ⟨_, _ | ⟨_, p⟩⟩⟩⟩ <;> simp [reportsTwice] at hp
    simp [← hp.2.2]
  exact hlast .waiting (.u64 2) hlater trivial

end ServiceHost.Graph.Trial

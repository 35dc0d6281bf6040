import ServiceHost.Proofs.System.Answers
import ServiceHost.Proofs.System.Closing

/-! # In whose hand a promise is

A promise made comes into a hand, passes from hand to hand, and leaves by being settled. So each
open promise is in one hand, once, and no promise that is settled is in a hand any more. -/

namespace ServiceHost

/-- Some promises are made, and some are settled, none of them by being given up. -/
structure Serves (made gone : List Ticket) (w w' : World) : Prop where
  numbers : made = List.range' w.pledges.length made.length
  length : w'.pledges.length = w.pledges.length + made.length
  kept : ∀ {k : Ticket}, k ∉ gone → w'.status k = if k ∈ made then some none else w.status k
  settled : ∀ {k : Ticket}, k ∈ gone → k ∈ made ∨ w.status k = some none →
    ∃ o, o ≠ .error .abandoned ∧ w'.status k = some (some o)
  fixed : ∀ {k : Ticket} {o : Except Error Answer}, w.status k = some (some o) →
    w'.status k = some (some o)

variable {w w' w'' : World} {made made' gone gone' : List Ticket} {k : Ticket}

namespace Serves

theorem count_made (h : Serves made gone w w') : made.count k = if k ∈ made then 1 else 0 := by
  have hnodup : made.Nodup := by
    rw [h.numbers]
    exact List.nodup_range'
  exact hnodup.count

theorem of_eq (h : w'.pledges = w.pledges) : Serves [] [] w w' :=
  ⟨rfl, by simp [h], fun _ => by simp [World.status_congr h], by simp,
    fun hs => (World.status_congr h).trans hs⟩

/-- What is settled is not among what is made later. -/
theorem trans (h : Serves made gone w w') (h' : Serves made' gone' w' w'')
    (hd : ∀ k ∈ gone, k ∉ made') : Serves (made ++ made') (gone ++ gone') w w'' := by
  refine ⟨?_, ?_, fun {k} hk => ?_, fun {k} hk hopen => ?_, fun hs => h'.fixed (h.fixed hs)⟩
  · rw [List.length_append, ← List.range'_append, Nat.one_mul, ← h.numbers, ← h.length,
      ← h'.numbers]
  · rw [h'.length, h.length, List.length_append, Nat.add_assoc]
  · rw [List.mem_append, not_or] at hk
    rw [h'.kept hk.2, h.kept hk.1]
    simp only [List.mem_append]
    by_cases hm : k ∈ made <;> by_cases hm' : k ∈ made' <;> simp [hm, hm']
  · by_cases hg : k ∈ gone
    · have hopen : k ∈ made ∨ w.status k = some none := by
        simpa [hd k hg] using hopen
      obtain ⟨o, ho, hs⟩ := h.settled hg hopen
      exact ⟨o, ho, h'.fixed hs⟩
    · have hg' : k ∈ gone' := (List.mem_append.mp hk).resolve_left hg
      refine h'.settled hg' ?_
      rw [h.kept hg]
      simp only [List.mem_append] at hopen
      by_cases hm : k ∈ made <;> simp_all

theorem asked {l : List Request} (h : Asked w l w') :
    Serves (l.filterMap Request.ticket?) [] w w' := by
  have hlen : (l.filterMap Request.ticket?).length = l.length := by
    rw [h.filterMap_ticket, List.length_range']
  refine ⟨by rw [hlen]; exact h.filterMap_ticket, ?_, fun {k} _ => ?_, by simp, fun {k o} hs => ?_⟩
  · obtain ⟨made, hw, hmade, _⟩ := h.pledges
    rw [hw, List.length_append, hmade, hlen]
  · split
    · next hk => exact (h.of_mem hk).2
    · next hk =>
        by_cases hlt : k < w.pledges.length
        · exact h.status_of_lt hlt
        · obtain ⟨made, hw, hmade, _⟩ := h.pledges
          rw [h.filterMap_ticket, List.mem_range'_1] at hk
          rw [World.status_eq_none.mpr (Nat.not_lt.mp hlt), World.status_eq_none, hw,
            List.length_append, hmade]
          exact Nat.not_lt.mp fun h => hk ⟨Nat.not_lt.mp hlt, h⟩
  · have hlt : k < w.pledges.length := by
      by_contra hlt
      rw [World.status_eq_none.mpr (Nat.not_lt.mp hlt)] at hs
      cases hs
    exact (h.status_of_lt hlt).trans hs

theorem settle (w : World) (j : Ticket) {o : Except Error Answer} (ho : o ≠ .error .abandoned) :
    Serves [] [j] w (w.settle j o) := by
  have hs := Settles.settle w j o
  refine ⟨rfl, hs.length, fun hk => ?_, fun {k} hk hopen => ⟨o, ho, ?_⟩, hs.settled⟩
  · simpa using hs.kept (by simpa using hk)
  · obtain rfl := List.mem_singleton.mp hk
    rw [World.status_settle, if_pos ⟨rfl, by simpa using hopen⟩]

/-- The promise made to an installer is settled by an answer. -/
theorem answered (w : World) (install : Option Ticket) {answer : Option (Except Error Answer)}
    (h : answer ≠ some (.error .abandoned)) :
    Serves [] (if answer.isSome then install.toList else []) w (w.answered install answer) := by
  unfold World.answered
  cases install with
  | none => simpa using of_eq rfl
  | some ticket =>
      cases answer with
      | none => exact of_eq rfl
      | some o => exact settle w ticket (by simpa using h)

theorem congr_left (h : Serves made gone w' w'') (hw : w'.pledges = w.pledges) :
    Serves made gone w w'' := by
  simpa using (of_eq hw).trans h (by simp)

theorem congr_right (h : Serves made gone w w') (hw : w''.pledges = w'.pledges) :
    Serves made gone w w'' := by
  simpa using h.trans (of_eq hw) (by simp)

end Serves

/-- Some promises are made, and some are settled, by being given up perhaps. -/
structure Closes (made gone : List Ticket) (w w' : World) : Prop where
  numbers : made = List.range' w.pledges.length made.length
  length : w'.pledges.length = w.pledges.length + made.length
  kept : ∀ {k : Ticket}, k ∉ gone → w'.status k = if k ∈ made then some none else w.status k
  settled : ∀ {k : Ticket}, k ∈ gone → k ∈ made ∨ w.status k = some none →
    ∃ o, w'.status k = some (some o)
  fixed : ∀ {k : Ticket} {o : Except Error Answer}, w.status k = some (some o) →
    w'.status k = some (some o)

theorem Serves.closes (h : Serves made gone w w') : Closes made gone w w' where
  numbers := h.numbers
  length := h.length
  kept := h.kept
  settled hg hopen := let ⟨o, _, ho⟩ := h.settled hg hopen; ⟨o, ho⟩
  fixed := h.fixed

namespace Closes

/-- Some more promises are settled. -/
theorem trans (h : Closes made gone w w') (h' : Closes [] gone' w' w'') :
    Closes made (gone ++ gone') w w'' := by
  refine ⟨h.numbers, ?_, fun {k} hk => ?_, fun {k} hk hopen => ?_, fun hs => h'.fixed (h.fixed hs)⟩
  · rw [h'.length, h.length, List.length_nil, Nat.add_zero]
  · rw [List.mem_append, not_or] at hk
    rw [h'.kept hk.2, h.kept hk.1, if_neg List.not_mem_nil]
  · by_cases hg : k ∈ gone
    · obtain ⟨o, ho⟩ := h.settled hg hopen
      exact ⟨o, h'.fixed ho⟩
    · refine h'.settled ((List.mem_append.mp hk).resolve_left hg) (.inr ?_)
      rw [h.kept hg]
      by_cases hm : k ∈ made <;> simp_all

/-- Whatever comes of them, some promises are settled alike. -/
theorem settleAll (s : System) (tickets : List Ticket) (o : Except Error Answer) :
    Closes [] tickets s.world (s.settleAll tickets o).world := by
  have hs := System.settles_settleAll s tickets o
  refine ⟨rfl, hs.length, fun hk => ?_, fun hk hopen => ⟨o, ?_⟩, hs.settled⟩
  · rw [hs.kept hk, if_neg List.not_mem_nil]
  · exact System.status_settleAll hk (hopen.resolve_left List.not_mem_nil) o

theorem congr_left (h : Closes made gone w' w'') (hw : w'.pledges = w.pledges) :
    Closes made gone w w'' := by
  have hstatus : ∀ k, w'.status k = w.status k := fun k => World.status_congr hw
  refine ⟨hw ▸ h.numbers, hw ▸ h.length, fun hk => ?_, fun hk hopen => ?_, fun hs => ?_⟩
  · rw [h.kept hk, hstatus]
  · exact h.settled hk (hopen.imp_right ((hstatus _).trans ·))
  · exact h.fixed ((hstatus _).trans hs)

end Closes

/-- The promises that are settled at once when requests are sent. -/
def Container.lost (c : Container) (requests : List Request) : List Ticket :=
  if c.isServing then [] else requests.filterMap Request.ticket?

namespace System

variable {s s' s'' : System} {o : Except Error Answer} {e : Error}

/-! ## Answers of the container -/

theorem serves_settle (s : System) (j : Ticket) (ho : o ≠ .error .abandoned) :
    Serves [] [j] s.world (s.settle j o).world := by
  rw [settle_world]
  exact .settle s.world j ho

theorem serves_settleAll (s : System) (tickets : List Ticket) (ho : o ≠ .error .abandoned) :
    Serves [] tickets s.world (s.settleAll tickets o).world := by
  unfold settleAll
  induction tickets generalizing s with
  | nil => exact .of_eq rfl
  | cons j tickets ih => exact (serves_settle s j ho).trans (ih _) (by simp)

theorem serves_refuse (s : System) (r : Request) (he : e ≠ .abandoned) :
    Serves [] r.ticket?.toList s.world (s.refuse r e).world := by
  have ho : (.error e : Except Error Answer) ≠ .error .abandoned := by simpa using he
  cases r with
  | install plan ticket =>
      let s₁ := s.log .error s!"Failed to install service {plan.name}: {e.message}"
      exact (serves_settle s₁ ticket ho).congr_left rfl
  | _ => exact serves_settleAll s _ ho

theorem serves_refuseAll (s : System) (requests : List Request) (he : e ≠ .abandoned) :
    Serves [] (requests.filterMap Request.ticket?) s.world
      (requests.foldl (fun s r => s.refuse r e) s).world := by
  induction requests generalizing s with
  | nil => exact .of_eq rfl
  | cons r requests ih =>
      have h := (serves_refuse s r he).trans (ih (s.refuse r e)) (by simp)
      cases hr : r.ticket? <;> simpa [hr] using h

theorem serves_send (s : System) (r : Request) :
    Serves [] (s.container.lost [r]) s.world (s.send r).world := by
  unfold send Container.refusal? Container.lost
  by_cases h : s.container.isServing = true
  · simpa [h] using Serves.of_eq (w := s.world) rfl
  · have hrefuse := serves_refuse s r (e := .invalidState r.operation s.container.stage) (by simp)
    cases hr : r.ticket? <;> simpa [h, hr] using hrefuse

theorem serves_sendAll (s : System) (requests : List Request) :
    Serves [] (s.container.lost requests) s.world (s.sendAll requests).world := by
  unfold sendAll
  induction requests generalizing s with
  | nil => simpa [Container.lost] using Serves.of_eq (w := s.world) rfl
  | cons r requests ih =>
      have hserving : (s.send r).container.isServing = s.container.isServing := by
        rw [(sends_send _ _).container]
        exact sent_isServing _ _
      have h := (serves_send s r).trans (ih (s.send r)) (by simp)
      unfold Container.lost at h ⊢
      rw [hserving] at h
      split at h
      · next hs => simpa [hs] using h
      · next hs => cases hr : r.ticket? <;> simpa [hs, hr] using h

/-- A controller that ends has no promise left to keep. -/
theorem endController_pledges (s : System) (id : Nat) {c : Controller} (h : c.install = none) :
    (s.endController id c).world.pledges = s.world.pledges := by
  unfold endController
  rw [noticeEnd_world, h]
  rfl

theorem serves_applyTurn (s : System) (id : Nat) (t : Turn)
    (hend : t.controller.ended = true → t.controller.install = none)
    (hreported : t.reported.toList.filterMap Request.ticket? = []) :
    Serves [] (s.container.lost t.requests) t.world (s.applyTurn id t).world := by
  obtain ⟨before, after, hworld, hcontainer, -, hpledges, -, happly⟩ := applyTurn_stages s id t
  have hasked : Serves [] (s.container.lost t.requests) t.world after.world := by
    rw [← hworld, ← hcontainer]
    exact (serves_sendAll before t.requests).congr_right hpledges
  have hsent : Serves [] (s.container.lost t.requests) t.world
      (after.sendAll t.reported.toList).world := by
    have hlost : after.container.lost t.reported.toList = [] := by
      simp [Container.lost, hreported]
    simpa [hlost] using hasked.trans (serves_sendAll after t.reported.toList) (by simp)
  rw [happly]
  split
  · next he => exact hsent.congr_right (endController_pledges _ id (hend he))
  · exact hsent

end System

/-! ## Hands -/

/-- The promises to be kept once services of some names are removed. -/
def Container.awaited (c : Container) : List Ticket := c.removals.toList.flatMap Prod.snd

/-- Every promise that is in a hand: it came with a request before the container, or the container
is to keep it, or a controller is. -/
def System.hands (s : System) : List Ticket :=
  s.container.tickets ++ s.container.awaited ++ s.container.closing ++
    s.controllers.filterMap Controller.install

/-- Promises come into hands, and others leave them. -/
def System.Deals (s : System) (come gone : List Ticket) (s' : System) : Prop :=
  ∀ k, s'.hands.count k + gone.count k = s.hands.count k + come.count k

open Std in
theorem values_eq_map {α : Type} (m : ExtTreeMap Name α compare) :
    m.values = m.toList.map Prod.snd := by
  obtain ⟨⟨t⟩⟩ := m
  induction t using Quotient.inductionOn with
  | h t =>
      show DTreeMap.foldr (fun _ v l => v :: l) [] t = (DTreeMap.Const.toList t).map Prod.snd
      rw [DTreeMap.Const.foldr_eq_foldr_toList]
      induction DTreeMap.Const.toList t with
      | nil => rfl
      | cons p l ih => simp_all

theorem toList_perm {α : Type} {m : Std.ExtTreeMap Name α compare} {a : Name} {v : α}
    (h : m[a]? = some v) : m.toList.Perm ((a, v) :: (m.erase a).toList) := by
  have hnodup : ∀ m : Std.ExtTreeMap Name α compare, m.toList.Nodup := by
    intro m
    have hd := Std.ExtTreeMap.distinct_keys_toList (t := m)
    exact hd.imp fun hne heq => hne (by rw [heq]; exact Std.ReflCmp.compare_self)
  refine (List.perm_ext_iff_of_nodup (hnodup m) ?_).mpr fun p => ?_
  · refine List.nodup_cons.mpr ⟨fun hmem => ?_, hnodup _⟩
    rw [Std.ExtTreeMap.mem_toList_iff_getElem?_eq_some] at hmem
    simp at hmem
  · obtain ⟨b, u⟩ := p
    rw [List.mem_cons, Std.ExtTreeMap.mem_toList_iff_getElem?_eq_some,
      Std.ExtTreeMap.mem_toList_iff_getElem?_eq_some, Std.ExtTreeMap.getElem?_erase]
    by_cases hab : a = b
    · subst hab
      simp [h, eq_comm]
    · simp [hab, Ne.symm hab]

theorem Container.awaited_eq (c : Container) : c.awaited = c.removals.values.flatten := by
  rw [values_eq_map]
  rfl

theorem Container.awaited_erase (c : Container) (a : Name) (k : Ticket) :
    (awaited { c with removals := c.removals.erase a }).count k + (c.held (some a)).count k =
      c.awaited.count k := by
  simp only [awaited, held]
  cases h : c.removals[a]? with
  | none =>
      have hsame : c.removals.erase a = c.removals := by
        refine Std.ExtTreeMap.ext_getElem? fun b => ?_
        rw [Std.ExtTreeMap.getElem?_erase]
        split
        · next hab =>
            rw [Std.LawfulEqCmp.compare_eq_iff_eq] at hab
            rw [← hab, h]
        · rfl
      simp [hsame]
  | some l =>
      rw [((toList_perm h).flatMap_right Prod.snd).count_eq, List.flatMap_cons, List.count_append,
        Nat.add_comm]
      rfl

theorem Container.awaited_insert (c : Container) (a : Name) (j k : Ticket) :
    (awaited { c with removals := c.removals.insert a (c.held (some a) ++ [j]) }).count k =
      c.awaited.count k + [j].count k := by
  generalize hl : c.held (some a) ++ [j] = l
  have hsame : (c.removals.insert a l).erase a = c.removals.erase a := by
    refine Std.ExtTreeMap.ext_getElem? fun b => ?_
    simp only [Std.ExtTreeMap.getElem?_erase, Std.ExtTreeMap.getElem?_insert]
    split <;> rfl
  have hheld : held { c with removals := c.removals.insert a l } (some a) = l := by simp [held]
  have h := awaited_erase { c with removals := c.removals.insert a l } a k
  dsimp only at h
  rw [hsame, hheld, ← hl, List.count_append] at h
  have h' := awaited_erase c a k
  rw [hl] at h
  omega

/-- What hands there are at controllers, once one of them is replaced. -/
theorem count_filterMap_set {l : List Controller} {i : Nat} {c : Controller} (c' : Controller)
    (h : l[i]? = some c) (k : Ticket) :
    ((l.set i c').filterMap Controller.install).count k + c.install.toList.count k =
      (l.filterMap Controller.install).count k + c'.install.toList.count k := by
  induction l generalizing i with
  | nil => simp at h
  | cons b l ih =>
      cases i with
      | zero =>
          obtain rfl : b = c := by simpa using h
          cases hb : b.install <;> cases hc : c'.install <;> simp [hb, hc, List.count_cons]
          omega
      | succ i =>
          have := ih (i := i) (by simpa using h)
          cases hb : b.install <;> simp [hb, List.count_cons]
          · exact this
          · omega

theorem filterMap_install_congr {l l' : List Controller}
    (h : ∀ i : Nat, l'[i]?.map Controller.install = l[i]?.map Controller.install) :
    l'.filterMap Controller.install = l.filterMap Controller.install := by
  have hmap : l'.map Controller.install = l.map Controller.install :=
    List.ext_getElem? fun i => by simpa using h i
  have hid : ∀ l : List Controller,
      l.filterMap Controller.install = (l.map Controller.install).filterMap id := by
    intro l
    rw [List.filterMap_map]
    rfl
  rw [hid, hid, hmap]

namespace System

variable {s s' s'' : System} {come come' : List Ticket}

theorem count_hands (s : System) (k : Ticket) : s.hands.count k = s.container.tickets.count k +
    s.container.awaited.count k + s.container.closing.count k +
    (s.controllers.filterMap Controller.install).count k := by
  simp only [hands, List.count_append]

namespace Deals

theorem trans (h : s.Deals come gone s') (h' : s'.Deals come' gone' s'') :
    s.Deals (come ++ come') (gone ++ gone') s'' := by
  intro k
  have := h k
  have := h' k
  simp only [List.count_append]
  omega

theorem of_hands (h : s'.hands = s.hands) : s.Deals [] [] s' := fun k => by simp [h]

theorem of_congr (stage : Stage) (ended : Bool) (graph : Graph)
    (hc : s'.container = { s.container with stage, ended, graph })
    (h : ∀ i : Nat, s'.controllers[i]?.map Controller.install =
      s.controllers[i]?.map Controller.install) : s.Deals [] [] s' := by
  refine of_hands ?_
  unfold hands
  rw [filterMap_install_congr h, hc]
  rfl

theorem of_unmoved (h : s.Unmoved s') : s.Deals [] [] s' :=
  of_congr s.container.stage s.container.ended s.container.graph h.container
    fun i => by rw [h.controllers]

theorem of_calm (h : s.Calm s') : s.Deals [] [] s' := by
  refine of_congr s.container.stage s.container.ended s.container.graph h.container fun i => ?_
  have hrel := h.controllers i
  generalize s.controllers[i]? = o at hrel
  generalize s'.controllers[i]? = o' at hrel
  cases hrel with
  | none => rfl
  | some hn => exact congrArg some hn.rests.install

theorem of_joins {t : Task} {outcome : Except Failure Unit} {id : Nat}
    (h : s.Joins t outcome id s') : s.Deals [] [] s' := by
  refine of_congr s.container.stage s.container.ended s.container.graph h.container fun i => ?_
  rw [h.controllers, Option.map_map]
  congr 1
  funext c
  exact c.told_install _

theorem of_operates {outcome : Graph.Outcome} (h : s.Operates outcome s') : s.Deals [] [] s' := by
  refine of_congr s.container.stage s.container.ended outcome.1 h.container fun i => ?_
  rw [h.controllers, Option.map_map]
  congr 1
  funext c
  exact c.told_install _

end Deals

theorem deals_sent {l : List Request} (hc : s'.container = s.container.sent l)
    (h : ∀ i : Nat, s'.controllers[i]?.map Controller.install =
      s.controllers[i]?.map Controller.install) :
    s.Deals (l.filterMap Request.ticket?) (s.container.lost l) s' := by
  intro k
  have htickets := congrArg (List.count k) (hc ▸ sent_tickets s.container l)
  have hawaited : s'.container.awaited = s.container.awaited := by
    rw [Container.awaited, hc, sent_removals]
    rfl
  have hclosing : s'.container.closing = s.container.closing := by
    rw [hc]
    exact sent_held s.container l none
  rw [count_hands, count_hands, htickets, hawaited, hclosing, filterMap_install_congr h,
    List.count_append]
  unfold Container.lost
  split
  · simp only [List.count_nil]
    omega
  · simp only [List.count_nil]
    omega

/-! ## Requests are carried out -/

/-- A request comes into the hand of the container, and its promise is answered or kept. -/
def Carries (s : System) (r : Request) (s' : System) : Prop :=
  ∃ gone, s.Deals r.ticket?.toList gone s' ∧ Serves [] gone s.world s'.world

theorem carries_answer {r : Request} (hu : s.Unmoved s')
    (hw : Serves [] r.ticket?.toList s.world s'.world) : s.Carries r s' :=
  ⟨_, fun k => by simpa using Deals.of_unmoved hu k, hw⟩

theorem carries_settle {r : Request} {j : Ticket} (hr : r.ticket? = some j)
    {o : Except Error Answer} (ho : o ≠ .error .abandoned) : s.Carries r (s.settle j o) :=
  carries_answer (unmoved_settle s j o) (by rw [hr]; exact serves_settle s j ho)

theorem carries_install (s : System) (plan : Plan) (ticket : Ticket) :
    s.Carries (.install plan ticket) (s.install plan ticket) := by
  have hrefuse : ∀ e, e ≠ Error.abandoned →
      s.Carries (.install plan ticket) (s.refuse (.install plan ticket) e) := fun e he =>
    carries_answer (unmoved_refuse s _ e) (serves_refuse s _ he)
  unfold System.install
  split
  · exact hrefuse _ (by simp)
  · split
    · exact hrefuse _ (by simp)
    · have ho := operates_install s plan ticket
      have hlaunch : Deals s [ticket] []
          { s with controllers := s.controllers ++ [Controller.launch plan ticket] } := by
        intro k
        rw [count_hands, count_hands, List.filterMap_append, List.count_append]
        simp [Controller.launch, Nat.add_assoc]
      exact ⟨[], hlaunch.trans (.of_operates ho), .of_eq (congrArg World.pledges ho.world)⟩

theorem carries_remove (s : System) (name : Name) (ticket : Ticket) :
    s.Carries (.remove name ticket) (s.remove name ticket) := by
  unfold System.remove
  split
  · have ho := operates_applyGraph s (s.container.graph.requestRemoval name)
    generalize s.applyGraph (s.container.graph.requestRemoval name) = s₁ at ho
    have hfile : s₁.Deals [ticket] [] { s₁ with container := { s₁.container with
        removals := s₁.container.removals.insert name
          (s₁.container.removals[name]?.getD [] ++ [ticket]) } } := by
      intro k
      have := s₁.container.awaited_insert name ticket k
      rw [count_hands, count_hands]
      simp only [Container.tickets, Container.awaited, Container.held, List.count_nil] at this ⊢
      omega
    exact ⟨[], (Deals.of_operates ho).trans hfile, .of_eq (congrArg World.pledges ho.world)⟩
  · exact carries_settle rfl (by simp)

theorem deals_requestRemovals (s : System) (names : List Name) :
    s.Deals [] [] (s.requestRemovals names) := by
  unfold requestRemovals
  induction names generalizing s with
  | nil => exact .of_hands rfl
  | cons a names ih =>
      exact (Deals.of_operates (operates_applyGraph s _)).trans (ih _)

theorem deals_closeIfEmpty (s : System) : s.Deals [] [] s.closeIfEmpty := by
  obtain ⟨stage, hclose, _⟩ := closeIfEmpty_container s
  exact .of_congr stage s.container.ended s.container.graph hclose
    fun i => by rw [closeIfEmpty_controllers]

theorem carries_close (s : System) (ticket : Ticket) :
    s.Carries (.close ticket) (s.close ticket) := by
  rw [close_eq]
  split
  · exact carries_settle rfl (by simp)
  · have hbegin : s.Deals [ticket] [] (s.beginClosing ticket) := by
      intro k
      rw [count_hands, count_hands]
      simp only [beginClosing, Container.tickets, Container.awaited, List.count_append,
        List.count_nil, log]
      omega
    refine ⟨[], (hbegin.trans (deals_requestRemovals _ _)).trans (deals_closeIfEmpty _),
      .of_eq ?_⟩
    rw [closeIfEmpty_world, requestRemovals_world]
    rfl

theorem carries_report (s : System) (a : Name) (state : State) (value : Option Value) :
    s.Carries (.report a state value) (s.acceptReport a state value) := by
  have ho := operates_applyGraph s (s.container.graph.report a state value)
  rw [acceptReport_eq]
  dsimp only
  generalize s.applyGraph (s.container.graph.report a state value) = s₁ at ho
  have hw : s₁.world.pledges = s.world.pledges := congrArg World.pledges ho.world
  split
  · have hfree : s₁.Deals [] (s₁.container.held (some a)) (s₁.freeRemovals a) := by
      intro k
      have := s₁.container.awaited_erase a k
      rw [count_hands, count_hands]
      simp only [freeRemovals, Container.tickets, Container.awaited, List.count_nil] at this ⊢
      omega
    have hsettle := Deals.of_unmoved (unmoved_settleAll (s₁.freeRemovals a)
      (s₁.container.removals[a]?.getD []) (.ok .done))
    refine ⟨s₁.container.held (some a), ?_, ?_⟩
    · have h := (((Deals.of_operates ho).trans hfree).trans hsettle).trans (deals_closeIfEmpty _)
      simp only [List.nil_append, List.append_nil] at h
      exact h
    · rw [closeIfEmpty_world]
      exact (serves_settleAll (s₁.freeRemovals a) _ (by simp)).congr_left hw
  · exact ⟨[], .of_operates ho, .of_eq hw⟩

theorem carries_process (s : System) (r : Request) : s.Carries r (s.process r) := by
  cases r with
  | install plan ticket => exact carries_install s plan ticket
  | remove name ticket => exact carries_remove s name ticket
  | has name ticket | state name ticket | text ticket => exact carries_settle rfl (by simp)
  | close ticket => exact carries_close s ticket
  | report a state value => exact carries_report s a state value

/-- A container that is closed turns down what is left before it. -/
theorem deals_shutDown (h : s.cancelled = false) :
    s.Deals [] s.container.tickets s.shutDown ∧
      Serves [] s.container.tickets s.world s.shutDown.world := by
  refine ⟨fun k => ?_, ?_⟩
  · have hu := unmoved_shutDown h
    rw [count_hands, count_hands, hu.container, hu.controllers]
    simp only [Container.tickets, Container.awaited, List.filterMap_nil, List.count_nil]
    omega
  · rw [shutDown_eq h]
    exact (serves_refuseAll _ _ (by simp)).congr_left rfl

/-- The oldest request is taken out of the inbox and carried out. -/
theorem deals_taken {r : Request} {rest : List Request} (hi : s.container.inbox = r :: rest) :
    ∃ gone, s.Deals [] gone
        (process { s with container := { s.container with inbox := rest } } r) ∧
      Serves [] gone s.world
        (process { s with container := { s.container with inbox := rest } } r).world := by
  let s₁ : System := { s with container := { s.container with inbox := rest } }
  have htaken : ∀ k, s₁.hands.count k + r.ticket?.toList.count k = s.hands.count k := by
    intro k
    have htickets : s.container.tickets = r.ticket?.toList ++ s₁.container.tickets := by
      unfold Container.tickets
      rw [hi]
      cases hr : r.ticket? <;> simp [hr, s₁]
    rw [count_hands, count_hands, htickets, List.count_append]
    simp only [s₁, Container.awaited]
    omega
  obtain ⟨gone, hdeals, hserves⟩ := carries_process s₁ r
  have hdeals₁ : s.Deals [] gone (s₁.process r) := by
    intro k
    have := htaken k
    have := hdeals k
    simp only [List.count_nil]
    omega
  exact ⟨gone, hdeals₁, hserves⟩

theorem deals_receive {r : Request} {rest : List Request} (h : s.Orderly)
    (hs : s.container.isServing = true) (hi : s.container.inbox = r :: rest) :
    ∃ gone, s.Deals [] gone s.receive ∧ Serves [] gone s.world s.receive.world := by
  obtain ⟨gone, hdeals, hserves⟩ := deals_taken hi
  have hcancelled := (h.process hs hi).uncancelled
  unfold System.receive
  rw [hi]
  dsimp only
  split
  · obtain ⟨hdeals₂, hserves₂⟩ := deals_shutDown hcancelled
    exact ⟨_, hdeals.trans hdeals₂, hserves.trans hserves₂ (by simp)⟩
  · exact ⟨gone, hdeals, hserves⟩

/-! ## Steps -/

theorem Ledger.removals_eq (hl : s.Ledger) (h : s.Orderly) (hst : s.container.stage = .closed) :
    s.container.removals = ∅ := by
  have hnone := (h.unserved (by simp [Container.isServing, hst])).1
  refine Std.ExtTreeMap.eq_empty_iff_forall_not_mem.mpr fun name hmem => ?_
  obtain ⟨n, hn⟩ := hl.known hmem
  simp [hnone name] at hn

/-- Promises are made for what is asked for, and broken at once for what finds no way in. -/
theorem deals_asked {w : World} {requests : List Request} (ha : Asked s.world requests w) :
    s.Deals (requests.filterMap Request.ticket?) (s.container.lost requests)
        ({ s with world := w }.sendAll requests) ∧
      Serves (requests.filterMap Request.ticket?) (s.container.lost requests) s.world
        ({ s with world := w }.sendAll requests).world := by
  have hsent := sends_sendAll { s with world := w } requests
  have hw := (Serves.asked ha).trans (serves_sendAll { s with world := w } requests) (by simp)
  rw [List.append_nil, List.nil_append] at hw
  exact ⟨deals_sent hsent.container fun i => by rw [hsent.controllers], hw⟩

theorem deals_finish (h : s.container.removals = ∅) :
    s.Deals [] s.container.closing s.finish ∧
      Serves [] s.container.closing s.world s.finish.world := by
  refine ⟨fun k => ?_, ?_⟩
  · have hu := unmoved_finish s
    rw [count_hands, count_hands, hu.container, hu.controllers]
    simp only [Container.tickets, Container.awaited, h, List.count_nil]
    omega
  · have hvalues : (s.log .info "🔌 Service container closed").container.removals.values.flatten =
        [] := by
      rw [show (s.log .info "🔌 Service container closed").container.removals = ∅ from h]
      rfl
    unfold System.finish
    dsimp only
    rw [hvalues]
    exact (serves_settleAll _ _ (by simp)).congr_left rfl

/-- A turn of a controller: the promise made to its installer may be settled, and promises are made
for what its callback asks for. -/
theorem deals_applyTurn {id : Nat} {c : Controller} {t : Turn}
    {answer : Option (Except Error Answer)} (hc : s.controllers[id]? = some c)
    (hreplies : Turn.Replies (.begin s.world c) answer t)
    (hgiven : answer ≠ some (.error .abandoned))
    (hend : t.controller.ended = true → t.controller.install = none)
    (hreported : t.reported.toList.filterMap Request.ticket? = [])
    (hknown : ∀ k, c.install = some k → k < s.world.pledges.length) :
    ∃ made gone, s.Deals made gone (s.applyTurn id t) ∧
      Serves made gone s.world (s.applyTurn id t).world := by
  obtain ⟨w, asked, hw, hreq, hasked⟩ := hreplies.asks
  replace hreq : t.requests = asked := hreq
  subst hreq
  have hid := (List.getElem?_eq_some_iff.mp hc).1
  have ha := applies_applyTurn (t := t) hid
  have hfinal : (t.final s.tasks.length).install = t.controller.install := by
    by_cases he : t.controller.ended = true
    · simp [Turn.final, he, hend he]
    · exact Controller.final_install_eq (by simpa using he) _
  let told := if answer.isSome then c.install.toList else []
  refine ⟨t.requests.filterMap Request.ticket?, told ++ s.container.lost t.requests,
    fun k => ?_, ?_⟩
  · have hset := count_filterMap_set (t.final s.tasks.length) hc k
    have hsends : s.Deals ((t.requests ++ t.reported.toList).filterMap Request.ticket?)
        (s.container.lost (t.requests ++ t.reported.toList))
        { s with container := s.container.sent (t.requests ++ t.reported.toList) } :=
      deals_sent rfl fun _ => rfl
    have hsent := hsends k
    have hinstall : (t.final s.tasks.length).install.toList.count k + told.count k =
        c.install.toList.count k := by
      rw [hfinal, hreplies.install]
      simp only [told]
      cases answer <;> simp [Turn.begin]
    have hlost : s.container.lost (t.requests ++ t.reported.toList) =
        s.container.lost t.requests := by
      simp [Container.lost, hreported]
    rw [hlost, List.filterMap_append, hreported, List.append_nil, count_hands, count_hands] at hsent
    rw [count_hands, count_hands, ha.container, ha.controllers, List.count_append]
    dsimp only at hsent
    omega
  · have hserves : Serves [] told s.world w :=
      (Serves.answered s.world c.install hgiven).congr_right hw
    have hall := (hserves.trans (.asked hasked) ?_).trans
      (serves_applyTurn s id t hend hreported) (by simp)
    · simpa using hall
    · intro k hk hmem
      have hge := (hasked.of_mem hmem).1
      have hlt : k < s.world.pledges.length := by
        simp only [told] at hk
        split at hk
        · exact hknown k (by simpa using hk)
        · simp at hk
      rw [hserves.length] at hge
      exact absurd hlt (Nat.not_lt.mpr hge)

theorem Orderly.deals {x : Stimulus} (h : s.Orderly) (hl : s.Ledger)
    (howes : ∀ {i : Nat} {c : Controller}, s.controllers[i]? = some c → c.Owes)
    (hs : Step s x s') :
    ∃ made gone, s.Deals made gone s' ∧ Serves made gone s.world s'.world := by
  have hknown : ∀ {i : Nat} {c : Controller}, s.controllers[i]? = some c →
      ∀ k, c.install = some k → k < s.world.pledges.length := fun hc k hk =>
    hl.installs ⟨_, _, hc, hk⟩
  cases hs with
  | calm hcalm => exact ⟨[], [], .of_calm hcalm, .of_eq hcalm.pledges⟩
  | opened origin hst hu hw =>
      exact ⟨[], [], .of_congr .opened s.container.ended s.container.graph
        hu.container fun i => by rw [hu.controllers], .of_eq hw⟩
  | asked origin o requests w ha => exact ⟨_, _, deals_asked ha⟩
  | received request rest hserving hi =>
      obtain ⟨gone, hd⟩ := deals_receive h hserving hi
      exact ⟨[], gone, hd⟩
  | finished hst hq => exact ⟨[], _, deals_finish (hl.removals_eq h hst)⟩
  | took id c hc hcan =>
      have hreplies := c.replies_take hcan id s.world
      refine deals_applyTurn hc hreplies c.answer?_ne_abandoned (fun hend => ?_)
        (Turn.pays_take hcan id s.world).reported (hknown hc)
      have hnone := (howes hc).install_eq_none (Controller.removed_of_ended hcan hend)
      simp [hreplies.install, Turn.begin, hnone]
  | resumed id c callback answer hc hwake =>
      have halike := (Controller.resume_resumed hwake id).alike
      refine deals_applyTurn hc (c.replies_resume hwake id) (by simp) (fun hend => ?_)
        (Turn.pays_resume hwake id).reported (hknown hc)
      have hr := ((h.attended hc).ended (halike.ended.symm.trans hend)).1
      rw [halike.install, (howes hc).install_eq_none hr]
  | joined id t outcome hj => exact ⟨[], [], .of_joins hj, .of_eq hj.pledges⟩

end System

end ServiceHost

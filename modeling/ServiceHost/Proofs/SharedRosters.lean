import Mathlib.Data.List.Induction
import Mathlib.Data.List.Nodup
import ServiceHost.Cell.Shared
import ServiceHost.Proofs.Graph.Indexes

/-! # A roster seen through several handles

A roster is a finite map from names to values, whichever of its handles a step goes through, and
its handlers are called for what changes the map. Its names and values are lists in the order of
the names, although nothing is known about the order in which the map gives them away. -/

namespace ServiceHost

variable {V T : Type}

namespace Roster

/-- A list of all the members with their values, in whatever order. -/
structure Enumerates (roster : Roster V T) (entries : List (Name × V)) : Prop where
  once : (entries.map Prod.fst).Nodup
  mem : ∀ {member : Name} {value : V},
    (member, value) ∈ entries ↔ roster.members[member]? = some value

theorem ordered_names (roster : Roster V T) : roster.names.Pairwise (· < ·) := by
  have hkeys : roster.names.Pairwise fun a b => compare a b = .lt := Std.ExtTreeMap.ordered_keys
  exact hkeys.imp fun h => compareOfLessAndEq_eq_lt.mp h

theorem length_names (roster : Roster V T) : roster.names.length = roster.size :=
  Std.ExtTreeMap.length_keys

theorem length_values (roster : Roster V T) : roster.values.length = roster.size := by
  rw [values, List.length_map, Std.ExtTreeMap.length_toList, size]

/-- Whoever is not on a roster can be taken off it all the same. -/
theorem remove_fst (roster : Roster V T) (member : Name) :
    (roster.remove member).1 = { roster with members := roster.members.erase member } := by
  unfold remove
  split
  · next hnone =>
      have herase : roster.members.erase member = roster.members := by
        apply Std.ExtTreeMap.ext_getElem?
        intro x
        rw [Std.ExtTreeMap.getElem?_erase]
        by_cases hx : member = x
        · subst hx
          simp [hnone]
        · simp [hx]
      rw [herase]
  · rfl

/-- The values are those which the names have, one by one. -/
theorem values_eq_get? (roster : Roster V T) :
    roster.values.map some = roster.names.map roster.get? := by
  rw [values, names, ← Std.ExtTreeMap.map_fst_toList_eq_keys, List.map_map, List.map_map]
  refine List.map_congr_left fun p hp => ?_
  exact (Std.ExtTreeMap.mem_toList_iff_getElem?_eq_some.mp hp).symm

theorem nodup_names (roster : Roster V T) : roster.names.Nodup := by
  refine roster.ordered_names.imp fun {a b} h he => ?_
  rw [he] at h
  exact String.lt_irrefl b h

/-- The names are known from being sorted. -/
theorem eq_names {roster : Roster V T} {l : List Name} (hperm : l.Perm roster.names)
    (hsorted : l.Pairwise (· ≤ ·)) : l = roster.names :=
  hperm.eq_of_pairwise (fun _ _ _ _ => String.le_antisymm) hsorted
    (roster.ordered_names.imp fun hab => String.not_lt.mp (String.lt_asymm hab))

namespace Enumerates

variable {roster : Roster V T} {entries entries' : List (Name × V)}

theorem of_perm (h : roster.Enumerates entries) (hp : entries'.Perm entries) :
    roster.Enumerates entries' where
  once := (hp.map Prod.fst).nodup_iff.mpr h.once
  mem := hp.mem_iff.trans h.mem

theorem names_perm (h : roster.Enumerates entries) : (entries.map Prod.fst).Perm roster.names := by
  refine (List.perm_ext_iff_of_nodup h.once roster.nodup_names).mpr fun member => ?_
  rw [names, Std.ExtTreeMap.mem_keys, Std.ExtTreeMap.mem_iff_isSome_getElem?,
    Option.isSome_iff_exists, List.mem_map]
  constructor
  · rintro ⟨⟨_, value⟩, hp, rfl⟩
    exact ⟨value, h.mem.mp hp⟩
  · rintro ⟨value, hv⟩
    exact ⟨(member, value), h.mem.mpr hv, rfl⟩

theorem values_eq (h : roster.Enumerates entries)
    (hsorted : (entries.map Prod.fst).Pairwise (· ≤ ·)) : entries.map Prod.snd = roster.values := by
  refine List.map_injective_iff.mpr (fun _ _ => Option.some.inj) ?_
  calc (entries.map Prod.snd).map some
      = (entries.map Prod.fst).map roster.get? := by
        rw [List.map_map, List.map_map]
        exact List.map_congr_left fun p hp => (h.mem.mp hp).symm
    _ = roster.values.map some := by rw [eq_names h.names_perm hsorted, values_eq_get?]

end Enumerates

theorem sorted_mergeSort {α : Type} (name : α → Name) (l : List α) :
    ((l.mergeSort fun a b => name a ≤ name b).map name).Pairwise (· ≤ ·) := by
  have hsorted : (l.mergeSort fun a b => name a ≤ name b).Pairwise
      fun a b => decide (name a ≤ name b) = true := by
    apply List.pairwise_mergeSort
    · intro a b c hab hbc
      exact decide_eq_true (String.le_trans (of_decide_eq_true hab) (of_decide_eq_true hbc))
    · intro a b
      simpa only [Bool.or_eq_true, decide_eq_true_eq] using String.le_total (name a) (name b)
  exact List.pairwise_map.mpr (hsorted.imp fun hab => of_decide_eq_true hab)

/-- What is seen of a roster: its names in ascending order, and their values in that order, however
the members are gone through to find them. -/
structure Displays (roster : Roster V T) : Prop where
  ordered : roster.names.Pairwise (· < ·)
  values : roster.values.map some = roster.names.map roster.get?
  size : roster.size = roster.names.length ∧ roster.size = roster.values.length
  /-- The names of the members, sorted. -/
  sorted : ∀ {entries : List (Name × V)}, roster.Enumerates entries →
    (entries.map Prod.fst).mergeSort = roster.names
  /-- The values of the members, sorted by name. -/
  sortedValues : ∀ {entries : List (Name × V)}, roster.Enumerates entries →
    (entries.mergeSort fun a b => a.1 ≤ b.1).map Prod.snd = roster.values

theorem displays (roster : Roster V T) : roster.Displays where
  ordered := roster.ordered_names
  values := roster.values_eq_get?
  size := ⟨roster.length_names.symm, roster.length_values.symm⟩
  sorted := by
    intro entries h
    refine eq_names ((List.mergeSort_perm _ _).trans h.names_perm) ?_
    have hsorted := sorted_mergeSort id (entries.map Prod.fst)
    rwa [List.map_id] at hsorted
  sortedValues := fun h =>
    (h.of_perm (List.mergeSort_perm _ _)).values_eq (sorted_mergeSort Prod.fst _)

end Roster

/-! ## Handles -/

namespace RosterStep

/-- The handle a step goes through. -/
def handle : RosterStep V → Nat
  | .add i _ _ | .remove i _ | .clear i | .contains i _ | .get i _ | .clone i => i

/-- How many handles there are after a step. -/
def handles (n : Nat) : RosterStep V → Nat
  | .clone _ => n + 1
  | _ => n

/-- What a step makes of the members: an addition of another type, a question and a further handle
make nothing of them. -/
def applyTo [Typed V T] [DecidableEq T] (type : T) (members : Std.ExtTreeMap Name V compare) :
    RosterStep V → Std.ExtTreeMap Name V compare
  | .add _ member value =>
    if Typed.typeOf value = type then members.insert member value else members
  | .remove _ member => members.erase member
  | .clear _ => ∅
  | _ => members

/-- Whether each of the steps goes through a handle there is by then. -/
def Reach : Nat → List (RosterStep V) → Prop
  | _, [] => True
  | n, s :: rest => s.handle < n ∧ Reach (s.handles n) rest

end RosterStep

namespace Shared

/-- One cell with several handles. -/
def cloned {α : Type} (n : Nat) (cell : α) : Shared α := ⟨[cell], List.replicate n 0⟩

section

variable {α : Type} {n i : Nat}

theorem get?_cloned (hi : i < n) (cell : α) : (cloned n cell).get? i = some cell := by
  simp [get?, cloned, hi]

theorem set_cloned (hi : i < n) (cell cell' : α) :
    (cloned n cell).set i cell' = cloned n cell' := by
  simp [set, cloned, hi]

theorem clone_cloned (hi : i < n) (cell : α) : (cloned n cell).clone i = cloned (n + 1) cell := by
  simp [clone, cloned, hi, List.replicate_succ']

theorem views_cloned (n : Nat) (cell : α) : (cloned n cell).views = List.replicate n cell := by
  simp [views, cloned]

end

variable [Typed V T] [DecidableEq T] {n i : Nat} {member : Name} {value : V}

section

variable (hi : i < n) (roster : Roster V T)
include hi

theorem rosterStep_add (h : Typed.typeOf value = roster.type) :
    (cloned n roster).rosterStep (.add i member value) =
      (.done, roster.calls (.added member value),
        cloned n { roster with members := roster.members.insert member value }) := by
  simp [rosterStep, get?_cloned hi, Roster.add, h, set_cloned hi]

theorem rosterStep_refused (h : Typed.typeOf value ≠ roster.type) :
    (cloned n roster).rosterStep (.add i member value) =
      (.expected roster.type, [], cloned n roster) := by
  simp [rosterStep, get?_cloned hi, Roster.add, h]

theorem rosterStep_remove :
    (cloned n roster).rosterStep (.remove i member) =
      (.done, (roster.remove member).2,
        cloned n { roster with members := roster.members.erase member }) := by
  simp [rosterStep, get?_cloned hi, ← Roster.remove_fst, set_cloned hi]

theorem rosterStep_clear :
    (cloned n roster).rosterStep (.clear i) =
      (.done, [], cloned n { roster with members := ∅ }) := by
  simp [rosterStep, get?_cloned hi, Roster.clear, set_cloned hi]

theorem rosterStep_contains : (cloned n roster).rosterStep (.contains i member) =
    (.flag (roster.contains member), [], cloned n roster) := by
  simp [rosterStep, get?_cloned hi]

theorem rosterStep_get : (cloned n roster).rosterStep (.get i member) =
    (.value (roster.get? member), [], cloned n roster) := by
  simp [rosterStep, get?_cloned hi]

theorem rosterStep_clone : (cloned n roster).rosterStep (.clone i) =
    (.handle n, [], cloned (n + 1) roster) := by
  rw [rosterStep, clone_cloned hi]
  simp [cloned]

end

/-- A step through any handle is a step on the members, which every handle shows. -/
theorem rosterStep_cloned {s : RosterStep V} (hs : s.handle < n) (roster : Roster V T) :
    ((cloned n roster).rosterStep s).2.2 =
      cloned (s.handles n) { roster with members := s.applyTo roster.type roster.members } := by
  cases s with
  | add i member value =>
      replace hs : i < n := hs
      by_cases h : Typed.typeOf value = roster.type
      · rw [rosterStep_add hs roster h, RosterStep.applyTo, if_pos h]
        rfl
      · rw [rosterStep_refused hs roster h, RosterStep.applyTo, if_neg h]
        rfl
  | remove i member => exact congrArg (·.2.2) (rosterStep_remove hs roster)
  | clear i => exact congrArg (·.2.2) (rosterStep_clear hs roster)
  | contains i member => rfl
  | get i member => rfl
  | clone i => exact congrArg (·.2.2) (rosterStep_clone hs roster)

/-! ## Every sequence of steps -/

/-- The cells and handles after steps, one after the other. -/
def rosterRun (s : Shared (Roster V T)) (steps : List (RosterStep V)) : Shared (Roster V T) :=
  steps.foldl (fun s step => (s.rosterStep step).2.2) s

theorem rosterPlay_append (s : Shared (Roster V T)) (past later : List (RosterStep V)) :
    s.rosterPlay (past ++ later) = s.rosterPlay past ++ (s.rosterRun past).rosterPlay later := by
  induction past generalizing s with
  | nil => rfl
  | cons step past ih => exact congrArg _ (ih _)

theorem length_rosterPlay (s : Shared (Roster V T)) (steps : List (RosterStep V)) :
    (s.rosterPlay steps).length = steps.length := by
  induction steps generalizing s with
  | nil => rfl
  | cons step steps ih => exact congrArg (· + 1) (ih _)

end Shared

namespace RosterStep

variable [Typed V T] [DecidableEq T] {type : T} {past later steps : List (RosterStep V)}
  {s : RosterStep V}

/-- How many handles there are after steps, of one at first. -/
def handlesAfter (steps : List (RosterStep V)) : Nat := steps.foldl handles 1

/-- The members after steps, of none at first. -/
def membersAfter (type : T) (steps : List (RosterStep V)) : Std.ExtTreeMap Name V compare :=
  steps.foldl (fun members s => s.applyTo type members) ∅

theorem handlesAfter_append (past : List (RosterStep V)) (s : RosterStep V) :
    handlesAfter (past ++ [s]) = s.handles (handlesAfter past) := by
  simp [handlesAfter]

theorem membersAfter_append (type : T) (past : List (RosterStep V)) (s : RosterStep V) :
    membersAfter type (past ++ [s]) = s.applyTo type (membersAfter type past) := by
  simp [membersAfter]

theorem Reach.append {n : Nat} (h : Reach n (past ++ later)) : Reach (past.foldl handles n) later := by
  induction past generalizing n with
  | nil => exact h
  | cons s past ih => exact ih h.2

theorem Reach.of_append {n : Nat} (h : Reach n (past ++ later)) : Reach n past := by
  induction past generalizing n with
  | nil => trivial
  | cons s past ih => exact ⟨h.1, ih h.2⟩

theorem rosterRun_single (type : T) (handlers : Bool) (h : Reach 1 past) :
    (Shared.single (Roster.empty type handlers)).rosterRun past =
      .cloned (handlesAfter past) ⟨type, handlers, membersAfter type past⟩ := by
  induction past using List.reverseRecOn with
  | nil => rfl
  | append_singleton past s ih =>
      have hs : s.handle < handlesAfter past := h.append.1
      rw [Shared.rosterRun, List.foldl_append, List.foldl_cons, List.foldl_nil,
        ← Shared.rosterRun, ih h.of_append, Shared.rosterStep_cloned hs, membersAfter_append,
        handlesAfter_append]

/-- A step decides what becomes of a member. -/
def Touches (type : T) (member : Name) : RosterStep V → Prop
  | .add _ m v => m = member ∧ Typed.typeOf v = type
  | .remove _ m => m = member
  | .clear _ => True
  | _ => False

/-- Whoever a step does not touch stays as it is. -/
theorem getElem?_applyTo {member : Name} (h : ¬s.Touches type member)
    (members : Std.ExtTreeMap Name V compare) :
    (s.applyTo type members)[member]? = members[member]? := by
  cases s with
  | add i m v =>
      simp only [Touches, not_and] at h
      simp only [applyTo]
      split
      · next hv =>
          have hm : m ≠ member := fun hm => h hm hv
          simp [Std.ExtTreeMap.getElem?_insert, hm]
      · rfl
  | remove i m =>
      have hm : m ≠ member := h
      simp [applyTo, Std.ExtTreeMap.getElem?_erase, hm]
  | clear i => exact absurd trivial h
  | contains i m | get i m | clone i => rfl

/-- Only an addition leaves a member a step touches there. -/
theorem getElem?_applyTo_of_touches {member : Name} {value : V} (h : s.Touches type member)
    (members : Std.ExtTreeMap Name V compare) :
    (s.applyTo type members)[member]? = some value ↔
      Typed.typeOf value = type ∧ ∃ i, s = .add i member value := by
  cases s with
  | add i m v =>
      obtain ⟨rfl, hv⟩ := h
      simp only [applyTo, if_pos hv, Std.ExtTreeMap.getElem?_insert_self, Option.some.injEq,
        RosterStep.add.injEq, true_and]
      constructor
      · rintro rfl
        exact ⟨hv, i, rfl, rfl⟩
      · rintro ⟨_, _, _, rfl⟩
        rfl
  | remove i m =>
      obtain rfl : m = member := h
      simp [applyTo]
  | clear i => simp [applyTo]
  | contains i m | get i m | clone i => exact h.elim

/-- A member is there with the value that was put on last, if nothing has been done to it since. -/
theorem getElem?_membersAfter {member : Name} {value : V} :
    (membersAfter type steps)[member]? = some value ↔
      Typed.typeOf value = type ∧ ∃ past i later, steps = past ++ .add i member value :: later ∧
        ∀ s ∈ later, ¬s.Touches type member := by
  induction steps using List.reverseRecOn with
  | nil => simp [membersAfter]
  | append_singleton steps s ih =>
      rw [membersAfter_append]
      by_cases h : s.Touches type member
      · rw [getElem?_applyTo_of_touches h]
        refine and_congr_right fun _ => ?_
        constructor
        · rintro ⟨i, rfl⟩
          exact ⟨steps, i, [], rfl, by simp⟩
        · rintro ⟨past, i, later, he, hlater⟩
          rcases append_eq_split.mp he with ⟨-, hs, -⟩ | ⟨later, rfl, -⟩
          · exact ⟨i, hs.symm⟩
          · exact absurd h (hlater s (by simp))
      · rw [getElem?_applyTo h, ih]
        refine and_congr_right fun hv => ?_
        constructor
        · rintro ⟨past, i, later, rfl, hlater⟩
          refine ⟨past, i, later ++ [s], by simp, fun s' hs' => ?_⟩
          rcases List.mem_append.mp hs' with hs' | hs'
          · exact hlater s' hs'
          · exact List.mem_singleton.mp hs' ▸ h
        · rintro ⟨past, i, later, he, hlater⟩
          rcases append_eq_split.mp he with ⟨-, rfl, -⟩ | ⟨later, rfl, rfl⟩
          · exact absurd ⟨rfl, hv⟩ h
          · exact ⟨past, i, later, rfl, fun s' hs' => hlater s' (List.mem_append_left _ hs')⟩

/-- What a step answers, which handlers it calls and what every handle shows after it, given the
steps before it. -/
structure Protocol (type : T) (handlers : Bool) (past : List (RosterStep V)) (s : RosterStep V)
    (answer : CellAnswer V T) (calls : List (HandlerCall V)) (views : List (Roster V T)) :
    Prop where
  /-- All handles show the members which the steps so far come to. -/
  shown : views = List.replicate (handlesAfter (past ++ [s]))
    ⟨type, handlers, membersAfter type (past ++ [s])⟩
  /-- Those are the ones put on and neither taken off nor cleared since, with the last value. -/
  stored : ∀ {member : Name} {value : V},
    (membersAfter type (past ++ [s]))[member]? = some value ↔
      Typed.typeOf value = type ∧ ∃ before i later,
        past ++ [s] = before ++ .add i member value :: later ∧
          ∀ s' ∈ later, ¬s'.Touches type member
  added : ∀ {i : Nat} {member : Name} {value : V}, s = .add i member value →
    Typed.typeOf value = type →
    answer = .done ∧ calls = if handlers then [.added member value] else []
  /-- A value of another type is refused: nobody is called, and nothing changes. -/
  refused : ∀ {i : Nat} {member : Name} {value : V}, s = .add i member value →
    Typed.typeOf value ≠ type → answer = .expected type ∧ calls = [] ∧
      membersAfter type (past ++ [s]) = membersAfter type past
  removed : ∀ {i : Nat} {member : Name} {value : V}, s = .remove i member →
    (membersAfter type past)[member]? = some value →
    answer = .done ∧ calls = if handlers then [.removed member value] else []
  absent : ∀ {i : Nat} {member : Name}, s = .remove i member →
    (membersAfter type past)[member]? = none → answer = .done ∧ calls = []
  cleared : ∀ {i : Nat}, s = .clear i → answer = .done ∧ calls = []
  contains : ∀ {i : Nat} {member : Name}, s = .contains i member →
    answer = .flag ((membersAfter type past).contains member) ∧ calls = []
  get : ∀ {i : Nat} {member : Name}, s = .get i member →
    answer = .value (membersAfter type past)[member]? ∧ calls = []
  clone : ∀ {i : Nat}, s = .clone i → answer = .handle (handlesAfter past) ∧ calls = []
  displays : ∀ roster ∈ views, roster.Displays

theorem protocol_step (type : T) (handlers : Bool) (hs : s.handle < handlesAfter past) :
    let roster : Roster V T := ⟨type, handlers, membersAfter type past⟩
    let outcome := (Shared.cloned (handlesAfter past) roster).rosterStep s
    Protocol type handlers past s outcome.1 outcome.2.1 outcome.2.2.views := by
  intro roster outcome
  refine ⟨?_, getElem?_membersAfter, ?_, ?_, ?_, ?_, ?_, ?_, ?_, ?_, fun r _ => r.displays⟩
  · rw [Shared.rosterStep_cloned hs roster, Shared.views_cloned, handlesAfter_append,
      membersAfter_append]
  · rintro i member value rfl hv
    have he : outcome = _ := Shared.rosterStep_add (i := i) hs roster hv
    rw [he]
    exact ⟨rfl, rfl⟩
  · rintro i member value rfl hv
    have he : outcome = _ := Shared.rosterStep_refused (i := i) hs roster hv
    rw [he, membersAfter_append, applyTo, if_neg hv]
    exact ⟨rfl, rfl, rfl⟩
  · rintro i member value rfl hv
    have he : outcome = (.done, (roster.remove member).2, _) :=
      Shared.rosterStep_remove (i := i) hs roster
    have hcalls : (roster.remove member).2 = roster.calls (.removed member value) := by
      rw [Roster.remove, show roster.members[member]? = some value from hv]
    rw [he, hcalls]
    exact ⟨rfl, rfl⟩
  · rintro i member rfl hnone
    have he : outcome = (.done, (roster.remove member).2, _) :=
      Shared.rosterStep_remove (i := i) hs roster
    have hcalls : (roster.remove member).2 = [] := by
      rw [Roster.remove, show roster.members[member]? = none from hnone]
    rw [he, hcalls]
    exact ⟨rfl, rfl⟩
  · rintro i rfl
    have he : outcome = _ := Shared.rosterStep_clear (i := i) hs roster
    rw [he]
    exact ⟨rfl, rfl⟩
  · rintro i member rfl
    have he : outcome = (.flag (roster.contains member), _) :=
      Shared.rosterStep_contains (i := i) hs roster
    rw [he]
    exact ⟨rfl, rfl⟩
  · rintro i member rfl
    have he : outcome = (.value (roster.get? member), _) :=
      Shared.rosterStep_get (i := i) hs roster
    rw [he]
    exact ⟨rfl, rfl⟩
  · rintro i rfl
    have he : outcome = _ := Shared.rosterStep_clone (i := i) hs roster
    rw [he]
    exact ⟨rfl, rfl⟩

/-- A roster is a finite map with a log of its changes, through however many handles it is used:
whatever values and types there are, and whatever the steps. -/
theorem roster_protocol (type : T) (handlers : Bool) (h : Reach 1 (past ++ s :: later)) :
    ∃ answer calls views,
      ((Shared.single (Roster.empty type handlers)).rosterPlay (past ++ s :: later))[past.length]? =
        some (answer, calls, views) ∧ Protocol type handlers past s answer calls views := by
  refine ⟨_, _, _, ?_, protocol_step type handlers h.append.1⟩
  rw [Shared.rosterPlay_append, List.getElem?_append_right (by simp [Shared.length_rosterPlay]),
    Shared.length_rosterPlay, Nat.sub_self, rosterRun_single type handlers h.of_append]
  rfl

/-- A member put on through a second handle is overwritten and taken off through the first. -/
theorem roster_protocol_twoHandles :
    let past : List RosterStep :=
      [.clone 0, .add 1 "m" (.u64 1), .add 0 "m" (.u64 2), .add 1 "m" (.str "x")]
    ∃ answer calls views,
      ((Shared.single (Roster.empty ValueType.u64 true)).rosterPlay
        (past ++ .remove 0 "m" :: [.clear 1]))[past.length]? = some (answer, calls, views) ∧
      Protocol ValueType.u64 true past (.remove 0 "m") answer calls views := by
  intro past
  exact roster_protocol ValueType.u64 true (by simp [past, Reach, handle, handles])

end RosterStep

end ServiceHost

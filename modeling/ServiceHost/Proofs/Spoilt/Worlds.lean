import Mathlib.Data.List.Forall2
import ServiceHost.World

/-! # Worlds in which stops fail

Two worlds that agree in everything but the notes in which a stop says how it ended, and the log
lines that a stop failed. -/

namespace ServiceHost

/-- A note that a stop is done may say that it failed. -/
inductive Note.Spoils : Note → Note → Prop
  | same (note : Note) : Spoils note note
  | fail : Spoils (.done .stop) (.fail .stop)
  | panic : Spoils (.done .stop) (.panic .stop)

/-- Entries made by the same service at the same time. -/
structure Entry.Spoils (e e' : Entry) : Prop where
  time : e'.time = e.time
  author : e'.author = e.author
  note : e.note.Spoils e'.note

/-- The same log, with error lines that a stop failed in between. -/
inductive SpoilsLogs : List LogLine → List LogLine → Prop
  | nil : SpoilsLogs [] []
  | same (line : LogLine) {logs logs' : List LogLine} (h : SpoilsLogs logs logs') :
    SpoilsLogs (line :: logs) (line :: logs')
  | failed (time : Nat) (name : Name) (source : Failure) {logs logs' : List LogLine}
    (h : SpoilsLogs logs logs') :
    SpoilsLogs logs (⟨time, .error, (Error.stopFailure name source).toFailure.text⟩ :: logs')

/-- The same world, but for how stops ended. -/
inductive World.Spoils (w : World) : World → Prop
  | mk {journal : Journal} {logs : List LogLine}
    (hj : List.Forall₂ Entry.Spoils w.journal journal) (hl : SpoilsLogs w.logs logs) :
    w.Spoils { w with journal, logs }

/-! ## What can be read off a journal -/

theorem Note.Spoils.standing? {note note' : Note} (h : note.Spoils note') :
    note'.standing? = note.standing? := by
  cases h <;> rfl

namespace Journal

variable {j j' : Journal} (h : List.Forall₂ Entry.Spoils j j')
include h

theorem standing_spoils (name : Name) : j'.standing name = j.standing name := by
  unfold standing
  congr 1
  induction h with
  | nil => rfl
  | cons he _ ih =>
      rw [List.findSome?_cons, List.findSome?_cons, ih, he.author, he.note.standing?]

theorem declared?_spoils (name : Name) : j'.declared? name = j.declared? name := by
  unfold declared?
  induction h with
  | nil => rfl
  | @cons e e' _ _ he _ ih =>
      obtain ⟨time, author, note⟩ := e
      obtain ⟨time', author', note'⟩ := e'
      obtain ⟨rfl, rfl, hn⟩ := he
      rw [List.findSome?_cons, List.findSome?_cons, ih]
      cases hn <;> rfl

theorem started_spoils : j'.started = j.started := by
  unfold started
  congr 2
  induction h with
  | nil => rfl
  | @cons e e' _ _ he _ ih =>
      obtain ⟨time, author, note⟩ := e
      obtain ⟨time', author', note'⟩ := e'
      obtain ⟨rfl, rfl, hn⟩ := he
      rw [List.filterMap_cons, List.filterMap_cons, ih]
      cases hn <;> rfl

theorem dependents_spoils (name : Name) : j'.dependents name = j.dependents name := by
  simp only [dependents, started_spoils h, declared?_spoils h, standing_spoils h]

end Journal

/-! ## What is done in a world -/

/-- Without the error lines there is no difference. -/
theorem SpoilsLogs.filter {logs logs' : List LogLine} (h : SpoilsLogs logs logs') :
    logs'.filter (·.level ≠ .error) = logs.filter (·.level ≠ .error) := by
  induction h with
  | nil => rfl
  | same line _ ih => simp only [List.filter_cons, ih]
  | failed time name source _ ih => simpa using ih

namespace World.Spoils

variable {w w' : World}

theorem record (h : w.Spoils w') {note note' : Note} (hn : note.Spoils note') (author : Name) :
    (w.record author note).Spoils (w'.record author note') := by
  obtain ⟨hj, hl⟩ := h
  exact ⟨.cons ⟨rfl, rfl, hn⟩ hj, hl⟩

theorem log (h : w.Spoils w') (level : Level) (message : String) :
    (w.log level message).Spoils (w'.log level message) := by
  obtain ⟨hj, hl⟩ := h
  exact ⟨hj, .same _ hl⟩

/-- Where a stop fails, that is logged. -/
theorem failed (h : w.Spoils w') (name : Name) (source : Failure) :
    w.Spoils (w'.logStopFailure name source) := by
  obtain ⟨hj, hl⟩ := h
  exact ⟨hj, .failed _ name source hl⟩

theorem setTimer (h : w.Spoils w') (delay : Nat) (wakes : Actor) :
    (w.setTimer delay wakes).Spoils (w'.setTimer delay wakes) := by
  obtain ⟨hj, hl⟩ := h
  exact ⟨hj, hl⟩

theorem pledge (h : w.Spoils w') (subject : Option Subject) :
    (w'.pledge subject).1 = (w.pledge subject).1 ∧
      (w.pledge subject).2.Spoils (w'.pledge subject).2 := by
  obtain ⟨hj, hl⟩ := h
  exact ⟨rfl, hj, hl⟩

theorem settle (h : w.Spoils w') (ticket : Ticket) (outcome : Except Error Answer) :
    (w.settle ticket outcome).Spoils (w'.settle ticket outcome) := by
  obtain ⟨hj, hl⟩ := h
  unfold World.settle
  dsimp only
  split
  · exact ⟨hj, hl⟩
  · split <;> exact ⟨hj, hl⟩

theorem outcome? (h : w.Spoils w') (ticket : Ticket) : w'.outcome? ticket = w.outcome? ticket := by
  obtain ⟨-, -⟩ := h
  rfl

theorem cells (h : w.Spoils w') : w'.cells = w.cells := by
  obtain ⟨-, -⟩ := h
  rfl

theorem timers (h : w.Spoils w') : w'.timers = w.timers := by
  obtain ⟨-, -⟩ := h
  rfl

theorem clock (h : w.Spoils w') : w'.clock = w.clock := by
  obtain ⟨-, -⟩ := h
  rfl

theorem pledges (h : w.Spoils w') : w'.pledges = w.pledges := by
  obtain ⟨-, -⟩ := h
  rfl

theorem resolutions (h : w.Spoils w') : w'.resolutions = w.resolutions := by
  obtain ⟨-, -⟩ := h
  rfl

theorem logs (h : w.Spoils w') : SpoilsLogs w.logs w'.logs := by
  obtain ⟨-, hl⟩ := h
  exact hl

/-- Time passes. -/
theorem moveTo (h : w.Spoils w') (clock round : Nat) {timers timers' : List Timer}
    (ht : timers' = timers) :
    World.Spoils { w with clock, round, timers } { w' with clock, round, timers := timers' } := by
  subst ht
  obtain ⟨hj, hl⟩ := h
  exact ⟨hj, hl⟩

theorem journal (h : w.Spoils w') : List.Forall₂ Entry.Spoils w.journal w'.journal := by
  obtain ⟨hj, -⟩ := h
  exact hj

theorem withCells (h : w.Spoils w') (cells : Cells) :
    World.Spoils { w with cells } { w' with cells } := by
  obtain ⟨hj, hl⟩ := h
  exact ⟨hj, hl⟩

theorem recordCalls (h : w.Spoils w') (label : Label) (calls : List HandlerCall) :
    (w.recordCalls label calls).Spoils (w'.recordCalls label calls) := by
  unfold World.recordCalls
  induction calls generalizing w w' with
  | nil => exact h
  | cons call calls ih => exact ih (h.record (.same _) label)

theorem addMember (h : w.Spoils w') (label : Label) (group member : Name) (value : Value) :
    (w.addMember label group member value).Spoils (w'.addMember label group member value) := by
  unfold World.addMember
  rw [h.cells]
  split
  · exact h
  · split
    · exact (h.withCells _).recordCalls label _
    · exact h.log _ _

theorem removeMember (h : w.Spoils w') (label : Label) (member : Name) :
    (w.removeMember label member).Spoils (w'.removeMember label member) := by
  unfold World.removeMember
  rw [h.cells]
  split
  · exact h
  · exact (h.withCells _).recordCalls label _

end World.Spoils

end ServiceHost

import ServiceHost.Graph
/-! A graph driven by hand: every registration gets an inbox of its own, numbered under its name,
and each step shows the messages it sent. -/

namespace ServiceHost.Graph

/-- What can be done to a graph. What is sent to a disconnected inbox is lost. -/
inductive TrialStep
  | register (name : Name) (dependencies : Names) (group : Option Name) (references : Names)
  | report (name : Name) (state : State) (value : Option Value)
  | remove (name : Name)
  | contains (name : Name)
  | state (name : Name)
  | disconnect (name : Name)

inductive TrialAnswer
  | none
  | flag (b : Bool)
  | state (s : Option State)

/-- An inbox as seen from outside; `number` counts the registrations of its name before. -/
structure TrialInbox where
  name : Name
  number : Nat
  connected : Bool

structure Trial where
  graph : Graph
  inboxes : List TrialInbox

structure Received where
  name : Name
  number : Nat
  messages : List Message

structure TrialReport where
  answer : TrialAnswer
  delivered : List Received
  roots : List Name
  isEmpty : Bool
  text : String

namespace Trial

def fresh : Trial := ⟨.empty, []⟩

def nextInbox (t : Trial) (name : Name) : TrialInbox :=
  ⟨name, (t.inboxes.filter (·.name = name)).length, true⟩

def perform (t : Trial) : TrialStep → TrialAnswer × List Delivery × Trial
  | .register name dependencies group references =>
    if t.graph.contains name then (.flag false, [], t)
    else
      let (graph, sent) := t.graph.register ⟨name, dependencies, group, references⟩ t.inboxes.length
      (.flag true, sent, ⟨graph, t.inboxes ++ [t.nextInbox name]⟩)
  | .report name state value =>
    let (graph, sent) := t.graph.report name state value
    (.none, sent, { t with graph })
  | .remove name =>
    let (graph, sent) := t.graph.requestRemoval name
    (.flag (t.graph.contains name), sent, { t with graph })
  | .contains name => (.flag (t.graph.contains name), [], t)
  | .state name => (.state (t.graph.state? name), [], t)
  | .disconnect name =>
    (.none, [], { t with
      inboxes := t.inboxes.map fun i => { i with connected := i.connected && i.name ≠ name } })

def messagesTo (inbox : Inbox) (sent : List Delivery) : List Message :=
  (sent.filter (·.inbox = inbox)).map Delivery.message

def received (t : Trial) (sent : List Delivery) : List Received :=
  let all := t.inboxes.zipIdx.filterMap fun (i, position) =>
    let messages := messagesTo position sent
    if i.connected && !messages.isEmpty then some ⟨i.name, i.number, messages⟩ else none
  all.mergeSort fun a b => a.name < b.name || (a.name == b.name && a.number ≤ b.number)

def step (t : Trial) (s : TrialStep) : TrialReport × Trial :=
  let (answer, sent, next) := t.perform s
  (⟨answer, next.received sent, next.graph.roots, next.graph.isEmpty, next.graph.text⟩, next)

def play : Trial → List TrialStep → List TrialReport
  | _, [] => []
  | t, s :: rest =>
    let (report, next) := t.step s
    report :: next.play rest

end Trial

end ServiceHost.Graph

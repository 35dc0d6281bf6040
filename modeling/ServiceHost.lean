import ServiceHost.Cell.Shared
import ServiceHost.Graph.Trial
import ServiceHost.Run
import ServiceHost.Session
import ServiceHost.Proofs.Graph.StopProtocol
import ServiceHost.Proofs.System.Settlement
import ServiceHost.Proofs.System.DependencyOrder
import ServiceHost.Proofs.System.Closing
import ServiceHost.Proofs.Graph.DeliveryProtocol
import ServiceHost.Proofs.Declarations
import ServiceHost.Proofs.System.Beginnings
import ServiceHost.Proofs.System.Cascade
import ServiceHost.Proofs.System.Filling
import ServiceHost.Proofs.System.Installation
import ServiceHost.Proofs.Graph.GroupProtocol
import ServiceHost.Proofs.System.Cells
import ServiceHost.Proofs.System.Injections
import ServiceHost.Proofs.System.Invocations
import ServiceHost.Proofs.System.LiveSlots
import ServiceHost.Proofs.System.Rosters
import ServiceHost.Proofs.System.Composites
import ServiceHost.Proofs.Courses
import ServiceHost.Proofs.System.Notices
import ServiceHost.Proofs.System.StopOrder
import ServiceHost.Proofs.System.Offspring
import ServiceHost.Proofs.System.ForcedClose
import ServiceHost.Proofs.System.Termination
import ServiceHost.Proofs.System.Containment
import ServiceHost.Proofs.StopSignals
import ServiceHost.Proofs.System.Queries
import ServiceHost.Proofs.System.Completions
import ServiceHost.Proofs.System.Milestones
import ServiceHost.Proofs.System.Accounts
import ServiceHost.Proofs.System.Bookkeeping
import ServiceHost.Proofs.System.Outcomes
import ServiceHost.Proofs.Spoilt.Worlds
import ServiceHost.Proofs.Spoilt.Scripts
import ServiceHost.Proofs.Spoilt.Callbacks
import ServiceHost.Proofs.Spoilt.Turns
import ServiceHost.Proofs.Spoilt.Systems
import ServiceHost.Proofs.Spoilt.Moves
import ServiceHost.Proofs.Spoilt.Runs
import ServiceHost.Proofs.Graph.Representation
import ServiceHost.Proofs.Graph.Commutation
import ServiceHost.Proofs.SharedRosters
import ServiceHost.Proofs.System.Serving
import ServiceHost.Proofs.System.StandIns

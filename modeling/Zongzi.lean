import Zongzi.ToStd.SecondaryIndex
import Zongzi.ToStd.MultiIndex
import Zongzi.ToStd.PartialTable
import Zongzi.ToStd.ExceptFold
import Zongzi.ToStd.Numeral
import Zongzi.ToStd.Pointers
import Zongzi.ToStd.EvictingCache
import Zongzi.Machine.Path
import Zongzi.Machine.Program
import Zongzi.Machine.Discipline
import Zongzi.Machine.Loops
import Zongzi.Machine.Watermark
import Zongzi.Machine.Actors
import Zongzi.Machine.Channels
import Zongzi.Model.Records
import Zongzi.Model.State
import Zongzi.Model.Fsm
import Zongzi.Model.TagIndex
import Zongzi.Model.Snapshot
import Zongzi.Model.ShardController
import Zongzi.Model.Agent
import Zongzi.Model.Bootstrap
import Zongzi.Model.ControllerManager
import Zongzi.Model.HostController
import Zongzi.Model.ShardUpdate
import Zongzi.Spec.Topology
import Zongzi.Spec.TopologyInvariants
import Zongzi.Spec.Ledger
import Zongzi.Spec.LedgerInvariants
import Zongzi.Spec.Deployment
import Zongzi.Proofs.Commands
import Zongzi.Proofs.TopologyRefinement
import Zongzi.Proofs.Runs
import Zongzi.Proofs.References
import Zongzi.Proofs.ShardEffects
import Zongzi.Proofs.Names
import Zongzi.Proofs.Recovery
import Zongzi.Proofs.Identifiers
import Zongzi.Proofs.Cluster
import Zongzi.Proofs.Creation
import Zongzi.Proofs.Placement
import Zongzi.Proofs.Membership
import Zongzi.Proofs.Initialization
import Zongzi.Proofs.Tags
import Zongzi.Proofs.LedgerRefinement
import Zongzi.Proofs.ChangeTracking
import Zongzi.Proofs.EntryOutcomes
import Zongzi.Proofs.Footprint
import Zongzi.Proofs.Leadership
import Zongzi.Proofs.ShardUpdates
import Zongzi.Proofs.UpdateOutcomes
import Zongzi.Model.Start
import Zongzi.Proofs.HostRecord
import Zongzi.Model.Requests
import Zongzi.Proofs.ReadIndex
import Zongzi.Model.ShardClient
import Zongzi.Proofs.ShardClient
import Zongzi.Proofs.Watching
import Zongzi.Proofs.Bootstrapping
import Zongzi.Proofs.ControllerManager
import Zongzi.Proofs.HostController
import Zongzi.Proofs.InitialMembers
import Zongzi.Proofs.ShardJoin
import Zongzi.Proofs.Demand
import Zongzi.Proofs.TagJournal
import Zongzi.Proofs.TagWrites
import Zongzi.Proofs.TagLookups
import Zongzi.Proofs.Reconcile
import Zongzi.Proofs.ReconcilePass
import Zongzi.Proofs.AddingReplicas
import Zongzi.Proofs.VaryTags
import Zongzi.Proofs.PlacementTags
import Zongzi.Proofs.TracedPass
import Zongzi.Proofs.Convergence
import Zongzi.Proofs.VaryPolicy
import Zongzi.Proofs.KeptReplicas
import Zongzi.Proofs.Routing
import Zongzi.Proofs.TickPasses
import Zongzi.Proofs.ClientPings
import Zongzi.Proofs.PlacementOptions
import Zongzi.Proofs.HostTags
import Zongzi.Model.ReplicaAwait
import Zongzi.Proofs.ReplicaAwait
import Zongzi.Model.Streaming
import Zongzi.Proofs.Forwarding
import Zongzi.Proofs.StreamInput
import Zongzi.Proofs.StreamRelease
import Zongzi.Model.ClusterName
import Zongzi.Proofs.ClusterName
import Zongzi.Model.Iterators
import Zongzi.Proofs.Iterators
import Zongzi.Proofs.SettledShards
import Zongzi.Proofs.IdleManagers
import Zongzi.Model.SharedMaps
import Zongzi.Proofs.SharedMaps
import Zongzi.Proofs.RegistryFleet
import Zongzi.Model.ClientPool
import Zongzi.Proofs.ClientPool
import Zongzi.Model.RaftGroups
import Zongzi.Proofs.RaftGroups
import Zongzi.Proofs.RaftMembers
import Zongzi.ToStd.Leases
import Zongzi.Model.StreamQueries
import Zongzi.Proofs.StreamQueries
import Zongzi.Machine.Parallel
import Zongzi.Proofs.ControlPlane
import Zongzi.Proofs.WriteRetries

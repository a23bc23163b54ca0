import RoverSwarm.Estop
import RoverSwarm.Arbiter
import RoverSwarm.Gpio
import RoverSwarm.Relay
import RoverSwarm.GtsamUtils
import RoverSwarm.Pgo.Node
import RoverSwarm.Pgo.StateMachine
import RoverSwarm.Pgo.Aggregate
import RoverSwarm.Exchange.Descriptors
import RoverSwarm.Exchange.Delivery
import RoverSwarm.Exchange.NothingLost
import RoverSwarm.Lib.Dict
import RoverSwarm.Lib.TopK
import RoverSwarm.Selection.Model
import RoverSwarm.Selection.Rekey
import RoverSwarm.Selection.Connection
import RoverSwarm.Selection.Budget
import RoverSwarm.Pgo.Collection
import RoverSwarm.Pgo.LatestPose
import RoverSwarm.Pgo.CountedOnce
import RoverSwarm.Selection.Once
import RoverSwarm.Selection.SingleGraph
import RoverSwarm.Teleop
import RoverSwarm.Leader
import RoverSwarm.LateJoiners
import RoverSwarm.Lib.FirstBest
import RoverSwarm.Dock
import RoverSwarm.Fleet
import RoverSwarm.Ramps
import RoverSwarm.Formation
import RoverSwarm.Battery
import RoverSwarm.Exchange.Monitoring
import RoverSwarm.Selection.FixedEdges
import RoverSwarm.Lib.Search
import RoverSwarm.Lib.RigidMotion
import RoverSwarm.Pgo.Connectivity
import RoverSwarm.GroundTruth
import RoverSwarm.Kitti
import RoverSwarm.ScanContext
import RoverSwarm.Selection.BestWeight
import RoverSwarm.Kitti.Patch
import RoverSwarm.Kitti.Shepperd
import RoverSwarm.Kitti.Split
import RoverSwarm.Kitti.Recording
import RoverSwarm.Namespacing
import RoverSwarm.Lib.Loop
import RoverSwarm.Spawn
import RoverSwarm.Lib.Blocks
import RoverSwarm.Livox
import RoverSwarm.GroundTruth.Odometry
import RoverSwarm.Lib.Utf8
import RoverSwarm.Teleop.Restart
import RoverSwarm.Exchange.Matches
import RoverSwarm.Lib.WalkRemove
import RoverSwarm.Lib.ListGraph
import RoverSwarm.Exchange.Pruning
import RoverSwarm.Exchange.PublishedOnce
import RoverSwarm.Selection.Disconnections
import RoverSwarm.Selection.Recover
import RoverSwarm.Selection.Skeleton
import RoverSwarm.Selection.Served
import RoverSwarm.Lib.GraphAlgorithms
import RoverSwarm.Broker
import RoverSwarm.Lib.BestShift
import RoverSwarm.Lib.Grouping
import RoverSwarm.ScanContext.Distance
import RoverSwarm.Lib.Fields
import RoverSwarm.LidarHandler
import RoverSwarm.ScanContext.Cloud
import RoverSwarm.Rendezvous
import RoverSwarm.GtsamUtils.Packed
import RoverSwarm.Lib.Recent
import RoverSwarm.Relay.Trackers
import RoverSwarm.Rendezvous.Ranges
import RoverSwarm.Lib.Ranking
import RoverSwarm.Matching
import RoverSwarm.Matching.Sparse
import RoverSwarm.Matching.ScanContext
import RoverSwarm.Exchange.Sent
import RoverSwarm.Swarm.LocalDescriptors
import RoverSwarm.Swarm.Detection
import RoverSwarm.Swarm.System
import RoverSwarm.Swarm.Similar
import RoverSwarm.Swarm.Keyframes
import RoverSwarm.Swarm.Requests
import RoverSwarm.Swarm.Invariant
import RoverSwarm.Swarm.Later
import RoverSwarm.Swarm.LoopClosures
import RoverSwarm.Lib.Layout
import RoverSwarm.Pc2Utils
import RoverSwarm.Pc2Utils.RoundTrip
import RoverSwarm.Pc2Utils.Rereading
import RoverSwarm.Lib.Circular
import RoverSwarm.LivoxDriver
import RoverSwarm.OusterDriver
import RoverSwarm.LidarPacketHandler
import RoverSwarm.Lib.MaxHeap
import RoverSwarm.IkdTree
import RoverSwarm.IkdTree.WellFormed
import RoverSwarm.IkdTree.Handed
import RoverSwarm.IkdTree.Contents
import RoverSwarm.IkdTree.Search
import RoverSwarm.IkdTree.Calls
import RoverSwarm.IkdTree.Runs
import RoverSwarm.IkdTree.Replay
import RoverSwarm.IkdTree.CatchUp
import RoverSwarm.IkdTree.Swap
import RoverSwarm.LaserMapping

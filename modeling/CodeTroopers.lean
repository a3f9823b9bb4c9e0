import CodeTroopers.Strategy.FloydExact
import CodeTroopers.Strategy.Threat
import CodeTroopers.Strategy.HeldItems
import CodeTroopers.Strategy.LegalAction
import CodeTroopers.Strategy.CreditLedger
import CodeTroopers.Strategy.MedikitSupply
import CodeTroopers.Strategy.OwnEntry
import CodeTroopers.Strategy.Safety
import CodeTroopers.Strategy.Budget
import CodeTroopers.Strategy.FloydPoints
import CodeTroopers.Strategy.DistanceMetric
import CodeTroopers.Strategy.TargetDistance
import CodeTroopers.Strategy.Cohesion
import CodeTroopers.Strategy.Resources
import CodeTroopers.Strategy.Reordering
import CodeTroopers.Client.ContextGrammar
import CodeTroopers.Client.ContextSequence
import CodeTroopers.Client.Consistency
import CodeTroopers.Client.Lockstep
import CodeTroopers.Client.HostOrder
import CodeTroopers.Client.VisibilityHeader
import CodeTroopers.Client.VisibilityTable
import CodeTroopers.Client.Outbound
import CodeTroopers.Client.CutStream
import CodeTroopers.Client.SessionGrammar
import CodeTroopers.Client.CSimpleSocket
import CodeTroopers.Client.SystemCalls
import CodeTroopers.Client.Connection
import CodeTroopers.Strategy.Process
import CodeTroopers.Client.GamePlayed
import CodeTroopers.Strategy.RangeChecks
import CodeTroopers.Strategy.DepthCut
import CodeTroopers.Strategy.IntProcess
import CodeTroopers.Strategy.Footprint
import CodeTroopers.Strategy.NeverIdle
import CodeTroopers.Strategy.Caution
import CodeTroopers.Strategy.Favour
import CodeTroopers.Client.GameExact
import CodeTroopers.Strategy.Mirrored

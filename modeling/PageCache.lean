import PageCache.Event.Line
import PageCache.Mount.Run
import PageCache.Session.Command
import PageCache.Proofs.Plan
import PageCache.Proofs.Recency
import PageCache.Proofs.Span
import PageCache.Proofs.Views
import PageCache.Proofs.Trimming
import PageCache.Proofs.Upkeep
import PageCache.Proofs.Waiting
import PageCache.Proofs.Settling
import PageCache.Proofs.Delivery
import PageCache.Proofs.Leaving
import PageCache.Proofs.Registration
import PageCache.Proofs.Creation
import PageCache.Proofs.Joining
import PageCache.Proofs.Lookup
import PageCache.Proofs.Opening
import PageCache.Proofs.Driving
import PageCache.Proofs.Polling
import PageCache.Proofs.Returning
import PageCache.Proofs.Running
import PageCache.Proofs.Contract
import PageCache.Proofs.Assembly
import PageCache.Proofs.Outcome
import PageCache.Proofs.ReadOutcome
import PageCache.Proofs.Transparency
import PageCache.Proofs.Waiters
import PageCache.Proofs.Deliveries
import PageCache.Proofs.PageSurvival
import PageCache.Proofs.Totals
import PageCache.Proofs.Aside
import PageCache.Proofs.Moves
import PageCache.Proofs.Accounting
import PageCache.Proofs.Updates
import PageCache.Proofs.Coherence
import PageCache.Proofs.Notices
import PageCache.Proofs.Versions
import PageCache.Proofs.Traffic
import PageCache.Proofs.Launching
import PageCache.Proofs.Issuing
import PageCache.Proofs.SingleFlight
import PageCache.Proofs.Renewal
import PageCache.Proofs.Clearing
import PageCache.Proofs.Budget
import PageCache.Proofs.BackendTraffic
import PageCache.Proofs.Faithful
import PageCache.Proofs.Freshness
import PageCache.Proofs.FaultStamps
import PageCache.Proofs.Sightings
import PageCache.Proofs.FaultResolution
import PageCache.Proofs.Shedding
import PageCache.Proofs.Extents
import PageCache.Proofs.Balance
import PageCache.Proofs.Conservation
import PageCache.Proofs.RecentUse
import PageCache.Proofs.RecencyLists
import PageCache.Proofs.Registry
import PageCache.Proofs.Marking
import PageCache.Proofs.LastRead
import PageCache.Proofs.Yielding
import PageCache.Proofs.Release
import PageCache.Proofs.Fitting
import PageCache.Proofs.Calm
import PageCache.Proofs.Breaches
import PageCache.Proofs.Tearing
import PageCache.Proofs.Crowding
import PageCache.Proofs.Sparing
import PageCache.Proofs.Lockstep
import PageCache.Proofs.Abandoning
import PageCache.Proofs.Renumbering
import PageCache.Proofs.Mirroring
import PageCache.Proofs.MirroredReads
import PageCache.Proofs.MirroredOutcomes
import PageCache.Proofs.MirroredControl
import PageCache.Proofs.Bystanding
import PageCache.Proofs.Watching
import PageCache.Proofs.MirroredPolls
import PageCache.Proofs.BystandingPolls
import PageCache.Proofs.Isolating
import PageCache.Proofs.Isolation
import PageCache.Proofs.Independence
import PageCache.Proofs.Bookkeeping
import PageCache.Proofs.Sweeping
import PageCache.Proofs.EvictionPass
import PageCache.Proofs.HitPath
import PageCache.Proofs.FailedFetch
import PageCache.Proofs.Bare
import PageCache.Proofs.Retelling
import PageCache.Proofs.Pieces
import PageCache.Proofs.Walking
import PageCache.Proofs.SpanLookups
import PageCache.Proofs.Arrivals
import PageCache.Proofs.LongestRun
import PageCache.Proofs.FlatReads
import PageCache.Proofs.Cutting
import PageCache.Proofs.Errands
import PageCache.Proofs.ExactSlices
import PageCache.Proofs.Clipping
import PageCache.Proofs.PartBytes

import DedupCommando.Model.Realize
import DedupCommando.Actions.NoFalseAlarm
import DedupCommando.Lib.OrdMap
import DedupCommando.Lib.Runs
import DedupCommando.Lib.Spread
import DedupCommando.Lib.Stamps
import DedupCommando.Lib.Sql
import DedupCommando.Lib.Transaction
import DedupCommando.Model.Completeness
import DedupCommando.Model.GroupReclaim
import DedupCommando.Store.Authority
import DedupCommando.Store.BuilderFigures
import DedupCommando.Store.BuildersAgree
import DedupCommando.Store.DirGroupAt
import DedupCommando.Store.Generations
import DedupCommando.Store.HashReuse
import DedupCommando.Store.HashReuseSound
import DedupCommando.Store.HashSpread
import DedupCommando.Store.TwinReaders
import DedupCommando.Store.BatchMarks
import DedupCommando.Store.SweepReport
import DedupCommando.Browse.Contract
import DedupCommando.Browse.Delivery
import DedupCommando.Lock.Exclusion
import DedupCommando.Browse.Fleet
import DedupCommando.Pipeline.Verify
import DedupCommando.Pipeline.Roots
import DedupCommando.Pipeline.Walk
import DedupCommando.Store.CommittedBuild
import DedupCommando.Pipeline.WalkPlaces
import DedupCommando.Pipeline.WalkLedger
import DedupCommando.Pipeline.WalkComplete
import DedupCommando.Pipeline.WalkFigures
import DedupCommando.Pipeline.WalkGuard
import DedupCommando.Store.MoveMatching
import DedupCommando.Store.MoveOrder
import DedupCommando.Model.PlanOrder
import DedupCommando.Store.SignatureStream
import DedupCommando.Store.ScanReclaim
import DedupCommando.Store.Retention
import DedupCommando.Export.Csv
import DedupCommando.Store.ExportExact
import DedupCommando.Actions.Placement
import DedupCommando.Actions.ReadBudget
import DedupCommando.Model.PathKeyAlgebra
import DedupCommando.Registry.NeverClosed
import DedupCommando.Kernel.Metadata
import DedupCommando.Actions.CloneIdentity
import DedupCommando.Store.PanelFiles
import DedupCommando.Store.PanelAgrees
import DedupCommando.Lib.GroupedCounts
import DedupCommando.Store.Candidates
import DedupCommando.Store.CandidateProgress
import DedupCommando.Pipeline.HashFile
import DedupCommando.Store.Provenance
import DedupCommando.Lib.CrashJob
import DedupCommando.Lib.Keyed
import DedupCommando.Store.DirRows
import DedupCommando.Pipeline.Run
import DedupCommando.Pipeline.RunSafety

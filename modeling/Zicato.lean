import Zicato.ChampionGate
import Zicato.Knockout
import Zicato.MatchupIds
import Zicato.BracketRound
import Zicato.SingleElim
import Zicato.DoubleElim
import Zicato.Swiss
import Zicato.Racing
import Zicato.Gauntlet
import Zicato.Structures
import Zicato.Ledger
import Zicato.LedgerWrites
import Zicato.LedgerRuns
import Zicato.LedgerTamper
import Zicato.LadderMediation
import Zicato.Confirmation
import Zicato.ContainmentSound
import Zicato.ByteChanges
import Zicato.AtomicApply
import Zicato.Markers
import Zicato.ObserverRuns
import Zicato.ReceiptDecode
import Zicato.SettlementRuns
import Zicato.PromotionHook
import Zicato.UnitCacheRuns
import Zicato.Replicates
import Zicato.Processes
import Zicato.Watchdog
import Zicato.Escalation
import Zicato.Deadlines
import Zicato.SnapshotReap
import Zicato.RunsLoop
import Zicato.RunsLoopSafety
import Zicato.RoundLog
import Zicato.RoundLogRuns
import Zicato.FieldVerdict
import Zicato.FieldOverrides
import Zicato.PromotionGate
import Zicato.GateEvidence
import Zicato.GateRules
import Zicato.GateExact
import Zicato.RoundSettlement
import Zicato.PromotionAudit
import Zicato.Registers
import Zicato.Resume
import Zicato.ResumeSafety
import Zicato.ResumeSteps
import Zicato.ResumeKeeps
import Zicato.EvolveRounds
import Zicato.EvolveSafety
import Zicato.EvolveRuns
import Zicato.EvolveKeeps
import Zicato.RoundNumbers
import Zicato.ZeroPad
import Zicato.CommandQueue
import Zicato.GenScore
import Zicato.GenScoreRuns
import Zicato.LineageRecord
import Zicato.LineageRuns
import Zicato.DictWrites
import Zicato.Scoring
import Zicato.ScoringChannels
import Zicato.ScalarSum
import Zicato.CrashCharge
import Zicato.Grouping
import Zicato.ReplicateFold
import Zicato.ReplicateScores
import Zicato.ReplicateRuns
import Zicato.ReplicateOrder
import Zicato.Elo
import Zicato.EloDuels
import Zicato.Skyline
import Zicato.Pareto
import Zicato.ParetoPass
import Zicato.ParetoRecord
import Zicato.ParetoRuns
import Zicato.ParetoResettle
import Zicato.LedgerTotality
import Zicato.PyInt
import Zicato.Measurement
import Zicato.MeasurementIds
import Zicato.RegionScan
import Zicato.InertLiterals
import Zicato.RegionBody
import Zicato.NoopPatch
import Zicato.RegionWalk
import Zicato.RegionRewrite
import Zicato.RegionLocal
import Zicato.RegionPatches
import Zicato.RegionOrder
import Zicato.Json
import Zicato.JsonRound
import Zicato.JsonPrefix
import Zicato.JsonAscii
import Zicato.JsonExact
import Zicato.Events
import Zicato.EventCasing
import Zicato.DriftChannels
import Zicato.EventTolerance
import Zicato.TerminalEvent
import Zicato.EventsIndex
import Zicato.Matchers
import Zicato.MatcherTotality
import Zicato.Codec
import Zicato.CodecRetraction
import Zicato.CodecOrder
import Zicato.ScoringDocument
import Zicato.ScoringDefaults
import Zicato.ScoringOrder
import Zicato.ScoringFrozen
import Zicato.WriterLock
import Zicato.WriterLockRuns
import Zicato.WriterExclusion
import Zicato.RoundIntegrity
import Zicato.RoundVerdicts
import Zicato.JsonSchema
import Zicato.ResponseText
import Zicato.ExperimentParse
import Zicato.ResponseTried
import Zicato.ExperimentBounds
import Zicato.ContractPublication
import Zicato.PublicationRuns
import Zicato.GitStore
import Zicato.GitStoreRuns
import Zicato.GenerationStores
import Zicato.StoreAgreement
import Zicato.UnitArchive
import Zicato.UnitArchiveRuns
import Zicato.Traced
import Zicato.BestOfN
import Zicato.SlateSelection
import Zicato.SlateView
import Zicato.SlateRuns
import Zicato.Rating
import Zicato.RubricAuthoring
import Zicato.LinearSolve

import GrokPi.Adapter.PlanMode
import GrokPi.Adapter.QueueBridge
import GrokPi.Permission.BashGates
import GrokPi.Shared.Glob
import GrokPi.Permission.UrlMatch
import GrokPi.Permission.DenyCovers
import GrokPi.HunkTracker.Diff
import GrokPi.HunkTracker.Actor
import GrokPi.HunkTracker.Inversion
import GrokPi.HunkTracker.Attribution
import GrokPi.HunkTracker.Mutations
import GrokPi.HunkTracker.TurnIndex
import GrokPi.ApplyPatch.Apply
import GrokPi.ApplyPatch.Tool
import GrokPi.ApplyPatch.Sequential
import GrokPi.Chat.Actor
import GrokPi.Chat.TurnCapture
import GrokPi.Subagents.Runtime
import GrokPi.Subagents.Scheduler
import GrokPi.Rollback.Journal
import GrokPi.Rollback.Plan
import GrokPi.Rollback.SessionTree
import GrokPi.Rollback.Undo
import GrokPi.Rollback.JournalFile
import GrokPi.Rollback.Binding
import GrokPi.Workflow.Journal
import GrokPi.Workflow.JournalRuns
import GrokPi.Workflow.JournalText
import GrokPi.Shared.Replay
import GrokPi.Workflow.Engine
import GrokPi.Workflow.EngineCalls
import GrokPi.Workflow.EngineRuns
import GrokPi.Subagents.Team
import GrokPi.Subagents.TeamChanges
import GrokPi.Subagents.TeamSteps
import GrokPi.Subagents.TeamWaiting
import GrokPi.Subagents.TeamDelivery
import GrokPi.Permission.PathForms
import GrokPi.Permission.PolicyOrder
import GrokPi.Delivery.Lifecycle
import GrokPi.Permission.McpPolicy
import GrokPi.Delivery.Conservation
import GrokPi.Delivery.Numbered
import GrokPi.CircuitBreaker.Breaker
import GrokPi.CircuitBreaker.Recovery
import GrokPi.HunkTracker.EventReplay
import GrokPi.Chat.Pairing
import GrokPi.ApplyPatch.Parser
import GrokPi.ApplyPatch.Rendering
import GrokPi.Hashline.Anchors
import GrokPi.Hashline.Edits
import GrokPi.Shared.Substitution
import GrokPi.Hashline.Snapshot
import GrokPi.Editor.Segmentation
import GrokPi.Editor.Plans
import GrokPi.Editor.TextArea
import GrokPi.Editor.Validity
import GrokPi.Editor.Elements
import GrokPi.Rollback.Atomicity
import GrokPi.Permission.BashGrants
import GrokPi.SearchReplace.Replacing
import GrokPi.SearchReplace.NormalizedMatch
import GrokPi.SearchReplace.EditDetails
import GrokPi.Eval.HostCallGate
import GrokPi.Eval.GateOrder
import GrokPi.Eval.GateFairness
import GrokPi.Shared.JsonWidth
import GrokPi.Eval.Protocol
import GrokPi.Eval.Kernel
import GrokPi.Eval.Isolation
import GrokPi.Subagents.TeamMessages
import GrokPi.Subagents.TeamReports
import GrokPi.Subagents.TeamTables
import GrokPi.Subagents.TeamRollback
import GrokPi.Subagents.TeamAtomicity
import GrokPi.Bash.Completions
import GrokPi.Compaction.Fit
import GrokPi.Compaction.Ladder
import GrokPi.Chat.Rewind
import GrokPi.Chat.Idempotence
import GrokPi.Chat.Pruning
import GrokPi.Compaction.Summary
import GrokPi.Bash.Control
import GrokPi.Chat.ImageBudget
import GrokPi.Chat.ImageEviction
import GrokPi.Chat.FitBudget
import GrokPi.ApplyPatch.Seeking
import GrokPi.ApplyPatch.ContextFrame
import GrokPi.Shared.Forest
import GrokPi.Adapter.SessionTree
import GrokPi.Adapter.SessionPreorder
import GrokPi.Adapter.ReplayCache
import GrokPi.Adapter.QueueIdentity
import GrokPi.Chat.MemoryReminder
import GrokPi.Shared.JsonGrammar
import GrokPi.Adapter.PartialJson
import GrokPi.HunkTracker.FailedActions
import GrokPi.HunkTracker.DiskMirror
import GrokPi.Hashline.EofInsertion
import GrokPi.Hashline.ShiftedAnchors
import GrokPi.Hashline.ReadAnchors
import GrokPi.CircuitBreaker.LateOutcomes
import GrokPi.Adapter.GrepLines
import GrokPi.HunkTracker.HunkPatch
import GrokPi.Editor.UndoHistory
import GrokPi.Editor.CursorRest
import GrokPi.HunkTracker.HunkGrouping
import GrokPi.Shared.Loops
import GrokPi.Editor.Reading
import GrokPi.Editor.Wrapping
import GrokPi.Editor.RowItems
import GrokPi.Editor.WrappedRows
import GrokPi.Shared.Rows
import GrokPi.Workflow.RunTracker
import GrokPi.Workflow.TrackerRuns
import GrokPi.Workflow.AgentBudget
import GrokPi.Workflow.Manager
import GrokPi.Workflow.ManagerRuns
import GrokPi.HunkTracker.Coalescing
import GrokPi.HunkTracker.TrackedFiles
import GrokPi.Shared.TornLog
import GrokPi.Session.JsonlFile
import GrokPi.Session.JsonlLog

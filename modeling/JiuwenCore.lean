import JiuwenCore.Lib.CallGroups
import JiuwenCore.Lib.Ends
import JiuwenCore.Lib.Gate
import JiuwenCore.Lib.LineFeed
import JiuwenCore.Lib.OrderedMap
import JiuwenCore.Lib.Pieces
import JiuwenCore.Lib.Runs
import JiuwenCore.Lib.Utf8
import JiuwenCore.Text
import JiuwenCore.Json
import JiuwenCore.Message
import JiuwenCore.Utils.Encoding
import JiuwenCore.JsonText
import JiuwenCore.JsonReader
import JiuwenCore.Utils.ToolParser
import JiuwenCore.Utils.ToolScan
import JiuwenCore.Utils.ToolNames
import JiuwenCore.Context.Window
import JiuwenCore.Context.Passes
import JiuwenCore.Context.Reduction
import JiuwenCore.Context.Limits
import JiuwenCore.Context.CheckedWindow
import JiuwenCore.Context.Ranges
import JiuwenCore.Context.Charge
import JiuwenCore.Context.SignedSums
import JiuwenCore.Context.Erasure
import JiuwenCore.Context.Bounds
import JiuwenCore.Context.Pairing
import JiuwenCore.Context.Adjacency
import JiuwenCore.Context.Engine
import JiuwenCore.Models.Transport
import JiuwenCore.Models.OpenAIStream
import JiuwenCore.Models.OpenAIDeltas
import JiuwenCore.Models.AnthropicStream
import JiuwenCore.Models.AnthropicEvents
import JiuwenCore.Models.AnthropicCuts
import JiuwenCore.Models.AnthropicBlocks
import JiuwenCore.Models.Request
import JiuwenCore.Models.RequestText
import JiuwenCore.Models.Retry
import JiuwenCore.Models.OpenAIFormat
import JiuwenCore.Models.OpenAIText
import JiuwenCore.Models.AnthropicText
import JiuwenCore.Models.AnthropicFormat
import JiuwenCore.Models.AnthropicPayload
import JiuwenCore.Models.FallbackCalls
import JiuwenCore.Worker.ReactLoop
import JiuwenCore.Worker.Answers
import JiuwenCore.Worker.CallIds
import JiuwenCore.Worker.Lifetimes
import JiuwenCore.Session.Paths
import JiuwenCore.Session.Manager
import JiuwenCore.Session.Steps
import JiuwenCore.Session.Gate
import JiuwenCore.Session.Registry
import JiuwenCore.Session.Reload
import JiuwenCore.Session.Removal
import JiuwenCore.Session.Isolation
import JiuwenCore.Session.Restore
import JiuwenCore.Storage.JsonStorage
import JiuwenCore.Storage.Reload
import JiuwenCore.Storage.SaveFailures
import JiuwenCore.Storage.DbStorage
import JiuwenCore.Storage.Persistence
import JiuwenCore.Core.HistoryStore
import JiuwenCore.Core.AskUser
import JiuwenCore.Lib.Throwing
import JiuwenCore.Session.ReloadFailure
import JiuwenCore.Lib.Ownership
import JiuwenCore.Session.Ownership
import JiuwenCore.Session.Saves
import JiuwenCore.Core.EventSink
import JiuwenCore.Lib.LogReaders
import JiuwenCore.Core.Dream
import JiuwenCore.Core.DreamFailures
import JiuwenCore.Core.DreamPasses
import JiuwenCore.Core.DreamBatches
import JiuwenCore.Core.Consolidation
import JiuwenCore.Core.DreamExclusion
import JiuwenCore.Mcp.Registry
import JiuwenCore.Mcp.Client
import JiuwenCore.Mcp.Connection
import JiuwenCore.Lib.NameClaims
import JiuwenCore.Mcp.Frame
import JiuwenCore.Lib.Reconcile
import JiuwenCore.Mcp.Manager
import JiuwenCore.Mcp.Reconcile
import JiuwenCore.Mcp.LoadFailures
import JiuwenCore.Mcp.System
import JiuwenCore.Mcp.Reconnect
import JiuwenCore.Utils.ParseAction
import JiuwenCore.Worker.Disclosure
import JiuwenCore.Worker.Confinement
import JiuwenCore.Worker.AutoMode
import JiuwenCore.Lib.Wire
import JiuwenCore.Feishu.Frame
import JiuwenCore.Lib.Recent
import JiuwenCore.Lib.Trim
import JiuwenCore.Feishu.Turns
import JiuwenCore.Lib.Spacing
import JiuwenCore.Tools.Cooldown
import JiuwenCore.Lib.Fields
import JiuwenCore.Config.AgentConfig
import JiuwenCore.Memory.HttpRuntime
import JiuwenCore.Core.SchemaCache
import JiuwenCore.Worker.ToolSync
import JiuwenCore.Config.ConfigNode
import JiuwenCore.Config.ConfigJson
import JiuwenCore.Config.Migration
import JiuwenCore.Config.Store
import JiuwenCore.Config.StoreReload
import JiuwenCore.Utils.ToolSuffix
import JiuwenCore.Worker.Transcript
import JiuwenCore.Lib.InPlace
import JiuwenCore.Utils.Prompt
import JiuwenCore.Tools.Disk
import JiuwenCore.Tools.Arguments
import JiuwenCore.Tools.EditFile
import JiuwenCore.Lib.JsonSyntax
import JiuwenCore.Tools.ArgumentReading
import JiuwenCore.Tools.ArgumentValues
import JiuwenCore.Tools.WriteFile
import JiuwenCore.Lib.Pages
import JiuwenCore.Tools.ReadFile
import JiuwenCore.Lib.Shell
import JiuwenCore.Tools.Exec
import JiuwenCore.Lib.TimedCache
import JiuwenCore.Tools.WebSearch
import JiuwenCore.Lib.Calendar
import JiuwenCore.Lib.Words
import JiuwenCore.Memory.EntityDecay
import JiuwenCore.Lib.Filtered
import JiuwenCore.Memory.ContextText
import JiuwenCore.Memory.Expiry
import JiuwenCore.Lib.Checked
import JiuwenCore.Utils.RetryHelper
import JiuwenCore.Lib.Backlog
import JiuwenCore.Core.DreamProgress
import JiuwenCore.Lib.Locked
import JiuwenCore.Core.Compaction
import JiuwenCore.Tools.Todo
import JiuwenCore.Tools.FileState
import JiuwenCore.Skills.SkillEngine
import JiuwenCore.Skills.Frontmatter
import JiuwenCore.Lib.Forest
import JiuwenCore.Lib.Fitting
import JiuwenCore.Tools.FileTree
import JiuwenCore.Tools.ListDir
import JiuwenCore.Lib.Pattern
import JiuwenCore.Lib.Changes
import JiuwenCore.Tools.Grep
import JiuwenCore.Tools.Glob
import JiuwenCore.Config.Watcher
import JiuwenCore.Cron.Schedule
import JiuwenCore.Cron.Jobs
import JiuwenCore.Cron.FireTimes
import JiuwenCore.Cron.KeptJobs
import JiuwenCore.Cron.Sleep
import JiuwenCore.Lib.EventStream
import JiuwenCore.Http.ChatStream
import JiuwenCore.Http.ToolResults

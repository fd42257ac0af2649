import KvmConsole.Main
import KvmConsole.Proofs.History
import KvmConsole.Proofs.Json.Numerals
import KvmConsole.Proofs.Json.Strings
import KvmConsole.Proofs.Json.Values
import KvmConsole.Proofs.Json.Records
import KvmConsole.Proofs.Wire.StatusRoundTrip
import KvmConsole.Proofs.Msd.Reaction
import KvmConsole.Proofs.Msd.Session
import KvmConsole.Proofs.Msd.UploadAccount
import KvmConsole.Proofs.Msd.StaleReports
import KvmConsole.Proofs.Msd.Shown
import KvmConsole.Proofs.Msd.ProgressBar
import KvmConsole.Proofs.Daemon.Requests
import KvmConsole.Proofs.Console.Outcome
import KvmConsole.Proofs.Console.Between
import KvmConsole.Proofs.Console.EndToEnd
import KvmConsole.Proofs.Console.CommandButtons
import KvmConsole.Proofs.Pointer.ChannelIndependence
import KvmConsole.Proofs.Pointer.LastMove
import KvmConsole.Proofs.Interleaving
import KvmConsole.Proofs.Console.Sides
import KvmConsole.Proofs.Console.Views
import KvmConsole.Proofs.Console.Watch
import KvmConsole.Proofs.Console.Confluence
import KvmConsole.Proofs.Console.Tasks
import KvmConsole.Proofs.Msd.EnabledButtons
import KvmConsole.Proofs.Msd.Renumbering
import KvmConsole.Proofs.Msd.Selection
import KvmConsole.Proofs.Console.HistoryFree
import KvmConsole.Proofs.Json.Extension
import KvmConsole.Proofs.Json.Locality
import KvmConsole.Proofs.Json.Collapse
import KvmConsole.Proofs.Json.Agreement
import KvmConsole.Proofs.Json.Wholeness
import KvmConsole.Proofs.Json.Lookup
import KvmConsole.Proofs.Json.RecordLookup
import KvmConsole.Proofs.Json.Edits
import KvmConsole.Proofs.Wire.Framing
import KvmConsole.Proofs.Wire.StatusPaths
import KvmConsole.Proofs.Binary64.Rounding
import KvmConsole.Proofs.Binary64.Arithmetic
import KvmConsole.Proofs.Pointer.Rescaling
import KvmConsole.Proofs.Msd.SizeLabels
import KvmConsole.Proofs.Msd.Percentage
import KvmConsole.Proofs.Console.Success
import KvmConsole.Proofs.CommandLine.Program
import KvmConsole.Proofs.Daemon.ChunkedReading
import KvmConsole.Proofs.Daemon.UploadProgress
import KvmConsole.Proofs.Daemon.Addresses
import KvmConsole.Proofs.Daemon.Login
import KvmConsole.Proofs.Msd.UploadBar
import KvmConsole.Proofs.Msd.PendingCommand
import KvmConsole.Proofs.Msd.Notices
import KvmConsole.Proofs.Pointer.Coalescing
import KvmConsole.Proofs.Pointer.Flushes
import KvmConsole.Proofs.Pointer.WheelSteps
import KvmConsole.Proofs.Console.Journal
import KvmConsole.Proofs.CommandLine.Options
import KvmConsole.Proofs.Toml.Integers
import KvmConsole.Proofs.Settings
import KvmConsole.Proofs.CommandLine.Layers
import KvmConsole.Proofs.Url.Web
import KvmConsole.Proofs.Url.TrailingSlash
import KvmConsole.Proofs.Wire.HidEventReading
import KvmConsole.Proofs.Wire.HidEventCodec
import KvmConsole.Proofs.Wire.EditedMessages
import KvmConsole.Proofs.Msd.Disclosure
import KvmConsole.Proofs.Binary64.Order
import KvmConsole.Proofs.Pointer.Extents
import KvmConsole.Proofs.Pointer.Pixels
import KvmConsole.Proofs.Json.Prefixes
import KvmConsole.Proofs.Wire.TruncatedMessages
import KvmConsole.Proofs.Json.Spellings
import KvmConsole.Proofs.Wire.EventNames

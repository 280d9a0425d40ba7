import Strukt.App.ApprovalPrompt
import Strukt.App.CommandApproval
import Strukt.App.CursorOffsets
import Strukt.App.DocumentPath
import Strukt.App.EditorViews
import Strukt.App.LanguageDiagnostics
import Strukt.App.LanguageLifecycle
import Strukt.App.PersistenceRuns
import Strukt.App.ProcessRuns
import Strukt.App.ProviderIsolation
import Strukt.App.RemoteDocuments
import Strukt.App.RemoteRecords
import Strukt.App.RemoteTasks
import Strukt.App.Snippet
import Strukt.App.StaleObservation
import Strukt.App.SurfaceAgreement
import Strukt.App.TerminalEvents
import Strukt.Editor.ConflictRuns
import Strukt.Editor.Find
import Strukt.Editor.HistoryBudget
import Strukt.Editor.ReadOnly
import Strukt.Editor.TabSet
import Strukt.Editor.TabsRuns
import Strukt.Fs.Operations
import Strukt.Fs.QuickOpen
import Strukt.Fs.Watcher
import Strukt.Language.ClientErrors
import Strukt.Language.Delivery
import Strukt.Language.FeatureResponses
import Strukt.Language.Hover
import Strukt.Language.RestartBudget
import Strukt.Language.SyncedText
import Strukt.Persistence.RemoteStoreRuns
import Strukt.Remote.ConnectionMachine
import Strukt.Remote.ControlBytes
import Strukt.Remote.GitStatus
import Strukt.Remote.Listing
import Strukt.Remote.ProcessOutput
import Strukt.Remote.Ssh
import Strukt.Session.Auth
import Strukt.Session.CatalogSize
import Strukt.Session.DaemonRuns
import Strukt.Session.Duplicates
import Strukt.Session.Framing
import Strukt.Session.OutputRevision
import Strukt.Shell.Contribution
import Strukt.Terminal.Fairness
import Strukt.Terminal.Hyperlinks
import Strukt.Terminal.Paste
import Strukt.Terminal.ReflowLayout
import Strukt.Terminal.RowRepair
import Strukt.Terminal.Viewport

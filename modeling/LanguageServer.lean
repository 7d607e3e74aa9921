import LanguageServer.Hierarchy.Codec
import LanguageServer.Main
import LanguageServer.Scenario.Desk
import LanguageServer.Scenario.Files
import LanguageServer.Server.Report
import LanguageServer.Proofs.Server.CycleCheck
import LanguageServer.Proofs.Server.SymbolCheck
import LanguageServer.Proofs.Server.Stored
import LanguageServer.Proofs.Analysis.Computations
import LanguageServer.Proofs.Analysis.Coalesce
import LanguageServer.Proofs.Server.Running
import LanguageServer.Proofs.Server.Correlation
import LanguageServer.Proofs.Document.Positions
import LanguageServer.Proofs.Server.Depths
import LanguageServer.Proofs.Import.Targets
import LanguageServer.Proofs.Hierarchy.Duality
import LanguageServer.Proofs.Hierarchy.Limits
import LanguageServer.Proofs.Hierarchy.Heirs
import LanguageServer.Proofs.Hierarchy.Callees
import LanguageServer.Proofs.Server.Guard
import LanguageServer.Proofs.Server.Listening
import LanguageServer.Proofs.Server.Elapse
import LanguageServer.Proofs.Server.Outing
import LanguageServer.Proofs.Server.Finality
import LanguageServer.Proofs.Server.Tracking
import LanguageServer.Proofs.Analyzer.Wire
import LanguageServer.Proofs.Server.Spelling
import LanguageServer.Proofs.Server.Sourcing
import LanguageServer.Proofs.Editor.OnScreen
import LanguageServer.Proofs.Editor.Services
import LanguageServer.Proofs.Symbol.Descent
import LanguageServer.Proofs.Server.Selections
import LanguageServer.Proofs.Server.Scanning
import LanguageServer.Proofs.Server.Startups
import LanguageServer.Proofs.Timed.Expiry
import LanguageServer.Proofs.Hierarchy.Relatives
import LanguageServer.Proofs.Import.Folding
import LanguageServer.Proofs.Hierarchy.Arrangement
import LanguageServer.Proofs.Symbol.Addresses
import LanguageServer.Proofs.CommandLine.Confinement
import LanguageServer.Proofs.Hierarchy.Columns

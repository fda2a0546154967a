import FirmwareAudit.Main
import FirmwareAudit.Proofs.ArtifactNames
import FirmwareAudit.Proofs.Schedule
import FirmwareAudit.Proofs.Verification
import FirmwareAudit.Proofs.Verdict
import FirmwareAudit.Proofs.AbortCleanup
import FirmwareAudit.Proofs.Leftovers
import FirmwareAudit.Proofs.Walks
import FirmwareAudit.Proofs.Site
import FirmwareAudit.Proofs.SlotCalls
import FirmwareAudit.Proofs.Serving
import FirmwareAudit.Proofs.StaleFiles
import FirmwareAudit.Proofs.Sessions
import FirmwareAudit.Proofs.Retention
import FirmwareAudit.Proofs.Trails
import FirmwareAudit.Proofs.CleanRun
import FirmwareAudit.Proofs.CommandOrder
import FirmwareAudit.Proofs.Conduct
import FirmwareAudit.Proofs.Frame
import FirmwareAudit.Proofs.CommandItems
import FirmwareAudit.Proofs.ToolStarts
import FirmwareAudit.Proofs.Interrupts
import FirmwareAudit.Proofs.BeforePipeline
import FirmwareAudit.Proofs.ErrorContract
import FirmwareAudit.Proofs.ExitStatus
import FirmwareAudit.Proofs.Ancestry
import FirmwareAudit.Proofs.LogHistory
import FirmwareAudit.Proofs.LogRouting
import FirmwareAudit.Proofs.FlagForms
import FirmwareAudit.Proofs.CommandParts
import FirmwareAudit.Proofs.DigestGrammar
import FirmwareAudit.Proofs.CheckedRun
import FirmwareAudit.Proofs.Diagnostics
import FirmwareAudit.Proofs.Agreement
import FirmwareAudit.Proofs.Lockstep
import FirmwareAudit.Proofs.LogIndependence
import FirmwareAudit.Proofs.Preflight
import FirmwareAudit.Proofs.PreferredDirectory
import FirmwareAudit.Proofs.PathCheck
import FirmwareAudit.Proofs.HelpFirst
import FirmwareAudit.Proofs.DerivedNames
import FirmwareAudit.Proofs.Removals
import FirmwareAudit.Proofs.ShellWords
import FirmwareAudit.Proofs.Transcript

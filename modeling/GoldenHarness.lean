import GoldenHarness.Main
import GoldenHarness.Proofs.CommandLine.Lifecycle
import GoldenHarness.Proofs.CommandLine.Verdict
import GoldenHarness.Proofs.Config.Building
import GoldenHarness.Proofs.Config.Faults
import GoldenHarness.Proofs.Config.Spelling
import GoldenHarness.Proofs.Config.Written
import GoldenHarness.Proofs.Diff.Context
import GoldenHarness.Proofs.Diff.Distinction
import GoldenHarness.Proofs.Diff.Header
import GoldenHarness.Proofs.Diff.Shortest
import GoldenHarness.Proofs.Report.Distinction
import GoldenHarness.Proofs.Run.GoldenFile
import GoldenHarness.Proofs.Run.RoundTrip
import GoldenHarness.Proofs.Run.Sessions
import GoldenHarness.Proofs.Run.Teeing
import GoldenHarness.Proofs.Transient.Desks
import GoldenHarness.Proofs.Transient.Place

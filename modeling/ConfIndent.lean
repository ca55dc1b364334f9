import ConfIndent.Main
import ConfIndent.Service.Respond
import ConfIndent.Proofs.Batch.DryRun
import ConfIndent.Proofs.Batch.Walk
import ConfIndent.Proofs.Batch.Fate
import ConfIndent.Proofs.Batch.Order
import ConfIndent.Proofs.Margin
import ConfIndent.Proofs.Batch.Again
import ConfIndent.Proofs.Digest.Base64
import ConfIndent.Proofs.Text.Display
import ConfIndent.Proofs.Batch.Single
import ConfIndent.Proofs.Service.Agreement
import ConfIndent.Proofs.Text.Shown
import ConfIndent.Proofs.Batch.Directory
import ConfIndent.Proofs.Batch.Interrupted
import ConfIndent.Proofs.Batch.Deed
import ConfIndent.Proofs.Batch.Unforeseen
import ConfIndent.Proofs.Locality
import ConfIndent.Proofs.Lines
import ConfIndent.Proofs.Diff.Longest
import ConfIndent.Proofs.Diff.Replaced
import ConfIndent.Proofs.Diff.Retab
import ConfIndent.Proofs.Diff.Shape
import ConfIndent.Proofs.CommandLine.RoundTrip
import ConfIndent.Proofs.LineEnds
import ConfIndent.Proofs.Report
import ConfIndent.Proofs.Batch.Named
import ConfIndent.Proofs.Batch.Account
import ConfIndent.Proofs.Diff.Distant
import ConfIndent.Proofs.Diff.Unfinished
import ConfIndent.Proofs.Text.Written
import ConfIndent.Proofs.Text.Linewise
import ConfIndent.Proofs.Text.Rendered
import ConfIndent.Proofs.Service.Gate
import ConfIndent.Proofs.Service.Labels
import ConfIndent.Proofs.CommandLine.Roles

import ProForma.Amount.Rational
import ProForma.Forecast
import ProForma.Memo.Program
import ProForma.Proofs.Amount
import ProForma.Proofs.Cadence
import ProForma.Proofs.Calendar.Month
import ProForma.Proofs.Calendar.Span
import ProForma.Proofs.CashChange
import ProForma.Proofs.CashRun
import ProForma.Proofs.Chart.Coverage
import ProForma.Proofs.Chart.Declared
import ProForma.Proofs.Chart.Flows
import ProForma.Proofs.Chart.Meaning
import ProForma.Proofs.Chart.RollForward
import ProForma.Proofs.Chart.Stability
import ProForma.Proofs.Contribution
import ProForma.Proofs.Dependence
import ProForma.Proofs.Extension
import ProForma.Proofs.Forecast
import ProForma.Proofs.Formula.Value
import ProForma.Proofs.Increment
import ProForma.Proofs.Ledger.Canonical
import ProForma.Proofs.Ledger.Postings
import ProForma.Proofs.Leniency
import ProForma.Proofs.Memo.Discipline
import ProForma.Proofs.NextPeriod
import ProForma.Proofs.ParentLoops
import ProForma.Proofs.Plan.Sweep
import ProForma.Proofs.Precedence.Register
import ProForma.Proofs.Preservation
import ProForma.Proofs.Rearrangement
import ProForma.Proofs.Revision.Cells
import ProForma.Proofs.Revision.Removal
import ProForma.Proofs.Scaling
import ProForma.Proofs.Snapshot
import ProForma.Proofs.Spelling
import ProForma.Proofs.Text.Slug
import ProForma.Proofs.Timeline
import ProForma.Proofs.Totals
import ProForma.Proofs.Workbook.Import
import ProForma.Reconciliation
import ProForma.Record.Revision
import ProForma.Record.Workbook

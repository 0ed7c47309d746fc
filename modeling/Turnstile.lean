import Turnstile.Formula
import Turnstile.Formula.Semantics
import Turnstile.Formula.Writing
import Turnstile.Formula.Digest
import Turnstile.Text.Blank
import Turnstile.Text.Visible
import Turnstile.Text.Quoted
import Turnstile.Text.Thousandths
import Turnstile.Token
import Turnstile.Reader
import Turnstile.Problem
import Turnstile.Rule
import Turnstile.Rule.Conclusions
import Turnstile.Tally
import Turnstile.Event
import Turnstile.Fact
import Turnstile.AtomTable
import Turnstile.FactBase
import Turnstile.Session
import Turnstile.Session.Saturation
import Turnstile.Proof
import Turnstile.Session.Goal
import Turnstile.Session.Command
import Turnstile.Json.Token
import Turnstile.Json
import Turnstile.Report
import Turnstile.Prompt
import Turnstile.Folder
import Turnstile.CommandLine
import Turnstile.Main
import Turnstile.Proofs.Alike
import Turnstile.Proofs.Commuting
import Turnstile.Proofs.Inference
import Turnstile.Proofs.Congruence
import Turnstile.Proofs.Rewriting
import Turnstile.Proofs.Store
import Turnstile.Proofs.Search
import Turnstile.Proofs.Run
import Turnstile.Proofs.Simulation
import Turnstile.Proofs.Provenance
import Turnstile.Proofs.Soundness
import Turnstile.Proofs.Models
import Turnstile.Proofs.Consistency
import Turnstile.Proofs.Frontier
import Turnstile.Proofs.Seminaive
import Turnstile.Proofs.Listing
import Turnstile.Proofs.Certificate
import Turnstile.Proofs.Derivation
import Turnstile.Proofs.Deduction
import Turnstile.Proofs.Order
import Turnstile.Proofs.Horn
import Turnstile.Proofs.Relabelling
import Turnstile.Proofs.Limits
import Turnstile.Proofs.Ancestry
import Turnstile.Proofs.Termination
import Turnstile.Proofs.Spelling
import Turnstile.Proofs.Grammar
import Turnstile.Proofs.Catalog
import Turnstile.Proofs.Restatement
import Turnstile.Proofs.RoundTrip
import Turnstile.Proofs.Atoms
import Turnstile.Proofs.Operations
import Turnstile.Proofs.Scanning
import Turnstile.Proofs.RuleOrder
import Turnstile.Proofs.Assumptions
import Turnstile.Proofs.Accounting
import Turnstile.Proofs.Places
import Turnstile.Proofs.Items
import Turnstile.Proofs.Respelling
import Turnstile.Proofs.Diagnosis
import Turnstile.Proofs.Legibility
import Turnstile.Proofs.Transcript
import Turnstile.Proofs.Answers
import Turnstile.Proofs.Envelope
import Turnstile.Proofs.Problems
import Turnstile.Proofs.Shapes

import SafetyLint.Main
import SafetyLint.Proofs.StableOrder
import SafetyLint.Proofs.Confinement
import SafetyLint.Proofs.Preorder
import SafetyLint.Proofs.Stops
import SafetyLint.Tree.Build
import SafetyLint.Proofs.Independence
import SafetyLint.Proofs.Memory
import SafetyLint.Proofs.AccessChains
import SafetyLint.Proofs.FileHeader
import SafetyLint.Proofs.Relaxation
import SafetyLint.Proofs.RelaxedRuns
import SafetyLint.Proofs.OpenScopes
import SafetyLint.Proofs.Parts
import SafetyLint.Proofs.Coverage
import SafetyLint.Proofs.JsonText
import SafetyLint.Proofs.Forms
import SafetyLint.Proofs.TreeForms
import SafetyLint.Proofs.RoundTrip
import SafetyLint.Proofs.Renumbering
import SafetyLint.Proofs.WalkLaws
import SafetyLint.Proofs.LocalWalks
import SafetyLint.Proofs.FileOrder
import SafetyLint.Proofs.NoFailures
import SafetyLint.Proofs.SlotHistory
import SafetyLint.Proofs.Transport
import SafetyLint.Proofs.SideData
import SafetyLint.Proofs.RevisedRules
import SafetyLint.Proofs.InformationFlow
import SafetyLint.Proofs.SharedContext
import SafetyLint.Proofs.Locations
import SafetyLint.Proofs.Severities
import SafetyLint.Proofs.Layouts
import SafetyLint.Proofs.CommentScan
import SafetyLint.Proofs.CodeLines
import SafetyLint.Proofs.LineSpans
import SafetyLint.Proofs.LoopConditions
import SafetyLint.Proofs.FirstUses
import SafetyLint.Proofs.Answers
import SafetyLint.Proofs.AssertionSum
import SafetyLint.Proofs.Ancestors
import SafetyLint.Proofs.Qualifiers
import SafetyLint.Proofs.AllowLists
import SafetyLint.Proofs.EarlyExit
import SafetyLint.Proofs.FailingChecks
import SafetyLint.Proofs.Validation
import SafetyLint.Proofs.NearestConfig

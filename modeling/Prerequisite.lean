import Prerequisite.Cache
import Prerequisite.Main
import Prerequisite.Proofs.Postfix
import Prerequisite.Proofs.Reevaluation
import Prerequisite.Proofs.Tree.Shape
import Prerequisite.Proofs.Tree.Tallies
import Prerequisite.Tree.Equality
import Prerequisite.Tree.Evaluation
import Prerequisite.Proofs.Blockers
import Prerequisite.Proofs.Repair
import Prerequisite.Proofs.Soundness
import Prerequisite.Proofs.Grammar
import Prerequisite.Proofs.Tree.Positive
import Prerequisite.Proofs.Improvement
import Prerequisite.Proofs.Conjuncts
import Prerequisite.Proofs.PlainConjunction
import Prerequisite.Proofs.Passes
import Prerequisite.Proofs.Consolidation
import Prerequisite.Proofs.Cache
import Prerequisite.Proofs.Tree.Alternation
import Prerequisite.Proofs.Formula
import Prerequisite.Proofs.NormalForm
import Prerequisite.Proofs.Tree.Leafwise
import Prerequisite.Proofs.Anonymity
import Prerequisite.Proofs.Decimal
import Prerequisite.Proofs.CriteriaText
import Prerequisite.Proofs.Tree.Agreement
import Prerequisite.Proofs.Tree.Stored
import Prerequisite.Proofs.Shortfalls
import Prerequisite.Proofs.Verdict
import Prerequisite.Proofs.Conjoining
import Prerequisite.Proofs.Tree.Congruence
import Prerequisite.Proofs.Tree.Reassociation
import Prerequisite.Proofs.DoubleNegation
import Prerequisite.Proofs.OperandOrder
import Prerequisite.Proofs.Drawing
import Prerequisite.Proofs.Unambiguity
import Prerequisite.Proofs.CriteriaLines
import Prerequisite.Proofs.ByteOrder
import Prerequisite.Proofs.NamesConfig
import Prerequisite.Proofs.Passages
import Prerequisite.Proofs.Readings
import Prerequisite.Proofs.PassOrder
import Prerequisite.Proofs.Requests
import Prerequisite.Proofs.Json.Text
import Prerequisite.Proofs.Json.Tokens
import Prerequisite.Proofs.Json.Reading
import Prerequisite.Proofs.JsonForm
import Prerequisite.Proofs.Tree.Paths
import Prerequisite.Proofs.Levels

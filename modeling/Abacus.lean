import Abacus.Forest.Lookup
import Abacus.Forest.Outline
import Abacus.Main
import Abacus.Proofs.Numerals
import Abacus.Proofs.Evaluation.Locality
import Abacus.Proofs.Guard
import Abacus.Proofs.Strictness
import Abacus.Proofs.Termination
import Abacus.Proofs.Source.Spelling
import Abacus.Proofs.Source.Grammar
import Abacus.Proofs.Source.Reading
import Abacus.Proofs.Source.Standing
import Abacus.Proofs.Source.Housing
import Abacus.Proofs.Source.Reporting
import Abacus.Proofs.Syntax
import Abacus.Proofs.Reports
import Abacus.Proofs.SyntaxFaults
import Abacus.Proofs.Forms.Depiction
import Abacus.Proofs.Forms.Occurrence
import Abacus.Proofs.Forms.Inlining
import Abacus.Proofs.Forms.Matching
import Abacus.Proofs.Inlining
import Abacus.Proofs.Forms.Mapping
import Abacus.Proofs.Renaming
import Abacus.Proofs.Forest.Chains
import Abacus.Proofs.Evaluation.Assurance
import Abacus.Proofs.Integers
import Abacus.Proofs.Isolation
import Abacus.Proofs.Reevaluation
import Abacus.Proofs.Operands
import Abacus.Proofs.HandBuilt
import Abacus.Proofs.Depth
import Abacus.Proofs.Balance
import Abacus.Proofs.Linkage
import Abacus.Proofs.StrictSwitch
import Abacus.Proofs.Robustness
import Abacus.Proofs.Input
import Abacus.Proofs.Rearrangement
import Abacus.Proofs.Turns
import Abacus.Proofs.Kinds
import Abacus.Proofs.Printing
import Abacus.Proofs.Normalization
import Abacus.Proofs.Powers
import Abacus.Proofs.Quotients

import Propositional.Command.Conversion
import Propositional.Main
import Propositional.Proofs.Evaluation.Joins
import Propositional.Proofs.NormalForm.Meaning
import Propositional.Proofs.Formula.Flatness
import Propositional.Proofs.Formula.Parts
import Propositional.Proofs.NormalForm.Canonical
import Propositional.Proofs.Grammar.Acceptance
import Propositional.Proofs.Lexeme.Tokens
import Propositional.Proofs.Rendering.Cutting
import Propositional.Proofs.Rendering.Spelling
import Propositional.Proofs.Rendering.RoundTrip
import Propositional.Proofs.Rendering.Names
import Propositional.Proofs.Rendering.Nesting
import Propositional.Proofs.Rendering.Rereading
import Propositional.Proofs.Rendering.Parentheses
import Propositional.Proofs.Rendering.NormalForms
import Propositional.Proofs.Evaluation.Occurrences
import Propositional.Proofs.Evaluation.Search
import Propositional.Proofs.Evaluation.Equivalence
import Propositional.Proofs.Evaluation.Unknowns
import Propositional.Proofs.NormalForm.Assembly
import Propositional.Proofs.NormalForm.FixedPoints
import Propositional.Proofs.NormalForm.Distribution
import Propositional.Proofs.NormalForm.Regrouping
import Propositional.Proofs.NormalForm.Units
import Propositional.Proofs.NormalForm.Literals
import Propositional.Proofs.NormalForm.Products
import Propositional.Proofs.NormalForm.Tables
import Propositional.Proofs.Grammar.Faults
import Propositional.Proofs.Lexeme.Coverage
import Propositional.Proofs.Lexeme.Modes
import Propositional.Proofs.Lexeme.Concatenation
import Propositional.Proofs.Command.Requests
import Propositional.Proofs.Command.Batches
import Propositional.Proofs.Command.Decoding
import Propositional.Proofs.Command.Input
import Propositional.Proofs.Command.Reconversion
import Propositional.Proofs.Grammar.Spacing
import Propositional.Proofs.Evaluation.Histories
import Propositional.Proofs.Formula.Combining
import Propositional.Proofs.NormalForm.Negations
import Propositional.Proofs.NormalForm.Recursion
import Propositional.Proofs.Formula.Shrinking

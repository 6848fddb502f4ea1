import BlockScript.Highlight.Paint
import BlockScript.Main
import BlockScript.Proofs.Blame
import BlockScript.Proofs.CallContract
import BlockScript.Proofs.CallLimit
import BlockScript.Proofs.Interference
import BlockScript.Proofs.Isolation
import BlockScript.Proofs.Reuse
import BlockScript.Proofs.Termination
import BlockScript.Proofs.Tokens.Agreement
import BlockScript.Proofs.Writing
import BlockScript.Tree.Outline
import BlockScript.Proofs.Assignment
import BlockScript.Proofs.Grouping
import BlockScript.Proofs.Parentheses
import BlockScript.Proofs.Decimals
import BlockScript.Proofs.Promises
import BlockScript.Proofs.ErrorSpans
import BlockScript.Proofs.LateFaults
import BlockScript.Proofs.PrintedLiterals
import BlockScript.Proofs.TableLines
import BlockScript.Proofs.Tokens.Painting
import BlockScript.Proofs.ActiveCalls
import BlockScript.Proofs.FloatOrder
import BlockScript.Proofs.Promotion
import BlockScript.Proofs.WholeArithmetic
import BlockScript.Proofs.Comparison
import BlockScript.Proofs.ByteScan

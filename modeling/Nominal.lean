import Nominal.Position
import Nominal.Operator
import Nominal.Signature
import Nominal.Literal
import Nominal.Syntax
import Nominal.Error
import Nominal.Text.WhiteSpace
import Nominal.Decimal.FloatText
import Nominal.Lexer
import Nominal.Arithmetic.Operators
import Nominal.Check
import Nominal.Execution.Bound
import Nominal.Prelude
import Nominal.Session
import Nominal.Proofs.Frame
import Nominal.Proofs.Agreement
import Nominal.Proofs.Rendering
import Nominal.Proofs.Repetition
import Nominal.Proofs.AfterCheck
import Nominal.Proofs.Blindness
import Nominal.Proofs.Meaning
import Nominal.Proofs.Declared
import Nominal.Proofs.Partition
import Nominal.Proofs.Owners
import Nominal.Proofs.History
import Nominal.Proofs.Faults
import Nominal.Proofs.Joining
import Nominal.Proofs.StringBodies
import Nominal.Proofs.Attributes
import Nominal.Proofs.Namesakes
import Nominal.Proofs.Receivers
import Nominal.Proofs.Division
import Nominal.Proofs.Loops
import Nominal.Proofs.Returns
import Nominal.Proofs.Chains
import Nominal.Proofs.Operations
import Nominal.Proofs.Shifts
import Nominal.Proofs.Numerals
import Nominal.Proofs.Columns
import Nominal.Proofs.NumberRuns
import Nominal.Proofs.Keys

import Calculator.Numeral
import Calculator.Session
import Calculator.Detail
import Calculator.Main
import Calculator.Language.Grammar
import Calculator.Proofs.Flattening
import Calculator.Proofs.Derivation
import Calculator.Proofs.Spelling
import Calculator.Proofs.Value
import Calculator.Proofs.Outcome
import Calculator.Proofs.Slicing
import Calculator.Proofs.ArithmeticFault
import Calculator.Proofs.SyntaxFault
import Calculator.Proofs.Unambiguous
import Calculator.Proofs.Listing
import Calculator.Proofs.Replay
import Calculator.Proofs.FirstFault
import Calculator.Proofs.Insertion
import Calculator.Proofs.Midway
import Calculator.Proofs.Descent
import Calculator.Proofs.Safety
import Calculator.Proofs.FirstLine
import Calculator.Proofs.Nesting
import Calculator.Proofs.Concatenation
import Calculator.Proofs.NeutralSigns
import Calculator.Proofs.Composition
import Calculator.Proofs.Log
import Calculator.Proofs.Operands
import Calculator.Proofs.OneAhead
import Calculator.Proofs.Records
import Calculator.Proofs.TokenTable
import Calculator.Proofs.ReadBack
import Calculator.Proofs.Messages
import Calculator.Proofs.OwnText
import Calculator.Proofs.Progress

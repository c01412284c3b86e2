import ShiftReduce.Calculator.Postfix
import ShiftReduce.Datum
import ShiftReduce.Main
import ShiftReduce.SExpression.Grammar
import ShiftReduce.Arithmetic.Grammar
import ShiftReduce.Table.Check
import ShiftReduce.Table.Document
import ShiftReduce.Proofs.MachineRun
import ShiftReduce.Proofs.Arithmetic
import ShiftReduce.Proofs.SExpression
import ShiftReduce.Proofs.Calculator
import ShiftReduce.Proofs.EndOfInput
import ShiftReduce.Proofs.Conduct
import ShiftReduce.Proofs.SyntaxErrors
import ShiftReduce.Proofs.CommonLanguage
import ShiftReduce.Proofs.Stages
import ShiftReduce.Proofs.Transitions
import ShiftReduce.Proofs.Reading
import ShiftReduce.Proofs.Parametricity
import ShiftReduce.Proofs.ExactValue
import ShiftReduce.Proofs.TableCheck
import ShiftReduce.Proofs.Diagnosis
import ShiftReduce.Proofs.Answers
import ShiftReduce.Proofs.DepthLimit
import ShiftReduce.Proofs.GrammarDefinition
import ShiftReduce.Proofs.Layout
import ShiftReduce.Proofs.Rendering
import ShiftReduce.Proofs.Extension
import ShiftReduce.Proofs.SavedTable
import ShiftReduce.Proofs.Lines
import ShiftReduce.Proofs.Blame
import ShiftReduce.Proofs.Settings
import ShiftReduce.Proofs.Listing
import ShiftReduce.Proofs.Logging
import ShiftReduce.Proofs.TreeText

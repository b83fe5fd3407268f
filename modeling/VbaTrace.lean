import VbaTrace.Engine.Lines
import VbaTrace.Engine.Scan
import VbaTrace.Engine.Session
import VbaTrace.Loggers
import VbaTrace.Main
import VbaTrace.Proofs.Blocks
import VbaTrace.Proofs.CallStatements
import VbaTrace.Proofs.Retries
import VbaTrace.Proofs.Stripping
import VbaTrace.Proofs.TextOperands
import VbaTrace.Proofs.Sums
import VbaTrace.Proofs.Grouping
import VbaTrace.Proofs.CharacterChains
import VbaTrace.Proofs.Variables
import VbaTrace.Proofs.CharacterLoops
import VbaTrace.Proofs.EntryPoints
import VbaTrace.Proofs.ConditionValues
import VbaTrace.Proofs.CountingLoops
import VbaTrace.Proofs.DroppedFiles
import VbaTrace.Proofs.ModuleVariables
import VbaTrace.Proofs.ProcedureExits
import VbaTrace.Proofs.HiddenFailures
import VbaTrace.Proofs.OwnCalls
import VbaTrace.Proofs.GluedNames
import VbaTrace.Proofs.Continuations
import VbaTrace.Proofs.UnusedAssignments
import VbaTrace.Proofs.ModuleLines
import VbaTrace.Proofs.IndirectCalls
import VbaTrace.Proofs.QuotedTexts
import VbaTrace.Proofs.Conversions
import VbaTrace.Proofs.NearestNumbers
import VbaTrace.Proofs.FloatLiterals
import VbaTrace.Proofs.Occurrences
import VbaTrace.Proofs.ByteArrays
import VbaTrace.Proofs.ElementWrites
import VbaTrace.Proofs.MixedSums
import VbaTrace.Proofs.Bits
import VbaTrace.Proofs.IntegerOperations
import VbaTrace.Proofs.Numerals
import VbaTrace.Proofs.FloatRange
import VbaTrace.Proofs.IntegerFaults
import VbaTrace.Proofs.ReservedWords
import VbaTrace.Proofs.FailedClosings

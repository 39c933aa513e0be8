import QueryCompiler.Main
import QueryCompiler.Proofs.CacheCoherence
import QueryCompiler.Proofs.ConstantFolding
import QueryCompiler.Proofs.DataIndependence
import QueryCompiler.Proofs.DeleteGuard
import QueryCompiler.Proofs.DialectAgreement
import QueryCompiler.Proofs.Outline
import QueryCompiler.Proofs.Parenthesization
import QueryCompiler.Proofs.PlaceholderAgreement
import QueryCompiler.Proofs.PlaceholderCapture
import QueryCompiler.Proofs.SealedSql
import QueryCompiler.Proofs.SingleExecution
import QueryCompiler.Query.Meta
import QueryCompiler.Proofs.BuildFaults
import QueryCompiler.Proofs.FailingReads
import QueryCompiler.Proofs.DocumentData
import QueryCompiler.Proofs.TableNames
import QueryCompiler.Proofs.TableReferences
import QueryCompiler.Proofs.WildcardColumns
import QueryCompiler.Proofs.SelectionRows
import QueryCompiler.Proofs.CountedQuery
import QueryCompiler.Proofs.CountedRows
import QueryCompiler.Proofs.RangeGrammar
import QueryCompiler.Proofs.RangeText
import QueryCompiler.Proofs.RangeReading
import QueryCompiler.Proofs.PreparedText
import QueryCompiler.Proofs.VerbatimText
import QueryCompiler.Proofs.ParameterConflicts
import QueryCompiler.Proofs.PositionalAgreement
import QueryCompiler.Proofs.LiteralReading
import QueryCompiler.Proofs.IdentifierReading
import QueryCompiler.Proofs.InvalidOperators
import QueryCompiler.Proofs.GeneratedNames
import QueryCompiler.Proofs.AppendedConditions
import QueryCompiler.Proofs.InsertedRows
import QueryCompiler.Proofs.JoinTypeGrammar
import QueryCompiler.Proofs.FieldShapes
import QueryCompiler.Proofs.TokenGrammar
import QueryCompiler.Proofs.TokenSplitting
import QueryCompiler.Proofs.RowObject
import QueryCompiler.Proofs.ContextRank
import QueryCompiler.Proofs.ConnectionDialect
import QueryCompiler.Proofs.EnclosedText

import ProvCpl.EarlyExit
import ProvCpl.OrderedMap
import ProvCpl.ProgramLog
import ProvCpl.TwoRuns
import ProvCpl.CheckedProgram
import ProvCpl.ImportSimulation
import ProvCpl.EventTrace
import ProvCpl.CplTypes
import ProvCpl.QualifiedName
import ProvCpl.FloatText
import ProvCpl.JsonValue
import ProvCpl.ProvStore
import ProvCpl.ProvServer
import ProvCpl.ServerSpecs
import ProvCpl.ImportDocument
import ProvCpl.ImportFrame
import ProvCpl.ImportLog
import ProvCpl.ImportReports
import ProvCpl.VertexNumbering
import ProvCpl.ValidateDocument
import ProvCpl.ImportAccepts
import ProvCpl.RecordProperties
import ProvCpl.ImportGraph
import ProvCpl.ImportChecks
import ProvCpl.EscapingExceptions
import ProvCpl.ExportDocument
import ProvCpl.ExportShape
import ProvCpl.RoundTrip
import ProvCpl.BundleMembers
import ProvCpl.Reimport
import ProvCpl.ExportedGraph
import ProvCpl.BundleTransfer
import ProvCpl.EndpointTypes
import ProvCpl.ImportedObjects
import ProvCpl.ImportCalls
import ProvCpl.BundleLinks
import ProvCpl.AnchorLinks
import ProvCpl.Anchors
import ProvCpl.ExternRecords
import ProvCpl.ExternObjects
import ProvCpl.ExportEntries
import ProvCpl.ExportNames
import ProvCpl.ExportProperties
import ProvCpl.ExportTable
import ProvCpl.MergeOrder
import ProvCpl.ExportAgreement
import ProvCpl.ExportUnion
import ProvCpl.InsertOnce
import ProvCpl.WriteOnce
import ProvCpl.PropertyWrites
import ProvCpl.ObjectQueries
import ProvCpl.ConcurrentInserts
import ProvCpl.AttachDetach
import ProvCpl.ArgumentChecks
import ProvCpl.ObjectRelations
import ProvCpl.ImmediateAncestor
import ProvCpl.BundleContents
import ProvCpl.StatementPool
import ProvCpl.LookupOrCreate
import ProvCpl.OdbcOperation
import ProvCpl.RetriedUpdate
import ProvCpl.Reconnect
import ProvCpl.NameTokens
import ProvCpl.SqlSelect
import ProvCpl.LikePattern
import ProvCpl.SqlStatements
import ProvCpl.SqlInserts
import ProvCpl.PreparedQueries
import ProvCpl.BackendQueries
import ProvCpl.PropertyFilters
import ProvCpl.PrefixLookup
import ProvCpl.StoreHistory
import ProvCpl.ApiEffects
import ProvCpl.StoreKnowledge
import ProvCpl.AnnotationOrder
import ProvCpl.StableReports
import ProvCpl.ExportFrame
import ProvCpl.ImportIsolation
import ProvCpl.WildcardLookup
import ProvCpl.BackendInserts
import ProvCpl.ColumnLimits
import ProvCpl.RelationLookup
import ProvCpl.IdParameters
import ProvCpl.InfoTokens
import ProvCpl.FloatRounding
import ProvCpl.DecimalText
import ProvCpl.NumericalProperties
import ProvCpl.ImportedIntegers
import ProvCpl.Custody
import ProvCpl.OperationPaths
import ProvCpl.StatementReturn
import ProvCpl.DoWhile
import ProvCpl.DiagnosticRecords
import ProvCpl.TakingTurns
import ProvCpl.ClientPrograms
import ProvCpl.SharedDatabase
import ProvCpl.ConcurrentClients
import ProvCpl.InterleavedImports
import ProvCpl.LifetimeRuns

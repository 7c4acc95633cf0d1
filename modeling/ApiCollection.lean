import ApiCollection.Main
import ApiCollection.Schema.Reading
import ApiCollection.Proofs.TableEntries
import ApiCollection.Proofs.PathOrder
import ApiCollection.Proofs.Harvest
import ApiCollection.Proofs.Scheduling
import ApiCollection.Proofs.CollectionTree
import ApiCollection.Proofs.RequestOrder
import ApiCollection.Proofs.DisplayName
import ApiCollection.Proofs.EnhancedRequest
import ApiCollection.Proofs.Enhancement
import ApiCollection.Proofs.PrintedOperation
import ApiCollection.Proofs.DocumentOperations
import ApiCollection.Proofs.ConvertedApi
import ApiCollection.Proofs.CandidateSweep
import ApiCollection.Proofs.MemberLayout
import ApiCollection.Proofs.MemberHeads
import ApiCollection.Proofs.Calls
import ApiCollection.Proofs.Signatures
import ApiCollection.Proofs.MethodSweep
import ApiCollection.Proofs.DeclaredMethods
import ApiCollection.Proofs.DirectiveBlock
import ApiCollection.Proofs.Attribution
import ApiCollection.Proofs.DrawnEndpoint
import ApiCollection.Proofs.ComponentClosure
import ApiCollection.Proofs.GatheredApi
import ApiCollection.Proofs.DocumentPointers
import ApiCollection.Proofs.EnhancementFrame
import ApiCollection.Proofs.FinishedCollection
import ApiCollection.Proofs.PathTemplates
import ApiCollection.Proofs.TemplateRequests
import ApiCollection.Proofs.Identifiers
import ApiCollection.Proofs.ConvertedFolders
import ApiCollection.Proofs.DocumentAccounts
import ApiCollection.Proofs.ExampleShapes
import ApiCollection.Proofs.BlankExamples
import ApiCollection.Proofs.WrittenFile
import ApiCollection.Proofs.JoinedPaths
import ApiCollection.Proofs.FileTree
import ApiCollection.Proofs.ModelPlaces
import ApiCollection.Proofs.Relocation
import ApiCollection.Proofs.ReplacedValues
import ApiCollection.Proofs.UsedValues
import ApiCollection.Proofs.TransparentReferences
import ApiCollection.Proofs.ReferredCollections
import ApiCollection.Proofs.SettledValues
import ApiCollection.Proofs.CollectionReading
import ApiCollection.Proofs.CollectionRoundTrip
import ApiCollection.Proofs.ParenStates
import ApiCollection.Proofs.OneLine
import ApiCollection.Proofs.DirectiveLines
import ApiCollection.Proofs.CollectedDirectives
import ApiCollection.Proofs.KeywordReading
import ApiCollection.Proofs.TypeHeader
import ApiCollection.Proofs.DeclaredName
import ApiCollection.Proofs.TopLevelPieces
import ApiCollection.Proofs.RecordComponents
import ApiCollection.Proofs.DeclaredFields
import ApiCollection.Proofs.RecordFields
import ApiCollection.Proofs.RecordRecovery
import ApiCollection.Proofs.ReachableComponents
import ApiCollection.Proofs.WrittenTypes
import ApiCollection.Proofs.QuotedReading
import ApiCollection.Proofs.WrittenBindings
import ApiCollection.Proofs.BoundParameters
import ApiCollection.Proofs.ExpandedModels
import ApiCollection.Proofs.ListAnswers
import ApiCollection.Proofs.ModelExamples
import ApiCollection.Proofs.ModelNames
import ApiCollection.Proofs.AnsweredModels
import ApiCollection.Proofs.SegmentVariables
import ApiCollection.Proofs.DistinctHeaders
import ApiCollection.Proofs.SchemaConformance
import ApiCollection.Proofs.ConformingSamples
import ApiCollection.Proofs.PathFilters
import ApiCollection.Proofs.StableOrder
import ApiCollection.Proofs.AttributeLists
import ApiCollection.Proofs.ParameterTypes
import ApiCollection.Proofs.WrittenParameters
import ApiCollection.Proofs.GlobLanguage
import ApiCollection.Proofs.DirectiveLists
import ApiCollection.Proofs.ControllerScan
import ApiCollection.Proofs.FieldDeclarations
import ApiCollection.Proofs.FieldSweep
import ApiCollection.Proofs.RecordSearch
import ApiCollection.Proofs.FieldRecovery
import ApiCollection.Proofs.LosslessCuts
import ApiCollection.Proofs.OverriddenParameters
import ApiCollection.Proofs.CachedModels
import ApiCollection.Proofs.EndpointPaths
import ApiCollection.Proofs.ByteOffsets
import ApiCollection.Proofs.ClosingParens
import ApiCollection.Proofs.DirectiveSpans
import ApiCollection.Proofs.ByteScan

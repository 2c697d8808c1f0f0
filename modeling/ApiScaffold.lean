import ApiScaffold.Main
import ApiScaffold.Proofs.Findings
import ApiScaffold.Proofs.NameCharacters
import ApiScaffold.Proofs.Rendering
import ApiScaffold.Proofs.Collisions
import ApiScaffold.Proofs.Walks
import ApiScaffold.Proofs.Storing
import ApiScaffold.Proofs.StubLookups
import ApiScaffold.Proofs.Refinement
import ApiScaffold.Proofs.EntityLookup
import ApiScaffold.Proofs.RelatedData
import ApiScaffold.Proofs.ServedModels
import ApiScaffold.Proofs.Containment
import ApiScaffold.Proofs.RemovedFiles
import ApiScaffold.Proofs.DraftErrors
import ApiScaffold.Proofs.AtomicEmission
import ApiScaffold.Proofs.DryRuns
import ApiScaffold.Proofs.GeneratedNames
import ApiScaffold.Proofs.AttributeReading
import ApiScaffold.Proofs.TemplateTokens
import ApiScaffold.Proofs.ImportClaims
import ApiScaffold.Proofs.EmitterSessions
import ApiScaffold.Proofs.JobOrder
import ApiScaffold.Proofs.DraftOrder
import ApiScaffold.Proofs.Interchangeable
import ApiScaffold.Proofs.ShortNames
import ApiScaffold.Proofs.LayeredSettings
import ApiScaffold.Proofs.ModesAgree
import ApiScaffold.Proofs.DeclaredRelationships
import ApiScaffold.Proofs.ConfiguredEnums
import ApiScaffold.Proofs.RepeatedControllers
import ApiScaffold.Proofs.EntityReferences
import ApiScaffold.Proofs.RememberedStubs
import ApiScaffold.Proofs.AssignedSettings
import ApiScaffold.Proofs.ShorthandOrder
import ApiScaffold.Proofs.DocumentedColumns
import ApiScaffold.Proofs.AllowedFilters
import ApiScaffold.Proofs.SortedColumns
import ApiScaffold.Proofs.IncludedNames
import ApiScaffold.Proofs.ExampleLiterals
import ApiScaffold.Proofs.NameGrammars
import ApiScaffold.Proofs.RecognisedNames
import ApiScaffold.Proofs.DeclaredMethods
import ApiScaffold.Proofs.NestedNamespaces
import ApiScaffold.Proofs.SnakeNames
import ApiScaffold.Proofs.ScannedWords
import ApiScaffold.Proofs.RestoredSingulars
import ApiScaffold.Proofs.SettledForms
import ApiScaffold.Proofs.BareKeywords
import ApiScaffold.Proofs.CalendarDays
import ApiScaffold.Proofs.Timestamps

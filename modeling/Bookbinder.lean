import Bookbinder.Address
import Bookbinder.Book.Archive
import Bookbinder.Book.BackMatter
import Bookbinder.Book.Binding
import Bookbinder.Book.Body
import Bookbinder.Book.BugReport
import Bookbinder.Book.Draft
import Bookbinder.Book.FrontMatter
import Bookbinder.Book.ImageName
import Bookbinder.Book.Images
import Bookbinder.Book.Layout
import Bookbinder.Book.Manuscript
import Bookbinder.Book.PublicanConfig
import Bookbinder.Book.References
import Bookbinder.Calendar.Date
import Bookbinder.Calendar.Instant
import Bookbinder.ContentSpec
import Bookbinder.DocBook
import Bookbinder.Dtd
import Bookbinder.IdLedger
import Bookbinder.Injection.Link
import Bookbinder.Injection.Marker
import Bookbinder.Injection.OutlineLinks
import Bookbinder.Injection.Policy
import Bookbinder.Injection.RelatedList
import Bookbinder.Injection.Substitution
import Bookbinder.Interruption
import Bookbinder.Numeral
import Bookbinder.Outline
import Bookbinder.Press
import Bookbinder.ProblemLog
import Bookbinder.Proofs.AddressAttempts
import Bookbinder.Proofs.AlikeRuns
import Bookbinder.Proofs.BackMatterPages
import Bookbinder.Proofs.BookFiles
import Bookbinder.Proofs.BookIds
import Bookbinder.Proofs.BugLinks
import Bookbinder.Proofs.BuildFailures
import Bookbinder.Proofs.BuiltElements
import Bookbinder.Proofs.CancelledBuilds
import Bookbinder.Proofs.CdataSections
import Bookbinder.Proofs.CollatedRemarks
import Bookbinder.Proofs.CollectedImages
import Bookbinder.Proofs.CompletedTranslations
import Bookbinder.Proofs.ContainedPaths
import Bookbinder.Proofs.CrossReferences
import Bookbinder.Proofs.DistinctPaths
import Bookbinder.Proofs.DoctypeEnds
import Bookbinder.Proofs.DocumentVerdicts
import Bookbinder.Proofs.DraftStages
import Bookbinder.Proofs.DraftSteps
import Bookbinder.Proofs.DtdReading
import Bookbinder.Proofs.DtdTexts
import Bookbinder.Proofs.DtdTokens
import Bookbinder.Proofs.ElementContent
import Bookbinder.Proofs.EntityDeclarations
import Bookbinder.Proofs.FetchedTopics
import Bookbinder.Proofs.FilePaths
import Bookbinder.Proofs.FiledRelations
import Bookbinder.Proofs.FilledContainers
import Bookbinder.Proofs.FinishedBuilds
import Bookbinder.Proofs.FinishedRuns
import Bookbinder.Proofs.FreeAddresses
import Bookbinder.Proofs.FreshIds
import Bookbinder.Proofs.GeneratedLinks
import Bookbinder.Proofs.GrantedAddresses
import Bookbinder.Proofs.ImageLookups
import Bookbinder.Proofs.ImagePlaces
import Bookbinder.Proofs.InjectedLinks
import Bookbinder.Proofs.InjectedTexts
import Bookbinder.Proofs.KeptAddresses
import Bookbinder.Proofs.KeptLinks
import Bookbinder.Proofs.LatestItems
import Bookbinder.Proofs.LedgerRuns
import Bookbinder.Proofs.LinkIds
import Bookbinder.Proofs.LinkMarkers
import Bookbinder.Proofs.LinkSources
import Bookbinder.Proofs.LinkView
import Bookbinder.Proofs.MarkerGrammar
import Bookbinder.Proofs.MirroredOutlines
import Bookbinder.Proofs.NameSearches
import Bookbinder.Proofs.NamedTargets
import Bookbinder.Proofs.NestedReferences
import Bookbinder.Proofs.NumberedNames
import Bookbinder.Proofs.NumeralReading
import Bookbinder.Proofs.OutlineFiles
import Bookbinder.Proofs.OutlinePages
import Bookbinder.Proofs.PlaceholderOrigins
import Bookbinder.Proofs.PlaceholderRuns
import Bookbinder.Proofs.Placeholders
import Bookbinder.Proofs.PlainDocuments
import Bookbinder.Proofs.Preambles
import Bookbinder.Proofs.PreparedBooks
import Bookbinder.Proofs.PressRuns
import Bookbinder.Proofs.ProblemChapters
import Bookbinder.Proofs.PublishedDocuments
import Bookbinder.Proofs.PublisherConfigs
import Bookbinder.Proofs.ReadOnlyRuns
import Bookbinder.Proofs.ReadTopics
import Bookbinder.Proofs.ReadableTopics
import Bookbinder.Proofs.RegisteredOutlines
import Bookbinder.Proofs.Registration
import Bookbinder.Proofs.RenamedIds
import Bookbinder.Proofs.RepeatedBuilds
import Bookbinder.Proofs.ReplacedComments
import Bookbinder.Proofs.ReportHistories
import Bookbinder.Proofs.ReportedProblems
import Bookbinder.Proofs.SectionIds
import Bookbinder.Proofs.SettledReferences
import Bookbinder.Proofs.SortedTitles
import Bookbinder.Proofs.SpecListings
import Bookbinder.Proofs.StandIns
import Bookbinder.Proofs.SubstitutedMarkers
import Bookbinder.Proofs.TitleSlugs
import Bookbinder.Proofs.TitledPages
import Bookbinder.Proofs.TitledSections
import Bookbinder.Proofs.TopicFiles
import Bookbinder.Proofs.TopicPages
import Bookbinder.Proofs.TranslationOrder
import Bookbinder.Proofs.TrimmedText
import Bookbinder.Proofs.UnstableLinkIds
import Bookbinder.Proofs.UpdateBatches
import Bookbinder.Proofs.WatchedStores
import Bookbinder.Proofs.WordedMessages
import Bookbinder.Proofs.WorkedReferences
import Bookbinder.Proofs.XmlExtents
import Bookbinder.Proofs.XmlFragments
import Bookbinder.Proofs.XmlNesting
import Bookbinder.Proofs.XmlRereading
import Bookbinder.Proofs.XmlRestoring
import Bookbinder.Proofs.XmlRoundTrip
import Bookbinder.Proofs.XmlSound
import Bookbinder.Proofs.XmlTags
import Bookbinder.Proofs.XmlTrees
import Bookbinder.Proofs.XmlWriting
import Bookbinder.Registry
import Bookbinder.Settings
import Bookbinder.Slug
import Bookbinder.Store
import Bookbinder.Store.Memory
import Bookbinder.Store.Sample
import Bookbinder.Template.Pages
import Bookbinder.Template.Value
import Bookbinder.Text.Blank
import Bookbinder.Text.Decimal
import Bookbinder.Text.Escape
import Bookbinder.Text.Find
import Bookbinder.Text.Hex
import Bookbinder.Text.Percent
import Bookbinder.Text.Replacement
import Bookbinder.Text.Unseen
import Bookbinder.Text.Utf8
import Bookbinder.Toml.Document
import Bookbinder.Toml.Scalar
import Bookbinder.Toml.Stamp
import Bookbinder.Toml.Value
import Bookbinder.Topic
import Bookbinder.Translation
import Bookbinder.Xml.CharacterData
import Bookbinder.Xml.Doctype
import Bookbinder.Xml.Document
import Bookbinder.Xml.Error
import Bookbinder.Xml.Markup
import Bookbinder.Xml.Node
import Bookbinder.Xml.Tag

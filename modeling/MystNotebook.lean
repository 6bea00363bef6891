import MystNotebook.Json.Reader
import MystNotebook.Json.Printer
import MystNotebook.Text.Line
import MystNotebook.Text.Uppercase
import MystNotebook.Text.Quoted
import MystNotebook.Document.Walk
import MystNotebook.Document.Decode
import MystNotebook.Document.Encode
import MystNotebook.Markdown.Write
import MystNotebook.CommonMark.Degrade
import MystNotebook.CodeCell.Lift
import MystNotebook.Notebook.Assemble
import MystNotebook.Project.Export
import MystNotebook.Project.MediaType
import MystNotebook.Storage.Disk
import MystNotebook.Main
import MystNotebook.Proofs.LiftedUnits
import MystNotebook.Proofs.NormalForm
import MystNotebook.Proofs.BlockBreaks
import MystNotebook.Proofs.UnitCells
import MystNotebook.Proofs.DroppedSolutions
import MystNotebook.Proofs.ReachableCode
import MystNotebook.Proofs.ConsistentNaming
import MystNotebook.Proofs.SmallestNames
import MystNotebook.Proofs.InsertionOrder
import MystNotebook.Proofs.RepeatedLifting
import MystNotebook.Proofs.WrittenImages
import MystNotebook.Proofs.AttributeRoundTrip
import MystNotebook.Proofs.NodeRoundTrip
import MystNotebook.Proofs.AttachedCells
import MystNotebook.Proofs.RepeatedDegrading
import MystNotebook.Proofs.CharacterRuns
import MystNotebook.Proofs.NodeTexts
import MystNotebook.Proofs.LaidOutRuns
import MystNotebook.Proofs.GrowingDrafts
import MystNotebook.Proofs.WrittenRuns
import MystNotebook.Proofs.DirectiveFences
import MystNotebook.Proofs.LineStarts
import MystNotebook.Proofs.InnerBlocks
import MystNotebook.Proofs.UnitTexts
import MystNotebook.Proofs.BreakCells
import MystNotebook.Proofs.PhrasingText
import MystNotebook.Proofs.UnmodelledPhrasing
import MystNotebook.Proofs.QuotedReferences
import MystNotebook.Proofs.LaidOutWords
import MystNotebook.Proofs.ShownLeaves
import MystNotebook.Proofs.WrittenLeaves
import MystNotebook.Proofs.KeptProse
import MystNotebook.Proofs.LenientReading
import MystNotebook.Proofs.WellFormedCells
import MystNotebook.Proofs.BareDocuments
import MystNotebook.Proofs.BareNotebooks
import MystNotebook.Proofs.EmbeddedRuns
import MystNotebook.Proofs.FencelessCells
import MystNotebook.Proofs.FencedCode
import MystNotebook.Proofs.LiftedAnchors
import MystNotebook.Proofs.UnchangedDocuments
import MystNotebook.Proofs.PathNames
import MystNotebook.Proofs.DiskPlaces
import MystNotebook.Proofs.DiskChanges
import MystNotebook.Proofs.PageSteps
import MystNotebook.Proofs.CollectedPages
import MystNotebook.Proofs.BatchOutputs
import MystNotebook.Proofs.BatchExport
import MystNotebook.Proofs.CompleteBatches
import MystNotebook.Proofs.FencedDirectives
import MystNotebook.Proofs.RawDirectives
import MystNotebook.Proofs.CodeSpans
import MystNotebook.Proofs.TightItems
import MystNotebook.Proofs.HeadingLines
import MystNotebook.Proofs.FigureCaptions
import MystNotebook.Proofs.RectangularTables
import MystNotebook.Proofs.EmptyEmphasis
import MystNotebook.Proofs.CollectedImages
import MystNotebook.Proofs.ImagePaths
import MystNotebook.Proofs.OutputNames
import MystNotebook.Proofs.ImageEscapes
import MystNotebook.Proofs.LateTitles
import MystNotebook.Proofs.AlikeDrafts
import MystNotebook.Proofs.LeadingBreaks
import MystNotebook.Proofs.RefusedUnits
import MystNotebook.Proofs.SteadyQuotes

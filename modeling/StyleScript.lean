-- SUMMARY: The whole library.
import StyleScript.Builtin.Standard
import StyleScript.Workspace
import StyleScript.Proofs.Blending
import StyleScript.Proofs.BoundedRuns
import StyleScript.Proofs.CallSites
import StyleScript.Proofs.ChannelArguments
import StyleScript.Proofs.Closures
import StyleScript.Proofs.Comparisons
import StyleScript.Proofs.Defaults
import StyleScript.Proofs.FactorOrder
import StyleScript.Proofs.Failures
import StyleScript.Proofs.FormattedNumbers
import StyleScript.Proofs.Histories
import StyleScript.Proofs.HslEdits
import StyleScript.Proofs.Isolation
import StyleScript.Proofs.JoinedLists
import StyleScript.Proofs.Lexical
import StyleScript.Proofs.Limit
import StyleScript.Proofs.Locations
import StyleScript.Proofs.Passing
import StyleScript.Proofs.Provenance
import StyleScript.Proofs.Registers
import StyleScript.Proofs.Rendering
import StyleScript.Proofs.ReplacedComponents
import StyleScript.Proofs.Respelling
import StyleScript.Proofs.Spelling
import StyleScript.Proofs.Sums
import StyleScript.Proofs.TokenLayout
import StyleScript.Proofs.UnitTexts
import StyleScript.Proofs.CompactedLists
import StyleScript.Proofs.WholeDoubles
import StyleScript.Proofs.ListPositions
import StyleScript.Proofs.RenderedNumbers

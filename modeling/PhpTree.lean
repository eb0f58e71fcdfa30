import PhpTree.Bag.Lemmas
import PhpTree.Dump
import PhpTree.Name.Input
import PhpTree.Name.Slice
import PhpTree.Node.DocComment
import PhpTree.Node.Equality
import PhpTree.Node.Lawful
import PhpTree.Node.Path
import PhpTree.Traversal
import PhpTree.Value.Edit
import PhpTree.Proofs.Name.Slice
import PhpTree.Proofs.Name.Concat
import PhpTree.Proofs.Json.Grammar
import PhpTree.Proofs.Json.Denotation
import PhpTree.Proofs.Json.ReaderCorrect
import PhpTree.Proofs.Json.Tight
import PhpTree.Proofs.Bag.OfList
import PhpTree.Proofs.Text.Utf8Order
import PhpTree.Proofs.Json.MemberOrder
import PhpTree.Proofs.Decimal.Numerals
import PhpTree.Proofs.Decimal.Value
import PhpTree.Proofs.Decimal.Rounding
import PhpTree.Proofs.Decimal.Notation
import PhpTree.Proofs.Dump.WellFormed
import PhpTree.Proofs.Dump.Texts
import PhpTree.Proofs.Dump.Lossless
import PhpTree.Proofs.Bag.Runs
import PhpTree.Proofs.Traversal.Labels
import PhpTree.Proofs.Name.Cutting
import PhpTree.Proofs.Name.Ranges
import PhpTree.Proofs.Bag.Histories
import PhpTree.Proofs.Name.WellFormed
import PhpTree.Proofs.Node.AttributeRuns
import PhpTree.Proofs.Name.WordSlice
import PhpTree.Proofs.Name.Nesting
import PhpTree.Proofs.Node.DocComment
import PhpTree.Proofs.Name.Lowercase
import PhpTree.Proofs.Name.Code
import PhpTree.Proofs.Name.LooseValues
import PhpTree.Proofs.Dump.NodeObjects
import PhpTree.Proofs.Text.AsciiCase
import PhpTree.Proofs.Name.SpecialClasses
import PhpTree.Proofs.Node.Positions
import PhpTree.Proofs.Log.Calls
import PhpTree.Proofs.Node.Equality
import PhpTree.Proofs.Dump.Contents

import FullText.Cursor.Call
import FullText.Json.Reader
import FullText.Main
import FullText.Proofs.Closing
import FullText.Proofs.ExcludedGroups
import FullText.Proofs.Faultless
import FullText.Proofs.FixedPoint
import FullText.Proofs.FlatQuery
import FullText.Proofs.Histories
import FullText.Proofs.Near
import FullText.Proofs.Negation
import FullText.Proofs.Omission
import FullText.Proofs.Parentheses
import FullText.Proofs.PlainRecursion
import FullText.Proofs.Truth
import FullText.Query.Token
import FullText.Search.Token
import FullText.Tree.Fields
import FullText.Tree.Plain
import FullText.Proofs.Folding
import FullText.Proofs.JsonText
import FullText.Proofs.OrdinarySets
import FullText.Proofs.WellFormed
import FullText.Proofs.Exported
import FullText.Proofs.Outcomes
import FullText.Proofs.DoubledQuotes
import FullText.Proofs.MatchingMark
import FullText.Proofs.SuppliedWords
import FullText.Proofs.QueryLines
import FullText.Proofs.Calls
import FullText.Proofs.Making

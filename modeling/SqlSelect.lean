import SqlSelect.Case
import SqlSelect.Session
import SqlSelect.Proofs.Binding
import SqlSelect.Proofs.Document
import SqlSelect.Proofs.Reference
import SqlSelect.Proofs.Writing
import SqlSelect.Proofs.Refinement
import SqlSelect.Proofs.Vanishing
import SqlSelect.Proofs.Literals
import SqlSelect.Proofs.Indistinguishable
import SqlSelect.Proofs.Construction
import SqlSelect.Proofs.Policy
import SqlSelect.Proofs.Scanner
import SqlSelect.Proofs.Delimited
import SqlSelect.Proofs.Canonical
import SqlSelect.Proofs.Filter
import SqlSelect.Proofs.IllFormed
import SqlSelect.Proofs.Numbering
import SqlSelect.Proofs.Sharing
import SqlSelect.Proofs.Marks
import SqlSelect.Proofs.Legible
import SqlSelect.Proofs.Region
import SqlSelect.Proofs.Context
import SqlSelect.Proofs.Surroundings
import SqlSelect.Proofs.StyleIndependence
import SqlSelect.Proofs.Unread
import SqlSelect.Proofs.Spelling
import SqlSelect.Proofs.Requoting
import SqlSelect.Proofs.Retouching
import SqlSelect.Proofs.Survivors
import SqlSelect.Proofs.MemberKeys
import SqlSelect.Proofs.Interleaving
import SqlSelect.Proofs.Insertion
import SqlSelect.Proofs.Enclosure
import SqlSelect.Proofs.AlreadyQuoted
import SqlSelect.Proofs.Segments
import SqlSelect.Proofs.LastSetting
import SqlSelect.Proofs.Equality
import SqlSelect.Proofs.Words
import SqlSelect.Proofs.Label

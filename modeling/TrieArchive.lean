import TrieArchive.Cli.Directory
import TrieArchive.Main
import TrieArchive.Archive.Sharing
import TrieArchive.Element.ChosenHash
import TrieArchive.Element.Tag
import TrieArchive.Proofs.Archive.Exactness
import TrieArchive.Proofs.Archive.Loading
import TrieArchive.Proofs.Archive.Rebuild
import TrieArchive.Proofs.Archive.Unfolding
import TrieArchive.Proofs.Trie.Canonical
import TrieArchive.Proofs.Trie.Contents
import TrieArchive.Proofs.Trie.Position
import TrieArchive.Proofs.Trie.Slots
import TrieArchive.Proofs.Trie.Lookup
import TrieArchive.Proofs.Trie.Branch
import TrieArchive.Proofs.Trie.Insert
import TrieArchive.Proofs.Trie.Fitted
import TrieArchive.Proofs.Trie.Erase
import TrieArchive.Proofs.Trie.Removal
import TrieArchive.Proofs.Trie.Iteration
import TrieArchive.Proofs.Trie.Operations
import TrieArchive.Proofs.Container.FiniteMap
import TrieArchive.Proofs.Container.Edits
import TrieArchive.Proofs.Container.Refinement
import TrieArchive.Proofs.Trie.Shape
import TrieArchive.Proofs.Container.CanonicalForm
import TrieArchive.Proofs.Archive.Preimage
import TrieArchive.Proofs.Archive.Binding
import TrieArchive.Proofs.Archive.Tampering
import TrieArchive.Proofs.Readers
import TrieArchive.Proofs.Element.HexText
import TrieArchive.Proofs.Archive.IdText
import TrieArchive.Proofs.Archive.Resaving
import TrieArchive.Proofs.Json.Text
import TrieArchive.Proofs.Json.Number
import TrieArchive.Proofs.Json.Form
import TrieArchive.Proofs.Json.RoundTrip
import TrieArchive.Proofs.Archive.Codec
import TrieArchive.Proofs.File.RoundTrip
import TrieArchive.Proofs.Archive.Transfer
import TrieArchive.Proofs.Archive.ContentAddress
import TrieArchive.Proofs.Archive.Dedup
import TrieArchive.Proofs.Archive.Sessions
import TrieArchive.Proofs.Archive.Placements
import TrieArchive.Proofs.Archive.SharedLoader
import TrieArchive.Proofs.Archive.FailedLoads
import TrieArchive.Proofs.Archive.Recording
import TrieArchive.Proofs.Archive.LoaderMemory
import TrieArchive.Proofs.Archive.Resuming
import TrieArchive.Proofs.Cli.Commands
import TrieArchive.Proofs.Cli.Saving
import TrieArchive.Proofs.Cli.Verification
import TrieArchive.Proofs.Archive.Occurrences
import TrieArchive.Proofs.Archive.Containers
import TrieArchive.Proofs.Archive.Union
import TrieArchive.Proofs.Archive.Integrity
import TrieArchive.Proofs.Cli.Files
import TrieArchive.Proofs.Cli.Texts
import TrieArchive.Proofs.Cli.Calls
import TrieArchive.Proofs.Trie.Inverse
import TrieArchive.Proofs.Container.Inverse
import TrieArchive.Proofs.Archive.OnePath
import TrieArchive.Proofs.Container.Equality
import TrieArchive.Proofs.Archive.MissingNodes
import TrieArchive.Proofs.Archive.Naming
import TrieArchive.Proofs.Trie.Traversal
import TrieArchive.Proofs.Json.Fronts
import TrieArchive.Proofs.Json.Truncation
import TrieArchive.Proofs.Json.Guarded
import TrieArchive.Proofs.Frame.Truncation
import TrieArchive.Proofs.File.Truncation
import TrieArchive.Proofs.Checked.Steps
import TrieArchive.Proofs.Checked.Nodes
import TrieArchive.Proofs.Checked.Tries
import TrieArchive.Proofs.Checked.Loads
import TrieArchive.Proofs.Checked.Containers

import HostKit.CommandLine.Grammar
import HostKit.CommandLine.Run
import HostKit.Codec.Radix
import HostKit.Codec.TextCodec
import HostKit.Compression.Basic
import HostKit.Config.Basic
import HostKit.Hosts.Registry
import HostKit.Main
import HostKit.Proofs.Hosts.EntryLines
import HostKit.Proofs.Text.Utf8Encoding
import HostKit.Remote.Connection
import HostKit.Table
import HostKit.Text.Affix
import HostKit.Yaml.Load
import HostKit.Yaml.Print
import HostKit.Proofs.Files.Items
import HostKit.Proofs.Files.Route
import HostKit.Proofs.Files.PathNames
import HostKit.Proofs.Files.Paths
import HostKit.Proofs.Machine.Running
import HostKit.Proofs.Hosts.Store
import HostKit.Proofs.Hosts.Operations
import HostKit.Proofs.Hosts.AbstractStore
import HostKit.Proofs.Text.ChosenLines
import HostKit.Proofs.Hosts.Rewrites
import HostKit.Proofs.Hosts.Links
import HostKit.Proofs.Files.Trees
import HostKit.Proofs.Files.Sidecars
import HostKit.Proofs.Files.Renaming
import HostKit.Proofs.Machine.Stopping
import HostKit.Proofs.Hosts.Locks
import HostKit.Proofs.Hosts.Effects
import HostKit.Proofs.Hosts.Frame
import HostKit.Proofs.Remote.Sessions
import HostKit.Proofs.CommandLine.Failures
import HostKit.Proofs.Table.Widths
import HostKit.Proofs.CommandLine.Panics
import HostKit.Proofs.Compression.Expansion
import HostKit.Proofs.Remote.Rounds
import HostKit.Proofs.Remote.Streams
import HostKit.Proofs.Remote.Calls
import HostKit.Proofs.Remote.Output
import HostKit.Proofs.Remote.Runs
import HostKit.Proofs.Compression.Lz4Blocks
import HostKit.Proofs.Compression.BitRows
import HostKit.Proofs.Compression.CodeWords
import HostKit.Proofs.Compression.DeflateBlocks
import HostKit.Proofs.Compression.ZlibContainers
import HostKit.Proofs.Hosts.Independence
import HostKit.Proofs.Codec.Base64Groups
import HostKit.Proofs.Codec.Sextets
import HostKit.Proofs.Codec.Texts
import HostKit.Proofs.CommandLine.TextCommands
import HostKit.Proofs.Hosts.Readers
import HostKit.Proofs.Codec.AcceptedTexts
import HostKit.Proofs.Compression.Lz4Sizes
import HostKit.Proofs.Compression.CanonicalWords
import HostKit.Proofs.Compression.DeflateFormat
import HostKit.Proofs.Compression.SymbolBlocks
import HostKit.Proofs.Compression.CodeLengths
import HostKit.Proofs.Compression.DeflateStreams
import HostKit.Proofs.Compression.ZlibStreams
import HostKit.Proofs.Compression.RoundTrips
import HostKit.Proofs.Text.Blanks
import HostKit.Proofs.Codec.Numerals
import HostKit.Proofs.Table.Layout
import HostKit.Proofs.Hosts.NewAddresses
import HostKit.Proofs.Hosts.Remarks
import HostKit.Proofs.Net.AddressGrammar
import HostKit.Proofs.Hosts.EntryFormat
import HostKit.Proofs.CommandLine.Lookups
import HostKit.Proofs.Remote.Turns
import HostKit.Proofs.Remote.Records
import HostKit.Proofs.Remote.Logs
import HostKit.Proofs.CommandLine.RemoteOutput
import HostKit.Proofs.Codec.AcceptedNumerals
import HostKit.Proofs.Table.Titles
import HostKit.Proofs.Remote.TimeLimits
import HostKit.Proofs.CommandLine.Sources
import HostKit.Proofs.Hosts.Additions
import HostKit.Proofs.Config.Settings
import HostKit.Proofs.Decimal.Rounding
import HostKit.Proofs.Decimal.ShortestDigits
import HostKit.Proofs.Decimal.WrittenNumbers
import HostKit.Proofs.Yaml.Leaves
import HostKit.Proofs.CommandLine.Normalization

import ConfigStream.Checksum.Crc
import ConfigStream.Checksum.Syndrome
import ConfigStream.Packet.Command
import ConfigStream.Packet.Header
import ConfigStream.Disk.Fault
import ConfigStream.Fault
import ConfigStream.Frame.Address
import ConfigStream.Frame.Basic
import ConfigStream.Frame.Order
import ConfigStream.Frame.Memory
import ConfigStream.Text.Lines
import ConfigStream.Decoder
import ConfigStream.Stream.Reader
import ConfigStream.Stream.Writer
import ConfigStream.Bitstream.Basic
import ConfigStream.Profile.Document
import ConfigStream.Profile.Reading
import ConfigStream.Disk.Basic
import ConfigStream.Text.Quoted
import ConfigStream.Database.Assignment
import ConfigStream.Bitstream.Saving
import ConfigStream.CommandLine.Arguments
import ConfigStream.CommandLine.Failure
import ConfigStream.CommandLine.Run
import ConfigStream.Main
import ConfigStream.Proofs.Packet.Header
import ConfigStream.Proofs.Decoder.Reading
import ConfigStream.Proofs.Decoder.Packets
import ConfigStream.Proofs.Packet.Basic
import ConfigStream.Proofs.Decoder.Boundary
import ConfigStream.Proofs.Stream.Lockstep
import ConfigStream.Proofs.Decoder.FrameData
import ConfigStream.Proofs.Frame.Syndrome
import ConfigStream.Proofs.Encoding.Calls
import ConfigStream.Proofs.Encoding.Header
import ConfigStream.Proofs.Encoding.Stream
import ConfigStream.Proofs.Encoding.Placement
import ConfigStream.Proofs.Frame.Bits
import ConfigStream.Proofs.Frame.Memory
import ConfigStream.Proofs.Encoding.RoundTrip
import ConfigStream.Proofs.Encoding.AnyOrder
import ConfigStream.Proofs.Encoding.FirstSync
import ConfigStream.Proofs.Database.Assignment
import ConfigStream.Proofs.Database.FrameList
import ConfigStream.Proofs.CommandLine.AssembleThenDump
import ConfigStream.Proofs.Decoder.FrameWalk
import ConfigStream.Proofs.Decoder.Checked
import ConfigStream.Proofs.Decoder.ReportedBits
import ConfigStream.Proofs.Checksum.Crc
import ConfigStream.Proofs.Stream.Agreement
import ConfigStream.Proofs.Stream.Idle
import ConfigStream.Proofs.Decoder.Course
import ConfigStream.Proofs.Decoder.Accounting
import ConfigStream.Proofs.Decoder.Insertion
import ConfigStream.Proofs.Decoder.CheckSums
import ConfigStream.Proofs.Decoder.DataWord
import ConfigStream.Proofs.Checksum.OneWord
import ConfigStream.Proofs.Frame.Columns
import ConfigStream.Proofs.Frame.Residue
import ConfigStream.Proofs.Encoding.Groups
import ConfigStream.Proofs.Encoding.Corruption
import ConfigStream.Proofs.Encoding.Dependence
import ConfigStream.Proofs.Decoder.Extension
import ConfigStream.Proofs.Database.Setting
import ConfigStream.Proofs.Database.Harness
import ConfigStream.Proofs.Steps
import ConfigStream.Proofs.Text.Fields
import ConfigStream.Proofs.Database.BitTable
import ConfigStream.Proofs.Database.Features
import ConfigStream.Proofs.CommandLine.Meaning
import ConfigStream.Proofs.Text.Lines
import ConfigStream.Proofs.Text.Numeral
import ConfigStream.Proofs.Frame.Address
import ConfigStream.Proofs.Listing
import ConfigStream.Proofs.CommandLine.DumpThenHarness
import ConfigStream.Proofs.Database.Tables
import ConfigStream.Proofs.Database.Reordering
import ConfigStream.Proofs.Encoding.Length
import ConfigStream.Proofs.Frame.History
import ConfigStream.Proofs.Word
import ConfigStream.Proofs.Frame.Completion
import ConfigStream.Proofs.Frame.Flips
import ConfigStream.Proofs.Checksum.Serial
import ConfigStream.Proofs.Database.Failing
import ConfigStream.Proofs.Checksum.Remainder
import ConfigStream.Proofs.Encoding.LengthFields
import ConfigStream.Proofs.Text.Layout
import ConfigStream.Proofs.Database.Layout
import ConfigStream.Proofs.Database.TileLine
import ConfigStream.Proofs.Database.Tiles
import ConfigStream.Proofs.Database.TileList
import ConfigStream.Proofs.Database.TileBits
import ConfigStream.Proofs.Database.Succession
import ConfigStream.Proofs.Stream.SyncSearch
import ConfigStream.Proofs.Packet.Names
import ConfigStream.Proofs.Bitstream.HexDump
import ConfigStream.Proofs.Disk.Path
import ConfigStream.Proofs.Disk.Basic
import ConfigStream.Proofs.Bitstream.Saving
import ConfigStream.Proofs.Stream.History

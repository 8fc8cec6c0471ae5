import PacketWire.Buffer.Operation
import PacketWire.Config.Environment
import PacketWire.Config.File
import PacketWire.Dispatcher
import PacketWire.Error.Data
import PacketWire.Log.Setup
import PacketWire.Proofs.Alignment
import PacketWire.Proofs.Backpatch
import PacketWire.Proofs.Bits
import PacketWire.Proofs.Buffer.BitFields
import PacketWire.Proofs.Buffer.Ceiling
import PacketWire.Proofs.Buffer.Cursors
import PacketWire.Proofs.Buffer.Dump
import PacketWire.Proofs.Buffer.Growth
import PacketWire.Proofs.Buffer.Interleaving
import PacketWire.Proofs.Buffer.Overrun
import PacketWire.Proofs.Buffer.PatchedReading
import PacketWire.Proofs.Buffer.Refusal
import PacketWire.Proofs.Buffer.Room
import PacketWire.Proofs.Buffer.Splicing
import PacketWire.Proofs.Buffer.TextReading
import PacketWire.Proofs.Conversation
import PacketWire.Proofs.Counters
import PacketWire.Proofs.Decode
import PacketWire.Proofs.Dispatch.Admission
import PacketWire.Proofs.Dispatch.Diagnostics
import PacketWire.Proofs.Dispatch.Order
import PacketWire.Proofs.Dispatch.Rejection
import PacketWire.Proofs.Dispatch.Reporting
import PacketWire.Proofs.Guid
import PacketWire.Proofs.NodeMask
import PacketWire.Proofs.Rewriting
import PacketWire.Proofs.Threshold

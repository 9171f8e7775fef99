import Modbus.Chunk.Rehearsal
import Modbus.Server
import Modbus.Link.Tcp
import Modbus.Link.Rtu
import Modbus.Link.Direct
import Modbus.Batch.Batcher
import Modbus.Client.Batch
import Modbus.Proofs.ChunkedRead
import Modbus.Proofs.BatchWrite
import Modbus.Proofs.DirectMemory
import Modbus.Proofs.Alignment
import Modbus.Proofs.LateAnswers
import Modbus.Proofs.Lag
import Modbus.Proofs.EnqueueOrder
import Modbus.Proofs.TornWrites
import Modbus.Proofs.WriteCeiling
import Modbus.Proofs.Verdict
import Modbus.Proofs.WriteEcho
import Modbus.Proofs.Acceptance
import Modbus.Proofs.UntrustedReads
import Modbus.Proofs.ReadBack
import Modbus.Proofs.BatcherLedger
import Modbus.Proofs.InputOrder
import Modbus.Proofs.Calls
import Modbus.Proofs.Counters
import Modbus.Proofs.FrameLog
import Modbus.Proofs.Queries
import Modbus.Proofs.Covering
import Modbus.Proofs.ErrorDetection
import Modbus.Proofs.LastPoll
import Modbus.Proofs.ReadCourse
import Modbus.Proofs.BatchTrace
import Modbus.Proofs.RequestCounts
import Modbus.Proofs.RoundTrip
import Modbus.Proofs.Precision
import Modbus.Proofs.Deadline
import Modbus.Proofs.RequestFields
import Modbus.Proofs.LenientReads
import Modbus.Proofs.RowLayout
import Modbus.Proofs.Storage
import Modbus.Proofs.Conservation
import Modbus.Proofs.TrafficLog

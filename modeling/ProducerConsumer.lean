import ProducerConsumer.Lib.Machine
import ProducerConsumer.Lib.Descent
import ProducerConsumer.Lib.LittleEndian
import ProducerConsumer.Lib.Mirror
import ProducerConsumer.Lib.AddressSpace
import ProducerConsumer.Lib.Crc
import ProducerConsumer.Lib.Channel
import ProducerConsumer.Lib.Succession
import ProducerConsumer.Lib.Signed
import ProducerConsumer.Lib.Cadence
import ProducerConsumer.Lib.Xoshiro
import ProducerConsumer.Ring
import ProducerConsumer.RingBounds
import ProducerConsumer.RingSystem
import ProducerConsumer.RingInvariant
import ProducerConsumer.RingFifo
import ProducerConsumer.RingCounters
import ProducerConsumer.Checksum
import ProducerConsumer.Packet
import ProducerConsumer.Validator
import ProducerConsumer.PacketIntegrity
import ProducerConsumer.ChecksumPaths
import ProducerConsumer.Attach
import ProducerConsumer.Lifecycle
import ProducerConsumer.Stats
import ProducerConsumer.Continuity
import ProducerConsumer.MissingPackets
import ProducerConsumer.StatsPartition
import ProducerConsumer.Overflow
import ProducerConsumer.Session
import ProducerConsumer.Accounting
import ProducerConsumer.SessionLog
import ProducerConsumer.StreamConsumers
import ProducerConsumer.StreamVerdicts
import ProducerConsumer.SessionEnd
import ProducerConsumer.StreamProgress
import ProducerConsumer.ConsumerRun
import ProducerConsumer.Generator
import ProducerConsumer.Builder
import ProducerConsumer.ProducerApp
import ProducerConsumer.PayloadSize
import ProducerConsumer.CommandLine
import ProducerConsumer.Spellings
import ProducerConsumer.ByteSize
import ProducerConsumer.Options
import ProducerConsumer.NumericOptions
import ProducerConsumer.RateLimiter
import ProducerConsumer.ProducerReports
import ProducerConsumer.CounterShift
import ProducerConsumer.RandomStreams
import ProducerConsumer.Seeding
import ProducerConsumer.RingCapacity
import ProducerConsumer.ShmRegion
import ProducerConsumer.ControlSources
import ProducerConsumer.StopAndPause

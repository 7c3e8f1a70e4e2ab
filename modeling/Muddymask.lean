import Muddymask.Words
import Muddymask.UnorderedMap
import Muddymask.HashTable
import Muddymask.Runs
import Muddymask.Simulation
import Muddymask.Places
import Muddymask.DummyCrypto
import Muddymask.Cipher
import Muddymask.Packet
import Muddymask.AddressPool
import Muddymask.Allocation
import Muddymask.TunnelServer
import Muddymask.Interleaving
import Muddymask.Registry
import Muddymask.IndexAgreement
import Muddymask.Conservation
import Muddymask.Answer
import Muddymask.Restart
import Muddymask.Turns
import Muddymask.Retransmission
import Muddymask.Sweep
import Muddymask.Expiry
import Muddymask.Isolation
import Muddymask.CommandLine
import Muddymask.Endpoint
import Muddymask.Arguments
import Muddymask.Client
import Muddymask.TunnelClient
import Muddymask.Relay
import Muddymask.Format
import Muddymask.Establishment
import Muddymask.ErrorExchange
import Muddymask.SessionGrant
import Muddymask.Delivery
import Muddymask.SendFailure
import Muddymask.Station
import Muddymask.Network
import Muddymask.Confinement
import Muddymask.Traffic
import Muddymask.Progress
import Muddymask.Farewell
import Muddymask.Greeting
import Muddymask.FrameOrder
import Muddymask.Keepalive
import Muddymask.ReaderWriter
import Muddymask.Threads
import Muddymask.LockRefinement
import Muddymask.Roaming
import Muddymask.LockDiscipline
import Muddymask.SharedMutex
import Muddymask.Exclusion
import Muddymask.Wakeups
import Muddymask.Preference
import Muddymask.Locking
import Muddymask.Sections
import Muddymask.LockingRefinement
import Muddymask.Footprints
import Muddymask.Accesses
import Muddymask.DataRaces
import Muddymask.Completion
import Muddymask.Memory
import Muddymask.MacHash
import Muddymask.AlignedAllocator
import Muddymask.ArenaAllocator
import Muddymask.Carving
import Muddymask.Slots
import Muddymask.Recycling
import Muddymask.Peak
import Muddymask.Retries
import Muddymask.Homecoming
import Muddymask.Path
import Muddymask.Logger
import Muddymask.LogRecords
import Muddymask.LogTargets

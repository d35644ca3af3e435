import RustStream.Lib.Decimal
import RustStream.Lib.Arena
import RustStream.Lib.Slice
import RustStream.Lib.Utf8
import RustStream.Lib.Relay
import RustStream.Lib.Window
import RustStream.Lib.Select
import RustStream.Lib.Run
import RustStream.Lib.Lockstep
import RustStream.Lib.Places
import RustStream.Lib.Ledger
import RustStream.Lib.Parking
import RustStream.Lib.Gather
import RustStream.Lib.Tenancy
import RustStream.Lib.Lanes
import RustStream.Lib.Drain
import RustStream.Headers.Map
import RustStream.Headers.Fixed
import RustStream.Headers.RetryCount
import RustStream.Headers.Buffer
import RustStream.Headers.Merge
import RustStream.Headers.Typed
import RustStream.Dispatch.Redelivery
import RustStream.Dispatch.CopyStore
import RustStream.Dispatch.Settle
import RustStream.Dispatch.Disposition
import RustStream.Dispatch.Consumption
import RustStream.Dispatch.Spent
import RustStream.Dispatch.Journey
import RustStream.Memory.Delivery
import RustStream.Memory.LocalBus
import RustStream.Memory.Chain
import RustStream.Memory.Log
import RustStream.Memory.Pattern
import RustStream.Memory.Fanout
import RustStream.Memory.Routes
import RustStream.Memory.Winner
import RustStream.Memory.Seek
import RustStream.Memory.Swap
import RustStream.Memory.Reposition
import RustStream.Memory.Handoff
import RustStream.Memory.Lifecycle
import RustStream.Memory.Transaction
import RustStream.Memory.Request
import RustStream.Memory.Harness
import RustStream.Memory.Balance
import RustStream.Memory.Quiescence
import RustStream.Local.Heap
import RustStream.Local.Threads
import RustStream.Local.Fixed
import RustStream.Local.Slots
import RustStream.Local.Capacity
import RustStream.Local.Client
import RustStream.Local.HeapClient
import RustStream.Local.FixedClient
import RustStream.Local.Twins
import RustStream.Rings.Steps
import RustStream.Rings.Once
import RustStream.Rings.ReadAhead
import RustStream.Rings.Wakeup
import RustStream.Batch.Settle
import RustStream.Batch.Pairing
import RustStream.Batch.Fan
import RustStream.Batch.Rendezvous
import RustStream.Batch.Buffered
import RustStream.Embedded.Copies
import RustStream.Embedded.Tenants
import RustStream.Embedded.Departures
import RustStream.Dispatch.Turn
import RustStream.Embedded.Workers
import RustStream.Embedded.HandOver
import RustStream.Embedded.RunDown
import RustStream.Dispatch.Coop
import RustStream.Local.Skipping
import RustStream.Local.Awake
import RustStream.Local.Fill
import RustStream.Lib.Split
import RustStream.AsyncApi.Host
import RustStream.Lib.Cut
import RustStream.Headers.Inline
import RustStream.Macros.Template
import RustStream.Dispatch.PollStats
import RustStream.Lib.Assoc
import RustStream.Lib.Fresh
import RustStream.Lib.Json
import RustStream.Lib.Pointer
import RustStream.AsyncApi.Spec
import RustStream.AsyncApi.Build
import RustStream.AsyncApi.Ids
import RustStream.AsyncApi.Security
import RustStream.Lib.First
import RustStream.AsyncApi.Channels
import RustStream.AsyncApi.Placement
import RustStream.AsyncApi.References
import RustStream.Lib.Unfold
import RustStream.AsyncApi.Join
import RustStream.AsyncApi.JoinMeaning
import RustStream.Lib.Reorder
import RustStream.Testing.Attribution
import RustStream.Testing.Origins
import RustStream.Testing.Recording
import RustStream.Testing.Settling

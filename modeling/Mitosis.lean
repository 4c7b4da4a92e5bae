import Mitosis.Support.ByteMemory
import Mitosis.Support.Machine
import Mitosis.Support.KeyedMap
import Mitosis.Support.OrderedScan
import Mitosis.Support.Outcome
import Mitosis.Support.Logged
import Mitosis.Support.CompletionQueue
import Mitosis.OsNetwork.Bytes
import Mitosis.OsNetwork.Writers
import Mitosis.OsNetwork.Future
import Mitosis.RemoteMapping.PhysAddr
import Mitosis.OsNetwork.Rdma
import Mitosis.RemoteMapping.PageTable
import Mitosis.RemoteMapping.WellFormed
import Mitosis.RemoteMapping.Mapping
import Mitosis.RemoteMapping.FiniteMap
import Mitosis.RemoteMapping.Iter
import Mitosis.RemoteMapping.SlotOrder
import Mitosis.Descriptors.Basic
import Mitosis.Descriptors.Parent
import Mitosis.Descriptors.RoundTrip
import Mitosis.Descriptors.FlatPageTable
import Mitosis.Descriptors.Child
import Mitosis.Descriptors.Decoders
import Mitosis.Descriptors.Alignment
import Mitosis.Descriptors.Truncation
import Mitosis.ShadowProcess.Basic
import Mitosis.ShadowProcess.Fork
import Mitosis.ShadowProcess.PageCounters
import Mitosis.RemotePaging.RemoteRead
import Mitosis.Rpc.Caller
import Mitosis.Rpc.Matching
import Mitosis.Prefetcher.Strategies
import Mitosis.Prefetcher.Executor
import Mitosis.Prefetcher.Posting
import Mitosis.Prefetcher.Slots
import Mitosis.Prefetcher.Refinement
import Mitosis.PageFault.Handler
import Mitosis.PageFault.Refinement
import Mitosis.Prefetcher.Drop
import Mitosis.PageFault.PrefetchRun
import Mitosis.PageFault.Faithful
import Mitosis.PageFault.Content
import Mitosis.PageFault.Equivalence
import Mitosis.PageFault.Served
import Mitosis.PageFault.Anonymous
import Mitosis.Fetch.Paths
import Mitosis.Fetch.Waits
import Mitosis.Fetch.Source
import Mitosis.Fetch.Schedules
import Mitosis.Fetch.Batch
import Mitosis.Fetch.Frees
import Mitosis.Fetch.Verified
import Mitosis.Fetch.Faults
import Mitosis.ShadowProcess.Registry
import Mitosis.Syscall.Prepare
import Mitosis.Syscall.Ownership
import Mitosis.Syscall.Targets
import Mitosis.RemoteMapping.Copy
import Mitosis.RemoteMapping.Separation
import Mitosis.Resume.Regions
import Mitosis.Resume.Syscall
import Mitosis.Resume.QueuePairs
import Mitosis.PageFault.Marks
import Mitosis.Resume.TableCache
import Mitosis.Resume.DescriptorFetch
import Mitosis.Datagram.Message
import Mitosis.Datagram.Formatting
import Mitosis.Datagram.Session
import Mitosis.Datagram.Hook
import Mitosis.Datagram.Caller
import Mitosis.Datagram.RoundTrip
import Mitosis.Datagram.Failures
import Mitosis.Datagram.Calls
import Mitosis.Datagram.Buffers
import Mitosis.Datagram.Requests
import Mitosis.Datagram.Stale
import Mitosis.Datagram.Link
import Mitosis.Datagram.Completions
import Mitosis.Datagram.SendBuffer
import Mitosis.Datagram.Slots
import Mitosis.Datagram.FullQueue
import Mitosis.Datagram.Probe
import Mitosis.Datagram.SessionIds
import Mitosis.Resume.Returns
import Mitosis.Prefetcher.TablePages
import Mitosis.Support.RefCounts
import Mitosis.PageFault.Owners
import Mitosis.Resume.SharedPages
import Mitosis.Support.CopyOnWrite
import Mitosis.Support.Batching
import Mitosis.ShadowProcess.Walks
import Mitosis.ShadowProcess.Snapshot
import Mitosis.Resume.ForkedMemory
import Mitosis.Fetch.Eager
import Mitosis.Resume.EagerFork
import Mitosis.Prefetcher.TableNodes
import Mitosis.Prefetcher.TablePool
import Mitosis.KernWrappers.Task
import Mitosis.Resume.Layout
import Mitosis.RemotePaging.RcPool
import Mitosis.Support.Processes
import Mitosis.LeanContainer.CachedNamespace
import Mitosis.Support.Serialized
import Mitosis.RemotePaging.Concurrent
import Mitosis.Support.Components
import Mitosis.Resume.FetchedProcess
import Mitosis.Resume.RemoteFork

import Vaudou.Foundation.Attempts
import Vaudou.Foundation.Links
import Vaudou.Foundation.Run
import Vaudou.IntMap.Table
import Vaudou.IntMap.Chains
import Vaudou.IntMap.Growth
import Vaudou.IntMap.Walks
import Vaudou.IntMap.Repeats
import Vaudou.IntMap.Runs
import Vaudou.IntMap.Sessions
import Vaudou.Foundation.Memory
import Vaudou.Foundation.Ownership
import Vaudou.HandleMap.Slots
import Vaudou.HandleMap.Layout
import Vaudou.HandleMap.Operations
import Vaudou.HandleMap.Tokens
import Vaudou.HandleMap.Clients
import Vaudou.HandleMap.Stale
import Vaudou.HandleMap.Dropped
import Vaudou.Buddy.Blocks
import Vaudou.Buddy.Tiling
import Vaudou.Buddy.Sizes
import Vaudou.Buddy.Search
import Vaudou.Buddy.Heap
import Vaudou.Buddy.Runs
import Vaudou.Buddy.Requests
import Vaudou.Buddy.Walks
import Vaudou.Buddy.Recovery
import Vaudou.Buddy.Alignment
import Vaudou.EntityMemory.Collecting
import Vaudou.EntityMemory.Exhaustion
import Vaudou.EntityMemory.Lifetimes
import Vaudou.EntityMemory.Pushes
import Vaudou.Arena.Alignment
import Vaudou.Arena.Alloc
import Vaudou.Arena.Refusals
import Vaudou.Arena.Regions
import Vaudou.Arena.Threads
import Vaudou.Fmt.Conversions
import Vaudou.Fmt.Integers
import Vaudou.Fmt.Format
import Vaudou.Fmt.Rendering
import Vaudou.Fmt.Values
import Vaudou.Fmt.Strings
import Vaudou.Fmt.Passes
import Vaudou.Fmt.Exact
import Vaudou.Foundation.BlockHeap
import Vaudou.Meta.Registry
import Vaudou.Meta.TypeIds
import Vaudou.Meta.Writer
import Vaudou.Meta.Parser
import Vaudou.Meta.Tokens
import Vaudou.Meta.Objects
import Vaudou.Meta.RoundTrip
import Vaudou.Foundation.Float32
import Vaudou.StrMap.Table
import Vaudou.StrMap.Lookup
import Vaudou.Delegate.Hook
import Vaudou.Cvar.Store
import Vaudou.Array.Dynamic
import Vaudou.Array.Refinement
import Vaudou.Meta.Documents
import Vaudou.Meta.Leaves
import Vaudou.Meta.Frames
import Vaudou.Meta.Reading
import Vaudou.Meta.Accepting
import Vaudou.Meta.Layouts
import Vaudou.Meta.UnknownMembers
import Vaudou.Meta.Soundness
import Vaudou.Meta.Provenance
import Vaudou.Meta.Weaving
import Vaudou.Meta.Escapes
import Vaudou.Meta.Buffer
import Vaudou.Meta.IntrusiveArrays
import Vaudou.Meta.Failures
import Vaudou.Foundation.Resources
import Vaudou.Renderer.Types
import Vaudou.Renderer.DeletionQueue
import Vaudou.Renderer.DescriptorAllocator
import Vaudou.Renderer.PoolSizes
import Vaudou.Renderer.Materials
import Vaudou.Renderer.UniformBuffers
import Vaudou.Renderer.SetLayouts
import Vaudou.Renderer.PropertyDefaults
import Vaudou.Renderer.WindowSurface
import Vaudou.Renderer.DeviceSelection
import Vaudou.Renderer.SurfaceChoice
import Vaudou.Renderer.WindowResizes
import Vaudou.Imgui.DrawData
import Vaudou.Renderer.BufferCalls
import Vaudou.Renderer.Meshes
import Vaudou.Delegate.HookList
import Vaudou.Delegate.Subscribers
import Vaudou.Foundation.Resizing
import Vaudou.Arena.Resizing
import Vaudou.EntityMemory.Resizing
import Vaudou.Foundation.SizedCalls
import Vaudou.Foundation.Reallocation
import Vaudou.Containers.Sizes
import Vaudou.StrMap.Tails
import Vaudou.StrMap.Keys
import Vaudou.StrMap.Scans
import Vaudou.StrMap.Ownership
import Vaudou.Containers.Matching
import Vaudou.Fmt.Undefined
import Vaudou.Fmt.Bounds
import Vaudou.Fmt.Pieces
import Vaudou.Fmt.Printing
import Vaudou.Str.Search
import Vaudou.Str.Parts
import Vaudou.Meta.Appending
import Vaudou.Meta.FieldArrays
import Vaudou.Meta.ArrayTexts
import Vaudou.Meta.Places
import Vaudou.Meta.Declared
import Vaudou.Meta.Reporting
import Vaudou.Meta.Progress
import Vaudou.Meta.Returning
import Vaudou.Meta.Hints
import Vaudou.Meta.ElementPlaces
import Vaudou.Meta.ArrayPlaces
import Vaudou.Meta.IntegerTokens
import Vaudou.Meta.ArrayValues
import Vaudou.Renderer.UniformBuffers
import Vaudou.Foundation.TwinHeaps
import Vaudou.Meta.Contents
import Vaudou.Meta.TwinObjects
import Vaudou.Meta.TwinArrays
import Vaudou.Meta.CompletedCalls
import Vaudou.Meta.TwinRuns
import Vaudou.Meta.Leftovers
import Vaudou.Buddy.HeaderReads
import Vaudou.Foundation.CLiterals
import Vaudou.Foundation.CountLoops
import Vaudou.Renderer.SphereMesh
import Vaudou.Text.LexerPositions
import Vaudou.Text.TextToLiteral
import Vaudou.Meta.BufferRuns
import Vaudou.Meta.Leftovers
import Vaudou.Foundation.FencedWork
import Vaudou.Renderer.FramesInFlight
import Vaudou.Foundation.Mixing
import Vaudou.Hash.Separation
import Vaudou.IntMap.FixedCapacity
import Vaudou.Renderer.AllocationTracking
import Vaudou.Renderer.DeviceMemory
import Vaudou.Text.Tokenizer

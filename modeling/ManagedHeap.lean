import ManagedHeap.Builder
import ManagedHeap.Mutator
import ManagedHeap.RegionHeap.Stubs
import ManagedHeap.Text.Relative
import ManagedHeap.Proofs.Accounting
import ManagedHeap.Proofs.Coherence
import ManagedHeap.Proofs.CardMarks
import ManagedHeap.Proofs.CollectionSet
import ManagedHeap.Proofs.CompiledCode
import ManagedHeap.Proofs.Construction
import ManagedHeap.Proofs.ExactMarking
import ManagedHeap.Proofs.LoadBarrier
import ManagedHeap.Proofs.Reclamation
import ManagedHeap.Proofs.Refills
import ManagedHeap.Proofs.RegionLedger
import ManagedHeap.Proofs.ReferenceUpdate
import ManagedHeap.Proofs.FailedEvacuation
import ManagedHeap.Proofs.Operands
import ManagedHeap.Proofs.Swaps
import ManagedHeap.Proofs.BumpAllocation
import ManagedHeap.Proofs.FixedObjects
import ManagedHeap.Proofs.BumpSessions
import ManagedHeap.Proofs.BumpLedger
import ManagedHeap.Proofs.FieldCopies
import ManagedHeap.Proofs.BumpExpansion
import ManagedHeap.Proofs.RegionAllocation
import ManagedHeap.Proofs.Cancellation
import ManagedHeap.Proofs.RegionChoice
import ManagedHeap.Proofs.BufferTraffic
import ManagedHeap.Proofs.HeapCheck
import ManagedHeap.Proofs.LiveBytes
import ManagedHeap.Proofs.OptionsCheck
import ManagedHeap.Proofs.BufferSizes
import ManagedHeap.Proofs.BitSets
import ManagedHeap.Proofs.Pools
import ManagedHeap.Proofs.HeaderWords
import ManagedHeap.Proofs.SizeTexts
import ManagedHeap.Proofs.SettingRuns
import ManagedHeap.Proofs.Monitoring
import ManagedHeap.Proofs.Copies
import ManagedHeap.Proofs.ElidedStores

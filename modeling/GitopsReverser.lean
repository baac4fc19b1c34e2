import GitopsReverser.Git.WindowInvariants
import GitopsReverser.Git.ContentWriter
import GitopsReverser.Git.CommitIsolation
import GitopsReverser.Controller.PathOverlap
import GitopsReverser.Watch.LiveDedup
import GitopsReverser.Git.ResyncReplies
import GitopsReverser.Manifest.PlacementOrder
import GitopsReverser.Manifest.ResourceGraph
import GitopsReverser.Manifest.RenderOracle
import GitopsReverser.Manifest.StoreIndex
import GitopsReverser.Flush.BlindWrites
import GitopsReverser.Flush.CreateNew
import GitopsReverser.Flush.DeletePaths
import GitopsReverser.Git.PruneModes
import GitopsReverser.Flush.Confinement
import GitopsReverser.Manifest.ScopedPlan
import GitopsReverser.Flush.Coalescing
import GitopsReverser.Watch.Retention
import GitopsReverser.Watch.Terminating
import GitopsReverser.Queue.Await
import GitopsReverser.Watch.SourceScopeGate
import GitopsReverser.Watch.Credentials
import GitopsReverser.Watch.FidelityStatus
import GitopsReverser.Watch.TableHistory
import GitopsReverser.Watch.ListFallback
import GitopsReverser.Override.ConsistentEdits
import GitopsReverser.Edit.Locality
import GitopsReverser.Edit.Markers
import GitopsReverser.Queue.FactStream
import GitopsReverser.Typeset.Histories

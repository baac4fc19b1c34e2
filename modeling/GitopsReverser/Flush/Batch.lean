import GitopsReverser.Git.PendingWrite
import GitopsReverser.Manifest.KustomizationEdit
import GitopsReverser.Manifest.Placement
import GitopsReverser.Manifest.Plan

/-!
# Batch — the working set of one flush

A batch folds events, or a resync plan, over buffers of the scanned files, and `flush` writes the
buffers that changed. What stays fixed in a batch is the `Setting`; what the events change is the
`Batch`. A buffer holds the current bytes of a file, `none` for a file to be removed; the original
bytes are the ones the scan read.

The YAML editor and kustomize are tools of the setting. An edit in place keeps the header of its
document: apiVersion, kind, namespace and name are the ones it was found by.
-/

namespace GitopsReverser.Flush

open Reasoning Manifest
open Git (Path PruneMode trimSpace)

/-! ## 1. Events -/

inductive FieldValue where
  | whole (n : Int)
  | other (text : String)
  deriving DecidableEq, Repr

structure FieldAssignment where
  path : List String
  value : FieldValue
  deriving DecidableEq, Repr

structure Event where
  identifier : ResourceIdentifier
  object : Option Object := none
  -- the operation is `DELETE`
  delete : Bool := false
  fieldPatch : Option (List FieldAssignment) := none
  deriving DecidableEq, Repr

def manifestIdentity (object : Option Object) : Option Identity :=
  object.bind (fun o =>
    let id := identityOfObject o
    if id.apiVersion = "" ∨ id.kind = "" ∨ id.name = "" then none else some id)

/-! ## 2. Tools -/

structure Tools where
  kustomize : Kustomize
  nameMatch : NameMatch
  sensitive : String → String → Bool
  project : Object → Object
  marshal : Object → Node
  encrypt : Object → Except String Node
  /-- `manifestsAreSemanticallyEqual`. -/
  semanticallyEqual : Content → Content → Bool
  /-- `projectThroughKustomize`, `Decide` and `Apply` on one document: the document afterwards if
      it changes, and the entries that take the rest of the change. -/
  editInPlace : Node → DocumentModel → Object → Option Path →
    Except IssueKind (Option Node × List OverrideEdit)
  /-- `PatchFields` on one document. -/
  patchFields : Node → List FieldAssignment → Option Node

def Tools.isSensitive (tools : Tools) (id : ResourceIdentifier) : Bool :=
  tools.sensitive id.group id.resource

/-- A rendered document carries the header of its object. SOPS leaves the header in clear and adds
    its stanza. -/
def Tools.plainDocument (tools : Tools) (o : Object) : Document :=
  .node { tools.marshal o with identity := identityOfObject o, mapping := true, disallowed := none }

def sealedDocument (o : Object) (n : Node) : Document :=
  .node { n with identity := identityOfObject o, mapping := true, disallowed := none, sops := true }

def Tools.buildContentForWrite (tools : Tools) (e : Event) : Except String Document :=
  match e.object with
  | none => .error "failed to marshal object to YAML"
  | some o =>
    if tools.isSensitive e.identifier then
      match tools.encrypt o with
      | .ok n => .ok (sealedDocument o n)
      | .error err => .error ("secret encryption failed: " ++ err)
    else .ok (tools.plainDocument o)

def editedNode (n edited : Node) : Node :=
  { n with body := edited.body, valueFiles := edited.valueFiles, kustomization := edited.kustomization }

/-- `decision.go`: a document with a refused construct or a `sops` stanza is left alone. -/
def editDocument (content : Content) (i : Nat) (edit : Node → Option Node) : Option Content :=
  match content[i]? with
  | some (.node n) =>
    if n.disallowed.isSome || n.sops then none
    else (edit n).map (fun edited => content.set i (.node (editedNode n edited)))
  | _ => none

/-! ## 3. The state of a batch -/

structure Setting where
  tools : Tools
  store : ManifestStore
  contentByPath : Tree
  policy : Option PlacementPolicy := none
  pruneMode : PruneMode := .unset
  -- spec.path relative to the scanned root: the write jail, empty when the two agree
  writeSubdir : Path := []

structure ColdBundleMember where
  identifier : ResourceIdentifier
  document : Document
  sensitive : Bool
  deriving DecidableEq, Repr

structure Batch where
  buffers : Dict Path (Option Content) := ∅
  intents : List WriteIntent := []
  putToKustomize : Bool := false
  coldBundles : Dict Path (List ColdBundleMember) := ∅

inductive FlushError where
  | content (message : String)
  | refused (issues : List AcceptanceIssue)
  deriving DecidableEq, Repr

inductive UpsertOutcome where
  | noChange | created | updated | skippedUnsafe
  deriving DecidableEq, Repr

def UpsertOutcome.wroteBytes (o : UpsertOutcome) : Bool := o = .created ∨ o = .updated

def Batch.set (b : Batch) (p : Path) (c : Option Content) : Batch :=
  { b with buffers := b.buffers.insert p c }

def Batch.put (b : Batch) (p : Path) : Option Content → Batch × Bool
  | some c => (b.set p (some c), true)
  | none => (b, false)

def Batch.intend (b : Batch) (i : WriteIntent) : Batch :=
  if i.kind = "" ∨ i.name = "" then b else { b with intents := b.intents ++ [i] }

namespace Setting

variable (s : Setting)

def current (b : Batch) (p : Path) : Option Content :=
  match b.buffers.lookup p with
  | some c => c
  | none => s.contentByPath.lookup p

def dirty (b : Batch) (p : Path) : Bool :=
  (s.current b p).isSome && decide (s.current b p ≠ s.contentByPath.lookup p)

def deleted (b : Batch) (p : Path) : Bool :=
  (s.current b p).isNone && (s.contentByPath.lookup p).isSome

def intentFor (live : Object) (p : Path) (governed : Bool) : WriteIntent :=
  let desired := s.tools.project live
  { sourcePath := p, kind := desired.kind, name := desired.name, desired := some desired,
    governed := governed }

/-! ## 4. Editing kustomizations -/

def editKustomizationAt (b : Batch) (p : Path)
    (edit : KustomizationFile → Option KustomizationFile) : Batch × Bool :=
  b.put p ((s.current b p).bind (editKustomization edit))

def appendKustomizationResource (b : Batch) (k : KustomizationDoc) (p : Path) : Batch :=
  let dir := pathDir k.path
  (s.editKustomizationAt b k.path (appendResource (if dir = dot then p else relUnder dir p))).1

/-- `plan_flush.go`, the body of the loop of `applyOverrideEdits`: the patches of one file together,
    then the new entries one by one. -/
def applyOverrideEditsAt (edits : List OverrideEdit) (st : Batch × Bool) (p : Path) : Batch × Bool :=
  let patches := edits.filter (fun e => !e.create)
  let step (st : Batch × Bool) (edit : KustomizationFile → Option KustomizationFile) :=
    let r := s.editKustomizationAt st.1 p edit
    (r.1, st.2 || r.2)
  let st := if patches = [] then st else step st (patchOverrides patches)
  (edits.filter OverrideEdit.create).foldl (fun st e => step st (appendOverride e)) st

def applyOverrideEdits (b : Batch) (edits : List OverrideEdit) : Batch × Bool :=
  (sortPaths (edits.map OverrideEdit.kustomizationPath).dedup).foldl
    (fun st p => s.applyOverrideEditsAt (edits.filter (fun e => e.kustomizationPath = p)) st p)
    (b, false)

/-! ## 5. Creating -/

def writeWholeFile (b : Batch) (e : Event) (p : Path) : Except FlushError (Batch × UpsertOutcome) :=
  match s.tools.buildContentForWrite e with
  | .error err => .error (.content err)
  | .ok doc =>
    match s.current b p with
    | none => .ok (b.set p (some [doc]), .created)
    | some cur =>
      if 1 < documentCount cur then .ok (b, .skippedUnsafe)
      else if cur = [doc] ∨ s.tools.semanticallyEqual cur [doc] then .ok (b, .noChange)
      else .ok (b.set p (some [doc]), .updated)

def writeColdBundleMember (b : Batch) (e : Event) (p : Path) :
    Except FlushError (Batch × UpsertOutcome) :=
  match s.tools.buildContentForWrite e with
  | .error err => .error (.content err)
  | .ok doc =>
    let member : ColdBundleMember := ⟨e.identifier, doc, s.tools.isSensitive e.identifier⟩
    let members := (((b.coldBundles.lookup p).getD []) ++ [member]).insertionSort
      (fun x y => x.identifier.key ≤ y.identifier.key)
    .ok ({ b.set p (some (members.map ColdBundleMember.document)) with
      coldBundles := b.coldBundles.insert p members }, .created)

def appendNewDocument (b : Batch) (e : Event) (p : Path) : Except FlushError (Batch × UpsertOutcome) :=
  match s.tools.buildContentForWrite e with
  | .error err => .error (.content err)
  | .ok doc =>
    .ok (b.set p (some (appendYAMLDocument ((s.current b p).getD []) doc)), .created)

def placeNewDocument (b : Batch) (e : Event) (placement : PlacementResult) :
    Except FlushError (Batch × UpsertOutcome) :=
  if placement.append then s.appendNewDocument b e placement.path
  else if (s.contentByPath.lookup placement.path).isNone then
    if (s.current b placement.path).isSome && (s.tools.isSensitive e.identifier ||
        ((b.coldBundles.lookup placement.path).getD []).any ColdBundleMember.sensitive) then
      .ok (b, .skippedUnsafe)
    else s.writeColdBundleMember b e placement.path
  else s.writeWholeFile b e placement.path

def stripNamespace (inherited : Bool) (o : Object) : Object :=
  if inherited then { o with ns := "" } else o

def placementRequest (e : Event) : PlacementRequest :=
  ⟨e.identifier, e.object.elim "" Object.kind, s.tools.isSensitive e.identifier, s.writeSubdir⟩

def withEntry (b : Batch) (placement : PlacementResult) : Batch :=
  match placement.kustomization with
  | some k => s.appendKustomizationResource b k placement.path
  | none => b

def placedEvent (e : Event) (placement : PlacementResult) : Event :=
  { e with object := e.object.map (stripNamespace placement.namespaceInherited) }

def createNew (b : Batch) (e : Event) : Except FlushError (Batch × UpsertOutcome) :=
  match locateNew s.store s.policy (s.placementRequest e) with
  | .error _ => .ok (b, .skippedUnsafe)
  | .ok placement =>
    match s.placeNewDocument (s.withEntry b placement) (placedEvent e placement) placement with
    | .error err => .error err
    | .ok (b, outcome) =>
      if !outcome.wroteBytes then .ok (b, outcome)
      else
        let b := { b with putToKustomize := b.putToKustomize || placement.kustomization.isSome }
        match e.object with
        | none => .ok (b, outcome)
        | some live =>
          let intent := s.intentFor live placement.path false
          .ok (b.intend (if s.tools.isSensitive e.identifier then
            { intent with unchecked := true, desired := none } else intent), outcome)

/-! ## 6. Editing -/

def rawManifestID (id : Identity) (dm : DocumentModel) : Identity :=
  if dm.namespaceInherited then { id with ns := "" } else id

def overlayAuthorKustomization (p : Path) : Option Path :=
  if s.writeSubdir = [] ∨ pathWithin p s.writeSubdir then none
  else ((s.store.kusts.lookup s.writeSubdir).filter (fun k => !k.unsupported)).map KustomizationDoc.path

/-- `plan_flush.go`, `patchExisting` once the document is found. -/
def patchDocument (b : Batch) (live : Object) (p : Path) (cur : Content) (i : Nat)
    (dm : DocumentModel) (edited : Option Node) (edits : List OverrideEdit) :
    Batch × UpsertOutcome :=
  let st := b.put p (editDocument cur i (fun _ => edited))
  let routed := s.applyOverrideEdits st.1 edits
  let updated := st.2 || routed.2
  let b := { routed.1 with putToKustomize := routed.1.putToKustomize || dm.rendered.isSome }
  (if updated || dm.overrides then b.intend (s.intentFor live p dm.overrides) else b,
    if updated then .updated else .noChange)

def patchExisting (b : Batch) (live : Object) (p : Path) (id : Identity) (dm : DocumentModel) :
    Except FlushError (Batch × UpsertOutcome) :=
  match s.current b p with
  | none => .ok (b, .noChange)
  | some cur =>
    match currentDocIndex p cur (rawManifestID id dm) with
    | none => .ok (b, .noChange)
    | some i =>
      match cur[i]? with
      | some (.node n) =>
        match s.tools.editInPlace n dm (stripNamespace dm.namespaceInherited live)
            (s.overlayAuthorKustomization p) with
        | .error kind => .error (.refused [⟨kind, p, 0⟩])
        | .ok (edited, edits) => .ok (s.patchDocument b live p cur i dm edited edits)
      | _ => .ok (b, .noChange)

def rewriteSensitive (b : Batch) (e : Event) (live : Object) (p : Path) :
    Except FlushError (Batch × UpsertOutcome) :=
  match s.writeWholeFile b e p with
  | .error err => .error err
  | .ok (b, outcome) =>
    .ok (if outcome.wroteBytes then
        b.intend { s.intentFor live p false with unchecked := true, desired := none }
      else b, outcome)

def applyUpsert (b : Batch) (e : Event) : Except FlushError (Batch × UpsertOutcome) :=
  match e.object, manifestIdentity e.object with
  | some live, some id =>
    match s.store.byManifestIdentity id with
    | none => s.createNew b e
    | some dm =>
      if s.tools.isSensitive e.identifier then s.rewriteSensitive b e live dm.file
      else s.patchExisting b live dm.file id dm
  | _, _ => s.createNew b e

/-! ### Field patches -/

def fieldPatchIntent (a : PlanAction) (governed : Bool) : WriteIntent :=
  { sourcePath := a.file, kind := a.identity.kind, name := a.identity.name, unchecked := true,
    governed := governed }

def replicaEdit (dm : DocumentModel) (a : FieldAssignment) : Option OverrideEdit :=
  match a.path, a.value, dm.replicas with
  | ["spec", "replicas"], .whole n, some entry =>
    some ⟨entry.source, false, entry.index, entry.name, .count n⟩
  | _, _, _ => none

def routeGovernedFieldAssignments (b : Batch) (dm : DocumentModel)
    (assignments : List FieldAssignment) : Batch × List FieldAssignment :=
  assignments.foldl (fun st a =>
    match replicaEdit dm a with
    | some edit => ((s.applyOverrideEdits st.1 [edit]).1, st.2)
    | none => (st.1, st.2 ++ [a])) (b, [])

def patchFieldsAt (b : Batch) (a : PlanAction) (assignments : List FieldAssignment)
    (governed : Bool) : Batch :=
  match s.current b a.file with
  | none => b
  | some cur =>
    match currentDocIndex a.file cur a.identity with
    | none => b
    | some i =>
      match editDocument cur i (fun n => s.tools.patchFields n assignments) with
      | none => b
      | some c =>
        let b := b.set a.file (some c)
        if governed then b else b.intend (fieldPatchIntent a false)

def applyFieldPatch (b : Batch) (e : Event) (assignments : List FieldAssignment) : Batch :=
  match s.store.planDelete e.identifier with
  | none => b
  | some a =>
    match (s.store.byManifestIdentity a.identity).filter DocumentModel.overrides with
    | none => s.patchFieldsAt b a assignments false
    | some dm =>
      let routed := s.routeGovernedFieldAssignments b dm assignments
      let b := ({ routed.1 with putToKustomize := true } : Batch).intend (fieldPatchIntent a true)
      if routed.2 = [] then b else s.patchFieldsAt b a routed.2 true

/-! ## 7. Deleting -/

structure DeleteTarget where
  file : Path
  id : Identity
  deriving DecidableEq, Repr

def resolveDelete (e : Event) : Option DeleteTarget :=
  match (manifestIdentity e.object).bind s.store.byManifestIdentity with
  | some dm => some ⟨dm.file, rawManifestID dm.identity dm⟩
  | none =>
    (s.store.planDelete e.identifier).map (fun a =>
      ⟨a.file, (s.store.byManifestIdentity a.identity).elim a.identity (rawManifestID a.identity)⟩)

def kustomizationsListing (p : Path) : List (Path × Path) :=
  (sortPaths s.store.kusts.keys).flatMap (fun dir =>
    match s.store.kusts.lookup dir with
    | none => []
    | some info =>
      if info.unsupported then []
      else (info.resources.filter (fun entry => pathJoin (pathDir info.path) entry = p)).map
        (fun entry => (info.path, entry)))

def dropKustomizationResource (b : Batch) (p : Path) : Batch :=
  (s.kustomizationsListing p).foldl
    (fun b listing => (s.editKustomizationAt b listing.1 (removeResource listing.2)).1) b

def inheritedDeletePatchName (id : Identity) : Path :=
  id.kind.toList.map Char.toLower ++ '-' :: (id.name.toList ++ "-delete.yaml".toList)

def inheritedDeletePatchDocument (id : Identity) : Document :=
  .node { identity := id, body := "$patch: delete" }

def removedIntent (t : DeleteTarget) : WriteIntent :=
  { sourcePath := t.file, kind := t.id.kind, name := t.id.name, removed := true }

def inheritedDeletePatchPath (authorInto : Path) (id : Identity) : Path :=
  cleanSlash (pathJoin (pathDir authorInto) (inheritedDeletePatchName id))

def authorInheritedDelete (b : Batch) (t : DeleteTarget) (authorInto : Path) : Batch :=
  let patchPath := inheritedDeletePatchPath authorInto t.id
  let want : Content := [inheritedDeletePatchDocument t.id]
  if (s.current b patchPath).isSome && decide (s.current b patchPath ≠ some want) then b
  else
    let b := b.set patchPath (some want)
    let b := (s.editKustomizationAt b authorInto (appendPatch (inheritedDeletePatchName t.id))).1
    { b.intend (removedIntent t) with putToKustomize := true }

/-- `plan_flush.go`, `applyDelete` once the document is found, in a file the target may write. -/
def deleteAt (b : Batch) (t : DeleteTarget) (cur : Content) (i : Nat) : Batch :=
  let b := b.intend (removedIntent t)
  let listed := decide (s.kustomizationsListing t.file ≠ [])
  let b := { b with putToKustomize := b.putToKustomize || listed }
  match deleteDocument cur i with
  | some rest => b.set t.file (some rest)
  | none => s.dropKustomizationResource (b.set t.file none) t.file

def applyDelete (b : Batch) (e : Event) : Batch :=
  if !s.pruneMode.orDefault.appliesEventDeletes then b
  else match s.resolveDelete e with
    | none => b
    | some t =>
      match s.current b t.file with
      | none => b
      | some cur =>
        match currentDocIndex t.file cur t.id with
        | none => b
        | some i =>
          match s.overlayAuthorKustomization t.file with
          | some authorInto => s.authorInheritedDelete b t authorInto
          | none => s.deleteAt b t cur i

def dropDocument (b : Batch) (p : Path) (id : Identity) : Batch :=
  match s.current b p with
  | none => b
  | some cur =>
    match currentDocIndex p cur id with
    | none => b
    | some i => b.set p (deleteDocument cur i)

/-! ## 8. Whole batches -/

def applyEvent (b : Batch) (e : Event) : Except FlushError Batch :=
  match e.fieldPatch with
  | some assignments => .ok (s.applyFieldPatch b e assignments)
  | none =>
    if e.delete then .ok (s.applyDelete b e)
    else (s.applyUpsert b e).map Prod.fst

def applyEvents (b : Batch) (events : List Event) : Except FlushError Batch :=
  events.foldlM s.applyEvent b

/-- `resync_flush.go`, `eventForDesired`; a malformed entry is skipped. -/
def desiredEvents (desired : List DesiredResource) : List Event :=
  desired.filterMap (fun dr => dr.object.map (fun o => { identifier := dr.resource, object := some o }))

/-- `resync_flush.go`, `applyResyncPlan`: the upserts, then the drops. -/
def applyUpserts (b : Batch) (desired : List DesiredResource) : Except FlushError Batch :=
  (desiredEvents desired).foldlM (fun b e => (s.applyUpsert b e).map Prod.fst) b

def dropAll (b : Batch) (drops : List PlanAction) : Batch :=
  drops.foldl (fun b a => s.dropDocument b a.file a.identity) b

def applyResyncPlan (b : Batch) (desired : List DesiredResource) (drops : List PlanAction) :
    Except FlushError Batch :=
  (s.applyUpserts b desired).map (fun b => s.dropAll b drops)

/-- The two kinds of work a batch is asked to do. -/
inductive Work where
  | events (events : List Event)
  | resync (desired : List DesiredResource) (inScope : ResourceIdentifier → Bool)

/-- `flushEventsToWorktree` and `applyResyncToWorktree` between the acceptance gate and `flush`. -/
def perform : Work → Except FlushError Batch
  | .events events => s.applyEvents {} events
  | .resync desired inScope =>
    s.applyResyncPlan {} desired
      (s.store.dropOrphans desired inScope s.pruneMode.orDefault.sweepsOrphans)

/-! ## 9. Flushing -/

def planned (b : Batch) : List Path :=
  (sortPaths b.buffers.keys).filter (fun p => s.dirty b p || s.deleted b p)

/-- The path itself is asked about, as a file. -/
def ignoreShadowPrecondition (b : Batch) : List AcceptanceIssue :=
  ((s.planned b).filter (fun p =>
    s.store.ignore.matches s.tools.nameMatch (relUnder s.writeSubdir p) false)).map
    (⟨.ignoreShadowsManaged, ·, 0⟩)

def writePathEscapesScope (p : Path) : Bool :=
  decide (p = [] ∨ p.head? = some '/') || escapes (pathClean p) ||
    (decide (s.writeSubdir ≠ []) && !pathWithin (pathClean p) s.writeSubdir)

def pathScopePrecondition (b : Batch) : List AcceptanceIssue :=
  ((s.planned b).filter s.writePathEscapesScope).map (⟨.writeEscapesScope, ·, 0⟩)

def fanInPrecondition (b : Batch) : List AcceptanceIssue :=
  ((s.planned b).filter (fun p =>
    s.store.overridesAmbiguousAt p || s.store.reachedByMultipleRenderRoots p)).map
    (⟨.writeFanIn, ·, 0⟩)

def before : List FileContent :=
  sortFiles (s.contentByPath.entries.map (fun e => ⟨e.1, e.2⟩))

def files (b : Batch) : List FileContent :=
  (sortPaths (s.contentByPath.keys ++ b.buffers.keys).dedup).filterMap
    (fun p => (s.current b p).map (⟨p, ·⟩))

def renderPrecondition (b : Batch) : List AcceptanceIssue :=
  if !b.putToKustomize then []
  else (verifyBatchRenders s.tools.kustomize.render s.before (s.files b) b.intents).map
    (fun _ => ⟨.renderRefused, [], 0⟩)

def refusal (b : Batch) : List AcceptanceIssue :=
  if s.ignoreShadowPrecondition b ≠ [] then s.ignoreShadowPrecondition b
  else if s.pathScopePrecondition b ≠ [] then s.pathScopePrecondition b
  else if s.fanInPrecondition b ≠ [] then s.fanInPrecondition b
  else s.renderPrecondition b

def writeBuffer (b : Batch) (folder : Folder) (p : Path) : Folder :=
  match s.current b p with
  | some c => { folder with yaml := folder.yaml.insert p c }
  | none => { folder with yaml := folder.yaml.erase p }

def flush (b : Batch) (folder : Folder) : Except FlushError Folder :=
  if s.refusal b ≠ [] then .error (.refused (s.refusal b))
  else .ok ((s.planned b).foldl (s.writeBuffer b) folder)

end Setting

end GitopsReverser.Flush

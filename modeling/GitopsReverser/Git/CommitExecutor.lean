import GitopsReverser.Git.Worker

/-!
# CommitExecutor — the stages of applying one write

What `World.flush` answers is made of stages: the bootstrap files, one flush for each base folder
of the events (or the resync), and the commit message. Each stage works on the files the stage
before it left and can stop the write, which is then left as far as it got.
-/

namespace GitopsReverser.Git

variable {H T : Type}

/-- The stages, each with the files it leaves. A flush or a resync answers whether it changed
    anything, or nothing when it was refused or met an I/O error. -/
structure Stages (H T : Type) where
  /-- `ensureBootstrapTemplateInPath` for the path of an event. -/
  bootstrap : Event → T → T × Bool
  bootstrapTarget : PendingWrite H → T → T × Bool
  /-- `configureSecretEncryptionWriter`. -/
  encryptor : PendingWrite H → Bool
  /-- `refuseUnsafeWorktree`: the folder of a resync passes the gate. -/
  accepts : PendingWrite H → T → Bool
  flushEventsToWorktree : List (TargetKey × ResolvedTargetMetadata) → Path → List Event → T →
    T × Option Bool
  applyResyncToWorktree : PendingWrite H → T → T × Option Bool
  /-- `commitMetadata` renders. -/
  commitMetadata : PendingWrite H → Bool

variable (st : Stages H T)

def sortedBaseKeys (events : List Event) : List Path :=
  (events.map (fun e => sanitizePath e.path)).dedup.insertionSort (· ≤ ·)

def eventsOfBase (base : Path) (events : List Event) : List Event :=
  events.filter (fun e => sanitizePath e.path = base)

def Stages.bootstrapAll : List Event → T → T × Bool
  | [], files => (files, true)
  | e :: events, files =>
    match st.bootstrap e files with
    | (files', false) => (files', false)
    | (files', true) => bootstrapAll events files'

def Stages.flushBases (pw : PendingWrite H) : List Path → T → T × Option Bool
  | [], files => (files, some false)
  | base :: bases, files =>
    match st.flushEventsToWorktree pw.targets base (eventsOfBase base pw.events) files with
    | (files', none) => (files', none)
    | (files', some changed) =>
      match flushBases pw bases files' with
      | (files'', anyChanges) => (files'', anyChanges.map (changed || ·))

def Stages.applyPendingWriteEvents (pw : PendingWrite H) (files : T) : T × Option Bool :=
  match st.bootstrapAll pw.events files with
  | (files', false) => (files', none)
  | (files', true) => st.flushBases pw (sortedBaseKeys pw.events) files'

def Stages.staged (pw : PendingWrite H) : T × Option Bool → Flush T
  | (files, none) => .failed files
  | (files, some false) => .unchanged files
  | (files, some true) => if st.commitMetadata pw then .changed files else .failed files

/-- `executePendingWrite` and `executeResyncPendingWrite` up to the commit. -/
def Stages.flush (pw : PendingWrite H) (files : T) : Flush T :=
  match pw.kind with
  | .resync =>
    if st.accepts pw files = false then .failed files
    else match st.bootstrapTarget pw files with
      | (files', false) => .failed files'
      | (files', true) =>
        if st.encryptor pw = false then .failed files'
        else st.staged pw (st.applyResyncToWorktree pw files')
  | _ =>
    if st.encryptor pw = false then .failed files
    else st.staged pw (st.applyPendingWriteEvents pw files)

end GitopsReverser.Git

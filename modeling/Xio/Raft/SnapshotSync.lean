import Xio.Raft.Commit

/-!
# Raft.SnapshotSync — sending and installing snapshots

`handle_snapshot_sync.cc` for snapshots made of logical objects. The handler of the last object
releases the server lock while it waits for the commit thread, so the installation takes two
steps: `handleInstallSnapshotReq` parks the snapshot in `applyingSnapshots`, and
`finishSnapshot` does the rest once the lock is back.
-/

namespace Xio
namespace Raft

/-- What a snapshot response does to its peer. -/
def Peer.onInstallSnapshotResp (resp : RespMsg) (p : Peer) : Peer :=
  if resp.accepted then
    match p.snpSyncCtx with
    | none => p
    | some ctx =>
      if resp.snapshotDone then
        { p with
          nextLogIdx := ctx.snapshot.lastLogIdx + 1
          matchedIdx := ctx.snapshot.lastLogIdx
          snpSyncCtx := none
          snapshotSyncIsNeeded := false }
      else { p with snpSyncCtx := some { ctx with offset := resp.nextIdx } }
  else { p with nextLogIdx := resp.nextIdx, snpSyncCtx := none }

namespace RaftServer

variable (s : RaftServer)

/-! ## Sender -/

/-- The context that `create_sync_snapshot_req` works with, `none` where the server exits. A
context that has not sent its first object yet, or that timed out, is replaced. -/
def syncContext (env : Env) (p : Peer) (lastLogIdx : Nat) : Option SnapshotSyncCtx :=
  let fresh : Option SnapshotSyncCtx :=
    match s.lastSnapshot with
    | some snp => if snp.lastLogIdx < lastLogIdx then none else some ⟨snp, 0⟩
    | none => none
  match p.snpSyncCtx with
  | some ctx => if env.timedOut ∨ ctx.offset = 0 then fresh else some ctx
  | none => fresh

def createSyncSnapshotReq (env : Env) (p : Peer) (lastLogIdx : Nat) : Option (Peer × ReqMsg) :=
  match s.syncContext env p lastLogIdx with
  | none => none
  | some ctx =>
    some ({ p with snpSyncCtx := some ctx },
      { term := s.state.term
        src := s.id
        dst := p.id
        lastLogTerm := ctx.snapshot.lastLogTerm
        lastLogIdx := ctx.snapshot.lastLogIdx
        commitIdx := s.quickCommitIndex
        body := .installSnapshot (some ⟨ctx.snapshot, ctx.offset, env.lastObject⟩) })

/-- The response counts for the context that the peer has now. -/
def handleInstallSnapshotResp (resp : RespMsg) : RaftServer :=
  s.updatePeer resp.src (Peer.onInstallSnapshotResp resp)

/-! ## Receiver -/

/-- The role of a server that hears from a leader of its own term. -/
def followLeader (req : ReqMsg) : RaftServer :=
  if req.term = s.state.term ∧ s.state.catchingUp = false then
    if s.role = .candidate then s.becomeFollower else s.restartElectionTimer
  else s

@[simps] def startReceiving : RaftServer :=
  { s with
    state := { s.state with receivingSnapshot := true }
    savedState :=
      if s.state.receivingSnapshot then s.savedState
      else { s.state with receivingSnapshot := true } }

@[simps] def parkInstall (pending : PendingInstall) : RaftServer :=
  { s with applyingSnapshots := pending :: s.applyingSnapshots }

/-- What `handle_install_snapshot_req` does with a request that it does not refuse outright. -/
def receiveObject (env : Env) (resp : RespMsg) (obj : SnapshotSyncReq) :
    RaftServer × Option RespMsg :=
  if obj.snapshot.lastLogIdx ≤ s.quickCommitIndex then
    (s, some { resp with snapshotDone := true })
  else if env.refused then (s, some resp)
  else if obj.done then
    (s.startReceiving.parkInstall ⟨obj.snapshot, resp.term, resp.dst, env.nextObject⟩, none)
  else (s.startReceiving, some (resp.accept env.nextObject))

/-- `handle_install_snapshot_req` up to the release of the lock: the response to the last
object of a snapshot is not sent before the snapshot is applied. -/
def handleInstallSnapshotReq (env : Env) (req : ReqMsg) (sync : Option SnapshotSyncReq) :
    Option (RaftServer × Option RespMsg) :=
  if req.term = s.state.term ∧ s.state.catchingUp = false ∧ s.role = .leader then none
  else
    let s₁ := s.followLeader req
    let resp : RespMsg :=
      { term := s₁.state.term
        type := .installSnapshot
        src := s₁.id
        dst := req.src
        nextIdx := s₁.log.nextSlot }
    if s₁.state.catchingUp = false ∧ req.term < s₁.state.term then some (s₁, some resp)
    else
      match sync with
      | none => some (s₁, some resp)
      | some obj => some (s₁.receiveObject env resp obj)

def installedResp (pending : PendingInstall) : RespMsg :=
  { term := pending.term
    type := .installSnapshot
    src := s.id
    dst := pending.sender
    nextIdx := pending.nextObject
    accepted := true
    snapshotDone := true }

/-- The lock is back: the receiving flag goes, and the log gives way to the snapshot. -/
@[simps] def compactTo (pending : PendingInstall) : RaftServer :=
  { s with
    applyingSnapshots := s.applyingSnapshots.erase pending
    state := { s.state with receivingSnapshot := false }
    savedState := { s.state with receivingSnapshot := false }
    log := s.log.compact pending.snapshot.lastLogIdx }

/-- All indices become the snapshot's, whatever they were. -/
@[simps] def assignIndices (snp : Snapshot) : RaftServer :=
  { s with
    precommitIndex := snp.lastLogIdx
    smCommitIndex := snp.lastLogIdx
    quickCommitIndex := snp.lastLogIdx
    laggingSmTargetIndex := snp.lastLogIdx
    savedState := s.state
    lastSnapshot := some { snp with lastConfig := s.config } }

/-- The rest of `handle_snapshot_sync_req`, after the lock was taken again; `none` where the
server exits because it is no follower any more. -/
def finishSnapshot (pending : PendingInstall) : Option (RaftServer × RespMsg) :=
  if s.role ≠ .follower then none
  else
    let snp := pending.snapshot
    let s₁ := s.compactTo pending
    let s₂ :=
      if s₁.config.logIdx < snp.lastConfig.logIdx then s₁.reconfigure snp.lastConfig else s₁
    some ((s₂.assignIndices snp).restartElectionTimer, s.installedResp pending)

end RaftServer
end Raft
end Xio

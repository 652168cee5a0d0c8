import Xio.Raft.ConfUpdate

/-!
# Raft.MembershipChange — one membership change at a time

`config_changing_` is meant to be set while the log holds a membership entry that is not applied.
The flag is checked when a server is asked to add or remove another, but not when the entry is
appended, which happens with the answer of that other server. It is cleared by whatever
configuration entry is applied, and by an RPC error of a joining server.

A tenure is a run of one leader together with the indices of the membership entries that it found
in its log or appended. `KeepsFlag` lists what must not happen for the flag to mean what it says.
-/

namespace Xio
namespace Raft
namespace RaftServer

variable {s t u : RaftServer} {input : Input}

/-- Answers and failures of servers that join or leave: the inputs that append a membership
entry. -/
def ChangesMembers : Input → Bool
  | .extResponse _ _ | .retryJoinSync | .peerError _ | .extError _ _ => true
  | _ => false

/-- Those inputs issue only operations that add or remove a server, and no other input does. -/
theorem changesMembers_iff {op : ConfOp} (h : IssuedBy s input op) :
    op.changesMembers = ChangesMembers input := by
  cases input with
  | setUserCtx ctx => rw [show op = .setUserCtx ctx from h]; rfl
  | updateSrvConfig srv => rw [show op = .updateSrvConfig srv from h]; rfl
  | flipLearnerFlag id flag => rw [show op = .flipLearnerFlag id flag from h]; rfl
  | setPriority id priority bc => rw [show op = .setPriority id priority from h]; rfl
  | response resp => rcases h with ⟨rfl, _⟩ | ⟨rfl, _⟩ <;> rfl
  | electionTimeout => rw [show op = .becomeLeader from h]; rfl
  | request req => rw [h.1]; rfl
  | extResponse resp fj => rcases h with ⟨sc, _, rfl⟩ | rfl <;> rfl
  | retryJoinSync => rcases h with ⟨sc, _, rfl⟩; rfl
  | peerError dst => rw [show op = .removeServer dst from h]; rfl
  | extError dst lv => rw [show op = .removeServer dst from h]; rfl
  | _ => cases h

/-- The step from `s` to `t` appended a membership entry, at the end of the log of `s`. -/
def AppendsMember (s t : RaftServer) (input : Input) : Bool :=
  ChangesMembers input && t.log.nextSlot != s.log.nextSlot

/-- On a server that leads, these are the steps that append the entry of an operation which adds or
removes a server. -/
theorem appendsMember_iff {env : Env} {o : Output} (hl : t.role = .leader)
    (hstep : s.step env input = some (t, o)) :
    AppendsMember s t input = true ↔ ∃ op term, IssuedBy s input op ∧ op.changesMembers = true ∧
      t.confView = op.apply term s.confView := by
  constructor
  · intro happ
    obtain ⟨hch, hgrow⟩ := Bool.and_eq_true_iff.mp happ
    have hlog : t.log ≠ s.log := by
      intro heq
      simp [heq] at hgrow
    cases step_confStep hstep with
    | kept h => exact absurd (congrArg ConfView.log (h hl).2) hlog
    | operation op term hiss _ h => exact ⟨op, term, hiss, (changesMembers_iff hiss).trans hch, h⟩
    | elected term hiss _ =>
      rw [← changesMembers_iff hiss] at hch
      cases hch
    | stored _ _ hin => rw [hin] at hch; cases hch
    | synced _ _ hin => rw [hin] at hch; cases hch
    | compacted _ _ hin => rw [hin] at hch; cases hch
    | applied _ _ _ _ _ h => exact absurd (congrArg ConfView.log h) hlog
    | appliedConf _ _ _ _ _ _ h => exact absurd (congrArg ConfView.log h) hlog
    | skipped _ _ h => exact absurd (congrArg ConfView.log h) hlog
    | editedInPlace _ _ _ _ h => exact absurd (congrArg ConfView.log h) hlog
    | joinFailed _ _ _ h => exact absurd (congrArg ConfView.log h) hlog
  · rintro ⟨op, term, hiss, hch, h⟩
    have hlog : t.log = s.log.append ⟨term, .conf (op.newConf s.confView)⟩ :=
      congrArg ConfView.log h
    rw [changesMembers_iff hiss] at hch
    simp [AppendsMember, hch, hlog]

/-- A server together with the indices of the membership entries in its log. -/
abbrev Tenure := RaftServer × List Nat

namespace Tenure

variable {x y : Tenure}

def next (x : Tenure) (a : Env × Input) : Option Tenure :=
  (x.1.next a).map (fun t =>
    (t, if AppendsMember x.1 t a.2 then x.1.log.nextSlot :: x.2 else x.2))

/-- Every membership entry is applied. -/
def AllApplied (x : Tenure) : Prop := ∀ i ∈ x.2, i ≤ x.1.smCommitIndex

instance (x : Tenure) : Decidable (AllApplied x) :=
  inferInstanceAs (Decidable (∀ i ∈ x.2, i ≤ x.1.smCommitIndex))

/-- The flag is set while a membership entry is not applied. -/
def FlagInv (x : Tenure) : Prop :=
  x.1.role = .leader → x.1.configChanging = false → AllApplied x

/-- A server that leads keeps the flag meaningful:
- no membership entry is appended while the flag is set
- a configuration is applied only if no membership entry follows it
- the flag is not cleared for a server that failed to join while a membership entry is pending
- a leader that is still catching up receives no log pack -/
def KeepsFlag (x : Tenure) : Input → Bool
  | .commitNext =>
    !(x.1.log.entryAt (x.1.smCommitIndex + 1)).any LogEntry.isConf
      || x.2.all (fun i => decide (i ≤ x.1.smCommitIndex + 1))
  | .extError _ leaving => if leaving then !x.1.configChanging else decide (AllApplied x)
  | .extResponse _ _ | .retryJoinSync => !x.1.configChanging
  | .peerError dst => !(x.1.findPeer dst).any Peer.leaveRequested || !x.1.configChanging
  | .request req =>
    match req.body with
    | .syncLog (some _) => !x.1.state.catchingUp
    | _ => true
  | _ => true

theorem next_eq_some {a : Env × Input} (h : next x a = some y) :
    (∃ o, x.1.step a.1 a.2 = some (y.1, o)) ∧
      y.2 = if AppendsMember x.1 y.1 a.2 then x.1.log.nextSlot :: x.2 else x.2 := by
  obtain ⟨t, ht, rfl⟩ := Option.map_eq_some_iff.mp h
  exact ⟨RaftServer.next_eq_some.mp ht, rfl⟩

theorem flag_clear_of_appends {x : Tenure} {t : RaftServer} {env : Env} {o : Output}
    (hk : KeepsFlag x input = true) (hstep : x.1.step env input = some (t, o))
    (happ : AppendsMember x.1 t input = true) : x.1.configChanging = false := by
  obtain ⟨hch, hgrow⟩ := Bool.and_eq_true_iff.mp happ
  cases input with
  | extResponse resp fj => simpa [KeepsFlag] using hk
  | retryJoinSync => simpa [KeepsFlag] using hk
  | peerError dst =>
    cases hstep
    unfold handlePeerErr at hgrow
    cases hp : x.1.findPeer dst with
    | none => simp [hp] at hgrow
    | some p =>
      simp only [hp] at hgrow
      cases hleave : p.leaveRequested with
      | true => simpa [KeepsFlag, hp, hleave] using hk
      | false =>
        rw [hleave, if_neg (by simp)] at hgrow
        split at hgrow <;> simp at hgrow
  | extError dst lv =>
    cases lv with
    | true => simpa [KeepsFlag] using hk
    | false =>
      -- a failed join appends nothing
      cases hstep
      rw [handleExtRespErr, if_neg (by simp)] at hgrow
      split at hgrow
      · simp [handleJoinRpcErr] at hgrow
      · simp at hgrow
  | _ => cases hch

theorem members_of_sameLog (hlog : y.1.log = x.1.log)
    (hy : y.2 = if AppendsMember x.1 y.1 input then x.1.log.nextSlot :: x.2 else x.2) :
    y.2 = x.2 := by
  rw [hy]
  simp [AppendsMember, hlog]

theorem members_of_input (hch : ChangesMembers input = false)
    (hy : y.2 = if AppendsMember x.1 y.1 input then x.1.log.nextSlot :: x.2 else x.2) :
    y.2 = x.2 := by
  rw [hy]
  simp [AppendsMember, hch]

theorem AllApplied.mono (h : AllApplied x) (hm : y.2 = x.2)
    (hle : x.1.smCommitIndex ≤ y.1.smCommitIndex) : AllApplied y := by
  intro i hi
  rw [hm] at hi
  exact (h i hi).trans hle

theorem step_flagInv {a : Env × Input} (hx : FlagInv x)
    (hk : x.1.role = .leader → KeepsFlag x a.2 = true) (h : next x a = some y) : FlagInv y := by
  obtain ⟨⟨o, hstep⟩, hy⟩ := next_eq_some h
  intro hl hflag
  -- where the flag stays and the applied index does not fall, no new member is unapplied
  have hstays {w : ConfView} (hview : y.1.confView = w) (hs : x.1.role = .leader)
      (hm : y.2 = x.2) (hf : w.changing = x.1.configChanging)
      (hle : x.1.smCommitIndex ≤ w.applied) : AllApplied y := by
    subst hview
    exact AllApplied.mono (hx hs (hf.symm.trans hflag)) hm hle
  have hsame {w : ConfView} (hview : y.1.confView = w) (hs : x.1.role = .leader)
      (hlog : w.log = x.1.log) : w.changing = x.1.configChanging →
        x.1.smCommitIndex ≤ w.applied → AllApplied y :=
    hstays hview hs (members_of_sameLog ((congrArg ConfView.log hview).trans hlog) hy)
  cases step_confStep hstep with
  | kept h => exact hsame (h hl).2 (h hl).1 rfl rfl le_rfl
  | stored req bufs hin _ hs hview =>
    exact hstays hview hs (members_of_input (hin ▸ rfl) hy) rfl le_rfl
  | operation op term hiss hr hview =>
    have hf : y.1.configChanging = (x.1.configChanging || op.records || op == .becomeLeader) :=
      congrArg ConfView.changing hview
    have hsm : y.1.smCommitIndex = x.1.smCommitIndex := congrArg ConfView.applied hview
    rw [hflag] at hf
    obtain ⟨hf', _⟩ := Bool.or_eq_false_iff.mp hf.symm
    obtain ⟨hclear, hrec⟩ := Bool.or_eq_false_iff.mp hf'
    -- an operation that does not set the flag changes no members
    have hch : ChangesMembers a.2 = false := by
      rw [← changesMembers_iff hiss]
      cases op with
      | addServer | removeServer => cases hrec
      | _ => rfl
    exact AllApplied.mono (hx (hr hl) hclear) (members_of_input hch hy) hsm.symm.le
  | elected term _ hview =>
    have hf : y.1.configChanging = true := by
      have := congrArg ConfView.changing hview
      simpa [confView, ConfOp.apply] using this
    cases hf ▸ hflag
  | applied e _ hr _ _ hview =>
    exact hsame hview (hr ▸ hl) rfl rfl (Nat.le_succ _)
  | appliedConf e c hin hr he hconf hview =>
    have hsm : y.1.smCommitIndex = x.1.smCommitIndex + 1 := congrArg ConfView.applied hview
    have hkeep := hk (hr ▸ hl)
    rw [hin] at hkeep
    have hbound : ∀ i ∈ x.2, i ≤ x.1.smCommitIndex + 1 := by
      simpa [KeepsFlag, he, LogEntry.isConf, hconf] using hkeep
    intro i hi
    rw [members_of_sameLog (congrArg ConfView.log hview) hy] at hi
    rw [hsm]
    exact hbound i hi
  | skipped _ hr hview => exact hsame hview (hr ▸ hl) rfl rfl (Nat.le_max_left _ _)
  | compacted ok k hin hr hview =>
    exact hstays hview (hr ▸ hl) (members_of_input (hin ▸ rfl) hy) rfl le_rfl
  | editedInPlace id priority _ hr hview => exact hsame hview (hr ▸ hl) rfl rfl le_rfl
  | joinFailed dst hin hr hview =>
    have hsm : y.1.smCommitIndex = x.1.smCommitIndex := congrArg ConfView.applied hview
    have hkeep := hk (hr ▸ hl)
    rw [hin] at hkeep
    have hall : AllApplied x := by simpa [KeepsFlag] using hkeep
    exact hall.mono (members_of_sameLog (congrArg ConfView.log hview) hy) hsm.symm.le
  | synced req pack hin hbody hr hcatch =>
    have hkeep := hk (hr ▸ hl)
    rw [hin] at hkeep
    simp [KeepsFlag, hbody, hcatch] at hkeep

/-- In every tenure whose steps keep the flag meaningful: whenever the flag is clear on the leader
every membership entry is applied, and so a membership entry is appended only when every earlier
one is applied. `members` are the membership entries that the server found in its log. -/
theorem one_change_at_a_time {s u t : RaftServer} {members ms : List Nat}
    {as : List (Env × Input)} {a : Env × Input} {o : Output}
    (hs : FlagInv (s, members))
    (hk : Runs.AllSteps next (fun x b => x.1.role = .leader → KeepsFlag x b.2 = true) (s, members)
      (as ++ [a]))
    (hu : Runs.run next (s, members) as = some (u, ms)) (hl : u.role = .leader)
    (hstep : u.step a.1 a.2 = some (t, o)) :
    (u.configChanging = false → AllApplied (u, ms)) ∧
      (AppendsMember u t a.2 = true → AllApplied (u, ms)) := by
  have hinv : FlagInv (u, ms) := by
    refine Runs.invariant_of_allSteps (I := FlagInv) ?_ hs hk.left hu
    intro x b y hx hP hy
    exact step_flagInv hx hP hy
  refine ⟨hinv hl, fun happ => hinv hl ?_⟩
  exact flag_clear_of_appends ((hk.suffix hu).1 hl) hstep happ

end Tenure

end RaftServer

/-! ## Two changes at once, and a flag that is cleared too early -/

def fromClient (body : ReqBody) : Env × RaftServer.Input :=
  ({}, .request
    { term := 0, src := 0, dst := 1, lastLogTerm := 0, lastLogIdx := 0, commitIdx := 0,
      body := body })

/-- Server `4` accepts the invitation, and server `3` the request to leave. -/
def joinAccepted : Env × RaftServer.Input :=
  ({}, .extResponse
    { term := 1, type := .joinCluster, src := 4, dst := 1, nextIdx := 1, accepted := true } true)

def leaveAccepted : Env × RaftServer.Input :=
  ({}, .extResponse
    { term := 1, type := .leaveCluster, src := 3, dst := 1, nextIdx := 2, accepted := true } false)

/-- Both requests are made before one of the answers arrives. -/
def addAndRemove : List (Env × RaftServer.Input) :=
  firstTenure ++ [fromClient (.addServer (some { id := 4 })), fromClient (.removeServer (some 3)),
    joinAccepted]

/-- A user context is set before the server is added, and its entry is applied first. -/
def contextAndAdd : List (Env × RaftServer.Input) :=
  firstTenure ++ [({}, .setUserCtx [7]), fromClient (.addServer (some { id := 4 })), joinAccepted,
    grantFromTwo 1 .appendEntries 3, ({}, .commitNext)]

/-- First run: with the entry of server `4` at index `2` not applied, the entry that removes server
`3` is appended at index `3`. Second run: the flag is clear while the entry of server `4` at
index `3` is not applied. -/
theorem two_changes_at_once :
    (Runs.run RaftServer.Tenure.next (RaftServer.fresh 1 {} threeServers, []) addAndRemove).map
        (fun x => (x.1.role, x.1.configChanging, x.1.smCommitIndex, x.2)) =
      some (.leader, true, 1, [2]) ∧
    (Runs.run RaftServer.Tenure.next (RaftServer.fresh 1 {} threeServers, [])
        (addAndRemove ++ [leaveAccepted])).map
        (fun x => (x.1.role, x.1.smCommitIndex, x.2)) = some (.leader, 1, [3, 2]) ∧
    (Runs.run RaftServer.Tenure.next (RaftServer.fresh 1 {} threeServers, []) contextAndAdd).map
        (fun x => (x.1.role, x.1.configChanging, x.1.smCommitIndex, x.2)) =
      some (.leader, false, 2, [3]) := by
  decide +kernel

/-- Server `3` is asked to leave after the entry of server `4` was applied. -/
def addThenRemove : List (Env × RaftServer.Input) :=
  firstTenure ++ [fromClient (.addServer (some { id := 4 })), joinAccepted,
    grantFromTwo 1 .appendEntries 3, ({}, .commitNext), fromClient (.removeServer (some 3))]

theorem addThenRemove_one_change :
    ∃ u t o, Runs.run RaftServer.Tenure.next (RaftServer.fresh 1 {} threeServers, [])
        addThenRemove = some (u, [2]) ∧
      u.role = .leader ∧ u.step leaveAccepted.1 leaveAccepted.2 = some (t, o) ∧
      RaftServer.AppendsMember u t leaveAccepted.2 = true ∧
      RaftServer.Tenure.AllApplied (u, [2]) := by
  have hobs : (Runs.run RaftServer.Tenure.next (RaftServer.fresh 1 {} threeServers, [])
      addThenRemove).map (fun x => (x.2, x.1.role, (x.1.step leaveAccepted.1 leaveAccepted.2).map
        (fun r => RaftServer.AppendsMember x.1 r.1 leaveAccepted.2))) =
      some ([2], .leader, some true) := by decide +kernel
  obtain ⟨⟨u, ms⟩, hu, heq⟩ := Option.map_eq_some_iff.mp hobs
  simp only [Prod.mk.injEq] at heq
  obtain ⟨rfl, hrole, happ⟩ := heq
  obtain ⟨⟨t, o⟩, hstep, happ'⟩ := Option.map_eq_some_iff.mp happ
  have hk : Runs.AllSteps RaftServer.Tenure.next
      (fun x b => x.1.role = .leader → RaftServer.Tenure.KeepsFlag x b.2 = true)
      (RaftServer.fresh 1 {} threeServers, []) (addThenRemove ++ [leaveAccepted]) := by
    decide +kernel
  have hflag : RaftServer.Tenure.FlagInv (RaftServer.fresh 1 {} threeServers, []) := by
    intro hl
    cases hl
  have hmain := RaftServer.Tenure.one_change_at_a_time hflag hk hu hrole hstep
  exact ⟨u, t, o, hu, hrole, hstep, happ', hmain.2 happ'⟩

end Raft
end Xio

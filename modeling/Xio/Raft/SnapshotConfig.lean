import Xio.Raft.Cluster

/-!
# Raft.SnapshotConfig — the configuration that a snapshot carries

A configuration entry names the index of the configuration before it. `snapshot_and_compact` follows
these links from the current configuration down to the index of the snapshot, as far as the log
still has the entries. Below the log's first index it takes the configuration of the previous
snapshot instead, and at the end of the links it keeps the first configuration, even if that one
lies above the snapshot.

The log that was ever written is `V`, of which the store has the part from its start index on.
-/

namespace Xio
namespace Raft

open Option

/-! ## Linked configurations -/

/-- Every configuration of the list has its own index, and the one of the configuration before it.
The list starts at index `i`, and the last configuration before it is at `prev`. -/
def Linked : Nat → Nat → List LogEntry → Prop
  | _, _, [] => True
  | i, prev, e :: es =>
    match e.conf? with
    | some c => c.logIdx = i ∧ c.prevLogIdx = prev ∧ Linked (i + 1) i es
    | none => Linked (i + 1) prev es

def confAt (V : List LogEntry) (i : Nat) : Option ClusterConfig :=
  if i = 0 then none else (V[i - 1]?).bind LogEntry.conf?

/-- The last of the known configurations at or below an index. -/
structure LastConf (V : List LogEntry) (Known : Nat → Prop) (k : Nat) (c : ClusterConfig) :
    Prop where
  found : confAt V c.logIdx = some c
  known : Known c.logIdx
  le : c.logIdx ≤ k
  last : ∀ i ≤ k, Known i → (confAt V i).isSome = true → i ≤ c.logIdx

/-- The first configuration of all, where the known ones are above an index. -/
structure FirstConf (V : List LogEntry) (Known : Nat → Prop) (k : Nat) (c : ClusterConfig) :
    Prop where
  found : confAt V c.logIdx = some c
  above : ∀ i, Known i → (confAt V i).isSome = true → k < i
  first : ∀ i, (confAt V i).isSome = true → c.logIdx ≤ i

/-- The configuration of a snapshot at an index. -/
def StoredConf (V : List LogEntry) (Known : Nat → Prop) (k : Nat) (c : ClusterConfig) : Prop :=
  LastConf V Known k c ∨ FirstConf V Known k c

/-- The whole history is known. -/
def Anywhere (_ : Nat) : Prop := True

variable {V : List LogEntry} {i k : Nat} {c : ClusterConfig}

theorem confAt_eq_some_iff :
    confAt V i = some c ↔ 0 < i ∧ (V[i - 1]?).bind LogEntry.conf? = some c := by
  unfold confAt
  split
  · next h => simp [h]
  · next h => simp [Nat.pos_of_ne_zero h]

theorem confAt_le_length (h : confAt V i = some c) : i ≤ V.length := by
  obtain ⟨e, he, -⟩ := bind_eq_some_iff.mp (confAt_eq_some_iff.mp h).2
  have hlt := (List.getElem?_eq_some_iff.mp he).1
  omega

/-- What a link says, in a list whose first entry is at index `n + 1`. -/
structure LinkedTo (V : List LogEntry) (n prev k : Nat) (c : ClusterConfig) : Prop where
  idx : c.logIdx = n + 1 + k
  least : prev ≤ c.prevLogIdx
  between : ∀ j < k, ((V[j]?).bind LogEntry.conf?).isSome = true → n + 1 + j ≤ c.prevLogIdx
  target : c.prevLogIdx = prev ∨
    ∃ j < k, c.prevLogIdx = n + 1 + j ∧ ((V[j]?).bind LogEntry.conf?).isSome = true

theorem LinkedTo.cons {e : LogEntry} {es : List LogEntry} {n prev prev' : Nat}
    (h : LinkedTo es (n + 1) prev' k c)
    (hprev : e.conf?.isSome = true ∧ prev' = n + 1 ∨ e.conf? = none ∧ prev' = prev)
    (hle : prev ≤ n) : LinkedTo (e :: es) n prev (k + 1) c := by
  have hleast := h.least
  refine ⟨by rw [h.idx]; omega, by omega, ?_, ?_⟩
  · intro j hj hsome
    cases j with
    | zero =>
      -- the entry itself, so it is one
      rcases hprev with ⟨-, rfl⟩ | ⟨hnone, -⟩
      · exact hleast
      · simp [hnone] at hsome
    | succ j =>
      have hbetween := h.between j (Nat.lt_of_succ_lt_succ hj) (by simpa using hsome)
      omega
  · rcases h.target with heq | ⟨j, hj, heq, hsome⟩
    · rcases hprev with ⟨hconf, rfl⟩ | ⟨-, rfl⟩
      · exact .inr ⟨0, Nat.succ_pos k, heq, by simpa using hconf⟩
      · exact .inl heq
    · exact .inr ⟨j + 1, Nat.succ_lt_succ hj, by omega, by simpa using hsome⟩

theorem Linked.linkedTo {n prev : Nat} (h : Linked (n + 1) prev V) (hle : prev ≤ n)
    (hc : (V[k]?).bind LogEntry.conf? = some c) : LinkedTo V n prev k c := by
  -- the position is counted from the front, where the links start
  induction V generalizing n prev k with
  | nil => simp at hc
  | cons e es ih =>
    unfold Linked at h
    cases hconf : e.conf? with
    | none =>
      rw [hconf] at h
      cases k with
      | zero => simp [hconf] at hc
      | succ k => exact (ih h (by omega) (by simpa using hc)).cons (.inr ⟨hconf, rfl⟩) hle
    | some d =>
      rw [hconf] at h
      obtain ⟨hidx, hprev, hrest⟩ := h
      cases k with
      | zero =>
        have hd : d = c := by simpa [hconf] using hc
        subst hd
        exact ⟨hidx, hprev.ge, fun j hj => absurd hj (Nat.not_lt_zero j), .inl hprev⟩
      | succ k =>
        exact (ih hrest le_rfl (by simpa using hc)).cons (.inl ⟨by simp [hconf], rfl⟩) hle

/-! ## One link of a whole log -/

section Links

variable (hlinked : Linked 1 0 V)
include hlinked

section

variable (hc : confAt V i = some c)
include hc

theorem confAt_linkedTo : 0 < i ∧ LinkedTo V 0 0 (i - 1) c := by
  obtain ⟨hpos, hget⟩ := confAt_eq_some_iff.mp hc
  exact ⟨hpos, hlinked.linkedTo (Nat.le_refl 0) hget⟩

theorem confAt_logIdx : c.logIdx = i := by
  obtain ⟨hpos, hlink⟩ := confAt_linkedTo hlinked hc
  rw [hlink.idx]
  omega

theorem prevLogIdx_lt : c.prevLogIdx < i := by
  obtain ⟨hpos, hlink⟩ := confAt_linkedTo hlinked hc
  rcases hlink.target with heq | ⟨j, hj, heq, -⟩ <;> omega

theorem exists_prev (hprev : 0 < c.prevLogIdx) : ∃ c', confAt V c.prevLogIdx = some c' := by
  obtain ⟨-, hlink⟩ := confAt_linkedTo hlinked hc
  rcases hlink.target with heq | ⟨j, -, heq, hsome⟩
  · omega
  · obtain ⟨c', hc'⟩ := isSome_iff_exists.mp hsome
    refine ⟨c', confAt_eq_some_iff.mpr ⟨hprev, ?_⟩⟩
    rwa [heq, show 0 + 1 + j - 1 = j by omega]

theorem le_prevLogIdx {j : Nat} (hj : (confAt V j).isSome = true) (hlt : j < i) :
    j ≤ c.prevLogIdx := by
  obtain ⟨-, hlink⟩ := confAt_linkedTo hlinked hc
  obtain ⟨c', hc'⟩ := isSome_iff_exists.mp hj
  obtain ⟨hpos, hget⟩ := confAt_eq_some_iff.mp hc'
  have hbetween := hlink.between (j - 1) (by omega) (hget ▸ rfl)
  omega

end

end Links

/-! ## The walk of `snapshot_and_compact` -/

/-- The store has the part of the log from its start index on. -/
structure LogStore.PartOf (l : LogStore) (V : List LogEntry) : Prop where
  start : l.startIndex ≤ V.length + 1
  entries : l.entries = V.drop (l.startIndex - 1)

theorem LogStore.PartOf.conf {l : LogStore} (h : l.PartOf V) (hi : l.startIndex ≤ i) :
    (l.entryAt i).bind LogEntry.conf? = confAt V i := by
  have hpos := l.start_pos
  have hindex : l.startIndex - 1 + (i - l.startIndex) = i - 1 := by omega
  unfold LogStore.entryAt confAt
  rw [if_neg (Nat.not_lt.mpr hi), if_neg (by omega), h.entries, List.getElem?_drop, hindex]

namespace RaftServer

variable {s : RaftServer}

/-- The loop of `snapshot_and_compact` goes on at this configuration. -/
def FollowsLink (s : RaftServer) (k : Nat) (c : ClusterConfig) : Prop :=
  k < c.logIdx ∧ s.log.startIndex ≤ c.prevLogIdx

instance (s : RaftServer) (k : Nat) (c : ClusterConfig) : Decidable (s.FollowsLink k c) :=
  inferInstanceAs (Decidable (_ ∧ _))

section Walk

variable (hlinked : Linked 1 0 V) (hpart : s.log.PartOf V)
include hpart

theorem snapshotConfig_succ (hgo : s.FollowsLink k c) {c' : ClusterConfig}
    (hc' : confAt V c.prevLogIdx = some c') (fuel : Nat) :
    s.snapshotConfig k (fuel + 1) c = s.snapshotConfig k fuel c' := by
  show (if s.FollowsLink k c then _ else _) = _
  rw [if_pos hgo, hpart.conf hgo.2, hc']

/-- What holds wherever a walk has come to that started at `c₀`: it went downwards through the
log, and passed no configuration at or below the index. -/
structure Walks (s : RaftServer) (V : List LogEntry) (c₀ : ClusterConfig) (k : Nat)
    (c : ClusterConfig) : Prop where
  found : confAt V c.logIdx = some c
  from_log : c = c₀ ∨ s.log.startIndex ≤ c.logIdx
  down : c.logIdx ≤ c₀.logIdx
  passed : ∀ i ≤ k, (confAt V i).isSome = true → i ≤ c.logIdx

include hlinked

omit hpart in
theorem Walks.prev {c₀ : ClusterConfig} (h : s.Walks V c₀ k c) (hgo : s.FollowsLink k c)
    {c' : ClusterConfig} (hc' : confAt V c.prevLogIdx = some c') : s.Walks V c₀ k c' := by
  have hidx := confAt_logIdx hlinked hc'
  have hlt := prevLogIdx_lt hlinked h.found
  have hdown := h.down
  refine ⟨by rw [hidx]; exact hc', .inr (by rw [hidx]; exact hgo.2), by omega, ?_⟩
  intro i hi hsome
  rw [hidx]
  exact le_prevLogIdx hlinked h.found hsome (hi.trans_lt hgo.1)

/-- The walk ends after at most as many links as there are entries above the start index, and more
fuel changes nothing. -/
theorem snapshotConfig_walks {c₀ : ClusterConfig} {fuel : Nat} (h : s.Walks V c₀ k c)
    (hfuel : c.logIdx ≤ s.log.startIndex + fuel) :
    s.Walks V c₀ k (s.snapshotConfig k fuel c) ∧ ¬ s.FollowsLink k (s.snapshotConfig k fuel c) ∧
      ∀ more, fuel ≤ more → s.snapshotConfig k more c = s.snapshotConfig k fuel c := by
  -- each link leads to a smaller index, which pays for the fuel
  induction fuel generalizing c with
  | zero =>
    have hlt := prevLogIdx_lt hlinked h.found
    have hstop : ¬ s.FollowsLink k c := fun hgo => by
      have := hgo.2
      omega
    refine ⟨h, hstop, fun more _ => ?_⟩
    cases more with
    | zero => rfl
    | succ more => exact if_neg hstop
  | succ fuel ih =>
    by_cases hgo : s.FollowsLink k c
    · obtain ⟨c', hc'⟩ := exists_prev hlinked h.found (s.log.start_pos.trans_le hgo.2)
      have hlt := prevLogIdx_lt hlinked h.found
      have hidx := confAt_logIdx hlinked hc'
      obtain ⟨hwalks, hstop, hmore⟩ := ih (h.prev hlinked hgo hc') (by omega)
      rw [snapshotConfig_succ hpart hgo hc' fuel]
      refine ⟨hwalks, hstop, fun more hle => ?_⟩
      cases more with
      | zero => omega
      | succ more =>
        rw [snapshotConfig_succ hpart hgo hc' more]
        exact hmore more (Nat.le_of_succ_le_succ hle)
    · have hsame (n : Nat) : s.snapshotConfig k (n + 1) c = c := if_neg hgo
      rw [hsame fuel]
      refine ⟨h, hgo, fun more hle => ?_⟩
      cases more with
      | zero => omega
      | succ more => exact hsame more

end Walk

/-! ## The configuration of the new snapshot -/

/-- The log has the configuration, the last snapshot covers it, or it is the current one. -/
def KnowsConf (s : RaftServer) (i : Nat) : Prop :=
  s.log.startIndex ≤ i ∨ (∃ snp ∈ s.lastSnapshot, i ≤ snp.lastLogIdx) ∨ i = s.config.logIdx

theorem Walks.lastConf (h : s.Walks V s.config k c) (hle : c.logIdx ≤ k) :
    LastConf V s.KnowsConf k c := by
  refine ⟨h.found, ?_, hle, fun i hi _ hsome => h.passed i hi hsome⟩
  rcases h.from_log with rfl | hlog
  · exact .inr (.inr rfl)
  · exact .inl hlog

section Stored

variable (hlinked : Linked 1 0 V)
include hlinked

theorem Walks.firstConf (h : s.Walks V s.config k c) (hlt : k < c.logIdx)
    (hprev : c.prevLogIdx = 0) : FirstConf V s.KnowsConf k c := by
  -- a configuration below this one would be linked to
  have hfirst : ∀ i, (confAt V i).isSome = true → c.logIdx ≤ i := by
    intro i hsome
    by_contra hbelow
    have hle := le_prevLogIdx hlinked h.found hsome (Nat.lt_of_not_le hbelow)
    obtain ⟨c', hc'⟩ := isSome_iff_exists.mp hsome
    have hpos := (confAt_eq_some_iff.mp hc').1
    omega
  exact ⟨h.found, fun i _ hsome => hlt.trans_le (hfirst i hsome), hfirst⟩

/-- The link leads below the log, so what is known there is known from the last snapshot. -/
theorem Walks.of_snapshot (h : s.Walks V s.config k c) (hlt : k < c.logIdx)
    (hstart : c.prevLogIdx < s.log.startIndex) {snp : Snapshot} (hsnp : snp ∈ s.lastSnapshot)
    (hidx : snp.lastLogIdx < k) (hconf : StoredConf V Anywhere snp.lastLogIdx snp.lastConfig) :
    StoredConf V s.KnowsConf k snp.lastConfig := by
  have hknown : ∀ i ≤ k, s.KnowsConf i → (confAt V i).isSome = true → i ≤ snp.lastLogIdx := by
    intro i hi hknows hsome
    rcases hknows with hlog | ⟨snp', hsnp', hle⟩ | hcur
    · have hle := le_prevLogIdx hlinked h.found hsome (hi.trans_lt hlt)
      omega
    · rwa [some.inj (hsnp.symm.trans hsnp')]
    · have hdown := h.down
      omega
  rcases hconf with hlast | hfirst
  · refine .inl ⟨hlast.found, .inr (.inl ⟨snp, hsnp, hlast.le⟩), ?_, ?_⟩
    · exact hlast.le.trans hidx.le
    · intro i hi hknows hsome
      exact hlast.last i (hknown i hi hknows hsome) trivial hsome
  · refine .inr ⟨hfirst.found, ?_, hfirst.first⟩
    intro i hknows hsome
    by_contra hle
    have hbelow := hknown i (Nat.le_of_not_lt hle) hknows hsome
    exact absurd (hfirst.above i trivial hsome) (Nat.not_lt.mpr hbelow)

end Stored

/-- The loop over the links ends, and the snapshot gets the last configuration at or below its
index that the server knows of. Where it knows of none, the first configuration is stored. -/
theorem newSnapshot_lastConfig {q : Nat} (hlinked : Linked 1 0 V) (hpart : s.log.PartOf V)
    (hcurrent : LastConf V Anywhere q s.config) (hk : k ≤ q)
    (hprevious : ∀ snp ∈ s.lastSnapshot, snp.lastLogIdx < k ∧
      StoredConf V Anywhere snp.lastLogIdx snp.lastConfig)
    (hnone : s.lastSnapshot = none → s.log.startIndex = 1) :
    (¬ s.FollowsLink k (s.snapshotConfig k s.log.entries.length s.config) ∧
      ∀ fuel, s.log.entries.length ≤ fuel →
        s.snapshotConfig k fuel s.config = s.snapshotConfig k s.log.entries.length s.config) ∧
    StoredConf V s.KnowsConf k (s.newSnapshot k).lastConfig := by
  have hbegin : s.Walks V s.config k s.config :=
    ⟨hcurrent.found, .inl rfl, le_rfl, fun i hi hsome =>
      hcurrent.last i (hi.trans hk) trivial hsome⟩
  have hfuel : s.config.logIdx ≤ s.log.startIndex + s.log.entries.length := by
    have hlen := confAt_le_length hcurrent.found
    rw [hpart.entries, List.length_drop]
    omega
  obtain ⟨hwalks, hstop, hmore⟩ := snapshotConfig_walks hlinked hpart hbegin hfuel
  refine ⟨⟨hstop, hmore⟩, ?_⟩
  dsimp only [newSnapshot]
  generalize s.snapshotConfig k s.log.entries.length s.config = c at hwalks hstop ⊢
  split
  · next hbelow =>
    obtain ⟨hlt, hpos, hstart⟩ := hbelow
    cases hlast : s.lastSnapshot with
    | none =>
      have hone := hnone hlast
      omega
    | some snp =>
      obtain ⟨hidx, hconf⟩ := hprevious snp hlast
      exact hwalks.of_snapshot hlinked hlt hstart hlast hidx hconf
  · next hother =>
    by_cases hle : c.logIdx ≤ k
    · exact .inl (hwalks.lastConf hle)
    · -- neither in the log nor below it: there is no link
      have hlt := Nat.lt_of_not_le hle
      have hprev : c.prevLogIdx = 0 := by
        by_contra hne
        by_cases hstart : c.prevLogIdx < s.log.startIndex
        · exact hother ⟨hlt, Nat.pos_of_ne_zero hne, hstart⟩
        · exact hstop ⟨hlt, Nat.le_of_not_lt hstart⟩
      exact .inr (hwalks.firstConf hlinked hlt hprev)

end RaftServer

/-! ## Two logs -/

def confOf (i prev : Nat) : ClusterConfig :=
  { logIdx := i, prevLogIdx := prev, servers := [{ id := 1 }] }

/-- Three configurations, of which the first is compacted. -/
def linkedLog : List LogEntry :=
  [⟨1, .conf (confOf 1 0)⟩, ⟨1, .appLog [1]⟩, ⟨1, .conf (confOf 3 1)⟩, ⟨1, .appLog [2]⟩,
    ⟨2, .conf (confOf 5 3)⟩]

def compactedServer : RaftServer :=
  { RaftServer.fresh 1 {} (confOf 5 3) with
    log := ⟨3, linkedLog.drop 2, by decide⟩
    lastSnapshot := some ⟨2, 1, confOf 1 0⟩ }

theorem newSnapshot_between :
    StoredConf linkedLog compactedServer.KnowsConf 4 (compactedServer.newSnapshot 4).lastConfig ∧
      (compactedServer.newSnapshot 4).lastConfig = confOf 3 1 := by
  have hcurrent : LastConf linkedLog Anywhere 5 compactedServer.config :=
    ⟨by decide, trivial, by decide, fun i hi _ _ => hi⟩
  have hsnapshot : LastConf linkedLog Anywhere 2 (confOf 1 0) := by
    refine ⟨by decide, trivial, by decide, fun i hi _ => ?_⟩
    match i, hi with
    | 0, _ | 1, _ | 2, _ => decide
  refine ⟨(RaftServer.newSnapshot_lastConfig (V := linkedLog) (q := 5) ⟨rfl, rfl, rfl, rfl, rfl, rfl,
    trivial⟩ ⟨by decide, by decide⟩ hcurrent (by decide) ?_ (fun h => nomatch h)).2, by decide⟩
  rintro snp ⟨⟩
  exact ⟨by decide, .inl hsnapshot⟩

/-- The first configuration comes after two other entries. -/
def lateConfLog : List LogEntry :=
  [⟨1, .appLog [1]⟩, ⟨1, .appLog [2]⟩, ⟨1, .conf (confOf 3 0)⟩]

def lateConfServer : RaftServer :=
  { RaftServer.fresh 1 {} (confOf 3 0) with log := ⟨1, lateConfLog, Nat.one_pos⟩ }

/-- All entries are in the log and committed, and still the snapshot at `2` carries the
configuration of index `3`. -/
theorem newSnapshot_above : Linked 1 0 lateConfLog ∧ lateConfServer.log.PartOf lateConfLog ∧
      LastConf lateConfLog Anywhere 3 lateConfServer.config ∧
      lateConfServer.log.startIndex ≤ 2 ∧ lateConfServer.lastSnapshot = none ∧
      ¬ (lateConfServer.newSnapshot 2).lastConfig.logIdx ≤ 2 := by
  refine ⟨⟨rfl, rfl, trivial⟩, ⟨by decide, by decide⟩, ⟨by decide, trivial, by decide, ?_⟩, by decide,
    rfl, by decide⟩
  exact fun i hi _ _ => hi

end Raft
end Xio

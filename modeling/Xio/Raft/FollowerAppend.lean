import Xio.Raft.LogStep

/-!
# Raft.FollowerAppend — what an accepted append request makes of two logs

A request carries a slice of the leader's log and the term in front of it. The member compares
terms only, so what it can conclude about the entries rests on log matching: entries of one term
at one index stand over the same entries.

The walk through the received entries reads a compacted index as term `0`. A request that starts
below the log is refused unless its `last_log_idx` is `0`, which the check in front lets through
at any member. `append_spares_committed` therefore leaves out requests from index `1` on to a
member whose log starts later.

- `LogStore.receive_entryAt_of_lt`, `LogStore.receive_entryAt_of_le`: one walk through skip,
  overwrite and append
- `AppendSetting.appendLogOkay_spec`: what the check in front of the entries establishes
- `append_spares_committed`: the whole handler
-/

namespace Xio
namespace Raft

open List LogStore

/-! ## Two logs -/

namespace LogStore

/-- The logs do not hold different entries at the index. -/
def AgreeAt (l f : LogStore) (i : Nat) : Prop :=
  ∀ e e', l.entryAt i = some e → f.entryAt i = some e' → e = e'

/-- Entries of one term at one index stand over the same entries. -/
def Matching (l f : LogStore) : Prop :=
  ∀ i e e', l.entryAt i = some e → f.entryAt i = some e' → e.term = e'.term →
    ∀ j, j ≤ i → AgreeAt l f j

theorem agreeAt_iff {l f : LogStore} {i : Nat} :
    AgreeAt l f i ↔ ∀ e ∈ l.entryAt i, ∀ e' ∈ f.entryAt i, e = e' :=
  ⟨fun h e he e' he' => h e e' he he', fun h e e' he he' => h e he e' he'⟩

instance (l f : LogStore) (i : Nat) : Decidable (AgreeAt l f i) := decidable_of_iff' _ agreeAt_iff

theorem matching_iff {l f : LogStore} :
    Matching l f ↔ ∀ i, i < l.nextSlot → ∀ e ∈ l.entryAt i, ∀ e' ∈ f.entryAt i,
      e.term = e'.term → ∀ j, j ≤ i → AgreeAt l f j :=
  ⟨fun h i _ e he e' he' => h i e e' he he',
    fun h i e e' he he' => h i (entryAt_lt_nextSlot he) e he e' he'⟩

instance (l f : LogStore) : Decidable (Matching l f) := decidable_of_iff' _ matching_iff

/-- Skip, then overwrite and append: what `handle_append_entries` makes of the log. -/
def receive (f : LogStore) (first : Nat) (es : List LogEntry) : LogStore :=
  f.writeFrom (f.skipLoop first es).1 (f.skipLoop first es).2

variable {l f : LogStore} {first : Nat} {es : List LogEntry}

theorem agreeAt_zero (l f : LogStore) : AgreeAt l f 0 := by
  intro e e' he _
  have := (entryAt_eq_some_iff.mp he).1
  have := l.start_pos
  omega

theorem writeFrom_entryAt {i j : Nat} (hs : f.startIndex ≤ i) (hn : i ≤ f.nextSlot)
    (hne : es ≠ []) :
    (f.writeFrom i es).entryAt j = if j < i then f.entryAt j else es[j - i]? := by
  unfold nextSlot at hn
  unfold entryAt
  rw [writeFrom_startIndex hs, writeFrom_entries hs hn hne]
  by_cases hj : j < i
  · rw [if_pos hj]
    by_cases hlow : j < f.startIndex
    · rw [if_pos hlow, if_pos hlow]
    · rw [if_neg hlow, if_neg hlow, getElem?_append_left (by simp; omega),
        getElem?_take_of_lt (by omega)]
  · rw [if_neg hj, if_neg (by omega), getElem?_append_right (by simp; omega)]
    congr 1
    simp only [length_take]
    omega

theorem receive_entryAt_of_lt {k i : Nat} (hs : f.startIndex ≤ first)
    (hskip : f.skipLoop first es = (first + k, es.drop k)) (hn : first + k ≤ f.nextSlot)
    (hi : i < first + k) : (f.receive first es).entryAt i = f.entryAt i := by
  rw [receive, hskip]
  by_cases hrest : es.drop k = []
  · rw [hrest, writeFrom_nil]
  · rw [writeFrom_entryAt (by omega) hn hrest, if_pos hi]

theorem receive_entryAt_of_le {k i : Nat} (hs : f.startIndex ≤ first)
    (hskip : f.skipLoop first es = (first + k, es.drop k)) (hn : first + k ≤ f.nextSlot)
    (hk : k < es.length) (hi : first + k ≤ i) :
    (f.receive first es).entryAt i = es[i - first]? := by
  have hrest : es.drop k ≠ [] := fun h => absurd (drop_eq_nil_iff.mp h) (by omega)
  rw [receive, hskip, writeFrom_entryAt (by omega) hn hrest, if_neg (by omega), getElem?_drop]
  congr 1
  omega

theorem receive_of_length_le {k : Nat} (hskip : f.skipLoop first es = (first + k, es.drop k))
    (hk : es.length ≤ k) : f.receive first es = f := by
  rw [receive, hskip, drop_eq_nil_of_le hk, writeFrom_nil]

end LogStore

namespace RaftServer

variable {ldr s t : RaftServer} {req : ReqMsg} {es : List LogEntry}

/-- The request is about a slice of the leader's log. -/
structure BuiltFrom (ldr : RaftServer) (req : ReqMsg) (es : List LogEntry) : Prop where
  start : ldr.log.startIndex ≤ req.lastLogIdx + 1
  prevTerm : req.lastLogTerm = ldr.termForLog req.lastLogIdx
  slice : es <+: ldr.log.entries.drop (req.lastLogIdx + 1 - ldr.log.startIndex)
  commit : req.commitIdx ≤ ldr.quickCommitIndex

theorem BuiltFrom.entryAt (h : BuiltFrom ldr req es) {k : Nat} (hk : k < es.length) :
    ldr.log.entryAt (req.lastLogIdx + 1 + k) = es[k]? := by
  have hstart := h.start
  obtain ⟨rest, hrest⟩ := h.slice
  have hget : (es ++ rest)[k]? = es[k]? := getElem?_append_left hk
  rw [hrest, getElem?_drop] at hget
  rw [← hget, LogStore.entryAt, if_neg (by omega)]
  congr 1
  omega

/-- A member whose log holds what it committed, with a snapshot in place of what it dropped, and a
leader whose log has no other entries at those indices. -/
structure AppendSetting (ldr s : RaftServer) (req : ReqMsg) (es : List LogEntry) : Prop where
  applied : s.smCommitIndex ≤ s.quickCommitIndex
  held : s.quickCommitIndex < s.log.nextSlot
  covered : 1 < s.log.startIndex → ∃ snp, s.lastSnapshot = some snp ∧
    s.log.startIndex ≤ snp.lastLogIdx + 1
  taken : ∀ snp, s.lastSnapshot = some snp → snp.lastLogIdx ≤ s.quickCommitIndex
  agree : ∀ i, i ≤ s.quickCommitIndex → LogStore.AgreeAt ldr.log s.log i
  built : BuiltFrom ldr req es

/-- Where `term_for_log` finds a term: in the log, or in the snapshot below it. -/
theorem termForLog_cases (s : RaftServer) {i : Nat} (h : s.termForLog i ≠ 0) :
    (s.log.startIndex ≤ i ∧ ∃ e, s.log.entryAt i = some e ∧ e.term = s.termForLog i) ∨
      (i < s.log.startIndex ∧ ∃ snp, s.lastSnapshot = some snp ∧ snp.lastLogIdx = i) := by
  unfold termForLog at h ⊢
  by_cases hzero : i = 0
  · exact absurd (if_pos hzero) h
  rw [if_neg hzero] at h ⊢
  by_cases hstart : s.log.startIndex ≤ i
  · rw [if_pos hstart] at h ⊢
    exact .inl ⟨hstart, exists_entryAt_of_termAt_ne_zero h⟩
  · rw [if_neg hstart] at h
    refine .inr ⟨Nat.lt_of_not_le hstart, ?_⟩
    cases hsnp : s.lastSnapshot with
    | none =>
      rw [hsnp] at h
      exact absurd rfl h
    | some snp =>
      rw [hsnp] at h
      refine ⟨snp, rfl, ?_⟩
      by_contra hne
      exact h (if_neg (Ne.symm hne))

/-- The check in front of the entries: the request starts in the log or right behind it, and the
logs agree up to there. Only index `0` can lie further below the log. -/
theorem AppendSetting.appendLogOkay_spec (h : AppendSetting ldr s req es)
    (hmatch : Matching ldr.log s.log) (hokay : s.appendLogOkay req = true) :
    req.lastLogIdx < s.log.nextSlot ∧ (req.lastLogIdx = 0 ∨ s.log.startIndex ≤ req.lastLogIdx + 1) ∧
      ∀ i, i ≤ req.lastLogIdx → AgreeAt ldr.log s.log i := by
  have hcommitted (hle : req.lastLogIdx ≤ s.quickCommitIndex) :
      ∀ i, i ≤ req.lastLogIdx → AgreeAt ldr.log s.log i :=
    fun i hi => h.agree i (hi.trans hle)
  -- the snapshot reaches to the start of the log and is of what was committed
  have hsnapshot {snp : Snapshot} (hsnp : s.lastSnapshot = some snp)
      (hidx : snp.lastLogIdx = req.lastLogIdx) : req.lastLogIdx < s.log.nextSlot ∧
      (req.lastLogIdx = 0 ∨ s.log.startIndex ≤ req.lastLogIdx + 1) ∧
      ∀ i, i ≤ req.lastLogIdx → AgreeAt ldr.log s.log i := by
    have htaken := h.taken snp hsnp
    have hheld := h.held
    refine ⟨by omega, .inr ?_, hcommitted (by omega)⟩
    rcases Nat.lt_or_ge 1 s.log.startIndex with hlate | hearly
    · obtain ⟨snp', hsnp', hcover⟩ := h.covered hlate
      cases hsnp.symm.trans hsnp'
      omega
    · omega
  simp only [appendLogOkay, Bool.or_eq_true, beq_iff_eq, Bool.and_eq_true, bne_iff_ne, ne_eq,
    Option.any_eq_true] at hokay
  rcases hokay with (hzero | ⟨hne, hterm⟩) | ⟨snp, hsnp, hidx, _⟩
  · refine ⟨hzero ▸ s.log.nextSlot_pos, .inl hzero, fun i hi => ?_⟩
    obtain rfl : i = 0 := by omega
    exact agreeAt_zero _ _
  · have hlt : req.lastLogIdx < s.log.nextSlot := by
      by_contra hge
      exact hne (if_neg hge)
    rw [if_pos hlt] at hne hterm
    rcases s.termForLog_cases hne with ⟨hstart, e, he, heterm⟩ | ⟨_, snp, hsnp, hidx⟩
    · refine ⟨hlt, .inr (by omega), ?_⟩
      rw [h.built.prevTerm] at hterm
      rcases ldr.termForLog_cases (hterm ▸ hne) with ⟨_, e', he', heterm'⟩ | ⟨hbelow, _⟩
      · exact hmatch _ e' e he' he (heterm'.trans (hterm.trans heterm.symm))
      · -- the leader has dropped everything up to the request's index
        intro i hi e' _ he' _
        have := (entryAt_eq_some_iff.mp he').1
        omega
    · exact hsnapshot hsnp hidx
  · exact hsnapshot hsnp hidx

theorem writeEntries_log (s : RaftServer) (first : Nat) (es : List LogEntry) :
    (s.writeEntries first es).log = s.log.receive first es := by
  dsimp only [writeEntries, receive]
  split <;> rfl

/-- Where the walk ends: every skipped entry is one that the member has, and what it has in the
way of the next one is above its commit index. -/
structure WalkEnds (ldr s : RaftServer) (first : Nat) (es : List LogEntry) (k : Nat) : Prop where
  skip : s.log.skipLoop first es = (first + k, es.drop k)
  inLog : first + k ≤ s.log.nextSlot
  same : ∀ i, first ≤ i → i < first + k → LogStore.AgreeAt ldr.log s.log i
  above : k < es.length → s.quickCommitIndex < first + k

theorem AppendSetting.walkEnds (h : AppendSetting ldr s req es)
    (hmatch : Matching ldr.log s.log) (hn : req.lastLogIdx < s.log.nextSlot)
    (hs : s.log.startIndex ≤ req.lastLogIdx + 1) :
    ∃ k, WalkEnds ldr s (req.lastLogIdx + 1) es k := by
  obtain ⟨k, hk, hskip, hsame, hstop⟩ := skipLoop_spec s.log (req.lastLogIdx + 1) es
  have hin : req.lastLogIdx + 1 + k ≤ s.log.nextSlot := by
    cases k with
    | zero => exact hn
    | succ k =>
      have := (hsame k (Nat.lt_succ_self k)).1
      omega
  refine ⟨k, hskip, hin, ?_, ?_⟩
  · intro i hfirst hi e e' he he'
    obtain ⟨j, rfl⟩ := Nat.exists_eq_add_of_le hfirst
    obtain ⟨_, r, hr, hterm⟩ := hsame j (by omega)
    have hslice := h.built.entryAt (List.getElem?_eq_some_iff.mp hr).1
    -- the received entry is the leader's, and the member has its term
    cases (he.symm.trans hslice).trans hr
    have hown : e'.term = e.term := (termAt_of_entryAt he').symm.trans hterm
    exact hmatch _ e e' he he' hown.symm _ le_rfl e e' he he'
  · intro hlen
    rcases Nat.lt_or_eq_of_le hin with hlt | heq
    · by_contra hle
      have hr := getElem?_eq_getElem hlen
      have hheld : (s.log.entryAt (req.lastLogIdx + 1 + k)).isSome :=
        entryAt_isSome_iff.mpr ⟨by omega, hlt⟩
      obtain ⟨own, hown⟩ := Option.isSome_iff_exists.mp hheld
      have hagree := h.agree _ (Nat.le_of_not_lt hle) _ own ((h.built.entryAt hlen).trans hr) hown
      exact hstop _ hr hlt (hagree ▸ termAt_of_entryAt hown)
    · have := h.held
      omega

theorem WalkEnds.indices {first k : Nat} (h : WalkEnds ldr s first es k)
    (happ : s.smCommitIndex ≤ s.quickCommitIndex) :
    (s.writeEntries first es).quickCommitIndex = s.quickCommitIndex ∧
      (s.writeEntries first es).smCommitIndex = s.smCommitIndex := by
  rw [writeEntries, h.skip]
  dsimp only
  split
  · rename_i hroll
    have hlen : k < es.length := by
      have := hroll.2
      rw [Ne, drop_eq_nil_iff] at this
      omega
    have habove := h.above hlen
    constructor
    · simp only [storeReceived_quickCommitIndex, rollback_quickCommitIndex]
      rw [if_neg (by omega)]
    · simp only [storeReceived_smCommitIndex, rollback_smCommitIndex]
      rw [if_neg (by omega)]
  · exact ⟨rfl, rfl⟩

/-- What is written: nothing up to the commit index, and afterwards the logs agree. -/
theorem WalkEnds.written {last k : Nat} (h : WalkEnds ldr s (last + 1) es k)
    (hs : s.log.startIndex ≤ last + 1)
    (hslice : ∀ k, k < es.length → ldr.log.entryAt (last + 1 + k) = es[k]?)
    (hprev : ∀ i, i ≤ last → AgreeAt ldr.log s.log i) :
    (∀ i, i ≤ s.quickCommitIndex → (s.log.receive (last + 1) es).entryAt i = s.log.entryAt i) ∧
    ∀ i, i ≤ last + es.length → AgreeAt ldr.log (s.log.receive (last + 1) es) i := by
  have hkept : ∀ i, i < last + 1 + k → (s.log.receive (last + 1) es).entryAt i = s.log.entryAt i :=
    fun i hi => receive_entryAt_of_lt hs h.skip h.inLog hi
  rcases Nat.lt_or_ge k es.length with hlen | hlen
  · have habove := h.above hlen
    refine ⟨fun i hi => hkept i (by omega), fun i hi => ?_⟩
    rcases Nat.lt_or_ge i (last + 1 + k) with hlow | hhigh
    · rw [AgreeAt, hkept i hlow]
      rcases Nat.lt_or_ge last i with hafter | hbefore
      · exact h.same i hafter hlow
      · exact hprev i hbefore
    · -- a received entry, which is the leader's
      intro e e' he he'
      rw [receive_entryAt_of_le hs h.skip h.inLog hlen hhigh] at he'
      have hlead := hslice (i - (last + 1)) (by omega)
      rw [show last + 1 + (i - (last + 1)) = i by omega] at hlead
      exact Option.some.inj (he.symm.trans (hlead.trans he'))
  · rw [receive_of_length_le h.skip hlen]
    refine ⟨fun _ _ => rfl, fun i hi => ?_⟩
    rcases Nat.lt_or_ge last i with hafter | hbefore
    · exact h.same i hafter (by omega)
    · exact hprev i hbefore

theorem handleAppendEntries_resp_type {env : Env} {resp : RespMsg}
    (h : (s.handleAppendEntries env req es).2 = some resp) : resp.type = .appendEntries := by
  unfold handleAppendEntries at h
  split at h
  · cases h
  dsimp only at h
  split at h
  · cases h
  split at h
  · cases h
    rfl
  split at h
  · cases h
    rfl
  · cases h
    rfl

theorem writeEntries_nil_indices (s : RaftServer) (first : Nat) :
    (s.writeEntries first []).quickCommitIndex = s.quickCommitIndex ∧
      (s.writeEntries first []).smCommitIndex = s.smCommitIndex := by
  simp [writeEntries, skipLoop]

/-- **An accepted request spares what is committed.** For logs that match, no entry up to the
commit index is touched, neither commit index falls, and afterwards the log agrees with the
leader's up to the last index of the request. A request that begins at index `1` is covered if it
carries no entries or the member's log begins there, too. -/
theorem append_spares_committed {env : Env} {resp : RespMsg} (h : AppendSetting ldr s req es)
    (hmatch : LogStore.Matching ldr.log s.log)
    (hlow : es = [] ∨ req.lastLogIdx ≠ 0 ∨ s.log.startIndex = 1)
    (hres : s.handleAppendEntries env req es = (t, some resp)) (hacc : resp.accepted = true) :
    (∀ i, i ≤ s.quickCommitIndex → t.log.entryAt i = s.log.entryAt i) ∧
      s.quickCommitIndex ≤ t.quickCommitIndex ∧ s.smCommitIndex ≤ t.smCommitIndex ∧
      ∀ i, t.log.startIndex ≤ i → i ≤ req.lastLogIdx + es.length →
        LogStore.AgreeAt ldr.log t.log i := by
  have htype : resp.type = .appendEntries :=
    s.handleAppendEntries_resp_type (congrArg Prod.snd hres)
  rcases s.handleAppendEntries_log env req es with ⟨_, hsilent⟩ | ⟨_, _, hokay, hview, _⟩
  · -- an answer that confirms nothing
    have hquiet := hsilent.resp resp (congrArg Prod.snd hres)
    rw [RespMsg.confirms, hacc, htype] at hquiet
    cases hquiet
  obtain ⟨hn, hstart, hprev⟩ := h.appendLogOkay_spec hmatch hokay
  have hnew : (s.handleAppendEntries env req es).1 = t := congrArg Prod.fst hres
  rw [hnew, acceptEntries_logView] at hview
  have hlog : t.log = s.log.receive (req.lastLogIdx + 1) es :=
    (congrArg LogView.log hview).trans (s.writeEntries_log _ es)
  have hquick : t.quickCommitIndex = max (s.writeEntries (req.lastLogIdx + 1) es).quickCommitIndex
      (min req.commitIdx (req.lastLogIdx + es.length)) := congrArg LogView.quickCommitIndex hview
  have hsm : t.smCommitIndex = (s.writeEntries (req.lastLogIdx + 1) es).smCommitIndex :=
    congrArg LogView.smCommitIndex hview
  by_cases hes : es = []
  · subst hes
    obtain ⟨hq, hm⟩ := s.writeEntries_nil_indices (req.lastLogIdx + 1)
    rw [hlog, hquick, hsm, hq, hm]
    exact ⟨fun _ _ => rfl, Nat.le_max_left _ _, le_rfl, fun i _ hi => hprev i hi⟩
  · have hs : s.log.startIndex ≤ req.lastLogIdx + 1 := by
      rcases hlow.resolve_left hes with hpos | hone
      · exact hstart.resolve_left hpos
      · omega
    obtain ⟨k, hwalk⟩ := h.walkEnds hmatch hn hs
    obtain ⟨hq, hm⟩ := hwalk.indices h.applied
    obtain ⟨hkept, hagree⟩ := hwalk.written hs (fun k hk => h.built.entryAt hk) hprev
    rw [hlog, hquick, hsm, hq, hm]
    exact ⟨hkept, Nat.le_max_left _ _, le_rfl, fun i _ hi => hagree i hi⟩

end RaftServer

/-! ## One request that is in order and two that are not -/

def entryOf (term : Nat) (byte : UInt8) : LogEntry := ⟨term, .appLog [byte]⟩

def serverWith (id : Int) (log : LogStore) (committed : Nat) (snp : Option Snapshot) : RaftServer :=
  { id := id, config := { servers := [{ id := 1 }, { id := 2 }] }, log := log
    state := { term := 3 }, quickCommitIndex := committed, smCommitIndex := committed
    precommitIndex := log.nextSlot - 1, lastSnapshot := snp }

def logFrom (start : Nat) (h : 0 < start) (es : List LogEntry) : LogStore := ⟨start, es, h⟩

def threeEntryLeader : RaftServer :=
  serverWith 1 (logFrom 1 Nat.one_pos [entryOf 1 10, entryOf 1 11, entryOf 3 12]) 1 none

/-- Its third entry is of an old term. -/
def memberBehind : RaftServer :=
  serverWith 2 (logFrom 1 Nat.one_pos [entryOf 1 10, entryOf 1 11, entryOf 2 99]) 1 none

def lastTwoEntries : ReqMsg :=
  { term := 3, src := 1, dst := 2, lastLogTerm := 1, lastLogIdx := 1, commitIdx := 1
    body := .appendEntries [entryOf 1 11, entryOf 3 12] }

theorem lastTwoEntries_setting : threeEntryLeader.AppendSetting memberBehind lastTwoEntries
    [entryOf 1 11, entryOf 3 12] where
  applied := by decide
  held := by decide
  covered h := absurd h (by decide)
  taken snp h := by cases h
  agree := by decide
  built := ⟨by decide, by decide, by decide, by decide⟩

theorem lastTwoEntries_stored :
    ∃ t resp, memberBehind.handleAppendEntries {} lastTwoEntries [entryOf 1 11, entryOf 3 12] =
        (t, some resp) ∧ resp.accepted = true ∧ t.log.entryAt 1 = some (entryOf 1 10) ∧
      1 ≤ t.quickCommitIndex ∧ LogStore.AgreeAt threeEntryLeader.log t.log 3 := by
  obtain ⟨t, resp, hres, hacc⟩ : ∃ t resp, memberBehind.handleAppendEntries {} lastTwoEntries
      [entryOf 1 11, entryOf 3 12] = (t, some resp) ∧ resp.accepted = true :=
    ⟨_, _, rfl, by decide⟩
  obtain ⟨hkept, hquick, _, hagree⟩ := RaftServer.append_spares_committed lastTwoEntries_setting
    (by decide) (.inr (.inl (by decide))) hres hacc
  refine ⟨t, resp, hres, hacc, hkept 1 (by decide), hquick, hagree 3 ?_ (by decide)⟩
  have hlog := congrArg (fun r => r.1.log.startIndex) hres
  exact hlog.symm.le.trans (by decide)

/-- The member has an entry of another term below one of the leader's last term. -/
def memberUnmatched : RaftServer :=
  serverWith 2 (logFrom 1 Nat.one_pos [entryOf 1 10, entryOf 2 99, entryOf 3 12]) 1 none

def emptyAtThree : ReqMsg :=
  { term := 3, src := 1, dst := 2, lastLogTerm := 3, lastLogIdx := 3, commitIdx := 1
    body := .appendEntries [] }

/-- The member has applied two entries and dropped the first. -/
def memberCompacted : RaftServer :=
  serverWith 2 (logFrom 2 (by decide) [entryOf 1 11]) 2
    (some ⟨1, 1, { servers := [{ id := 1 }, { id := 2 }] }⟩)

def firstEntryAgain : ReqMsg :=
  { term := 3, src := 1, dst := 2, lastLogTerm := 0, lastLogIdx := 0, commitIdx := 0
    body := .appendEntries [entryOf 1 10] }

/-- Without log matching, the term in front of the entries says nothing about what lies below it.
And a request from the first index on is taken for a conflict by a member that has dropped that
index: it gives up an entry that it has applied and steps back with both commit indices. -/
theorem append_breaks_agreement : (threeEntryLeader.AppendSetting memberUnmatched emptyAtThree [] ∧
      ∃ t resp, memberUnmatched.handleAppendEntries {} emptyAtThree [] = (t, some resp) ∧
        resp.accepted = true ∧ t.log.startIndex = 1 ∧
        ¬ LogStore.AgreeAt threeEntryLeader.log t.log 2) ∧
    (threeEntryLeader.AppendSetting memberCompacted firstEntryAgain [entryOf 1 10] ∧
      LogStore.Matching threeEntryLeader.log memberCompacted.log ∧
      ∃ t resp, memberCompacted.handleAppendEntries {} firstEntryAgain [entryOf 1 10] =
          (t, some resp) ∧ resp.accepted = true ∧
        memberCompacted.log.entryAt 2 = some (entryOf 1 11) ∧ t.log.entryAt 2 = none ∧
        memberCompacted.quickCommitIndex = 2 ∧ t.quickCommitIndex = 0 ∧
        memberCompacted.smCommitIndex = 2 ∧ t.smCommitIndex = 0) := by
  refine ⟨⟨?_, _, _, rfl, by decide, by decide, by decide⟩,
    ?_, by decide, _, _, rfl, by decide, by decide, by decide, by decide, by decide, by decide,
    by decide⟩
  · exact ⟨by decide, by decide, fun h => absurd h (by decide), fun _ h => (by cases h), by decide,
      ⟨by decide, by decide, by decide, by decide⟩⟩
  · exact ⟨by decide, by decide, fun _ => ⟨_, rfl, by decide⟩, fun _ h => (by cases h; decide),
      by decide, ⟨by decide, by decide, by decide, by decide⟩⟩

end Raft
end Xio

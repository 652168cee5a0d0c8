import Xio.Lib.ReplicatedLog

/-!
# LeaderCompleteness — what a majority has acknowledged, later leaders start with

The index `i` of the log of term `t` is a key when its entry is of term `t` itself. Once a majority
has acknowledged the log of `t` up to a key, every leader of a later term has that much of it.

The invariant speaks of the indices that a majority may still come to acknowledge. There are fewer of
them as members leave the term, so it is enough to look at the moment of each vote.
-/

namespace ReplicatedLog

open Voting List Function

variable {S E : Type*} {τ : E → Nat} {M : Finset S} {x y : State S E} {t i : Nat}

/-- The `i`-th entry of the log of term `t` was written in term `t`. -/
def Key (τ : E → Nat) (x : State S E) (t i : Nat) : Prop :=
  ∃ e, 0 < i ∧ (x.llog t)[i - 1]? = some e ∧ τ e = t

/-- A majority has acknowledged the first `i` entries of the log of term `t`. -/
def Committed (M : Finset S) (x : State S E) (t i : Nat) : Prop :=
  ∃ Q, Majority M Q ∧ ∀ v ∈ Q, i ≤ x.ack t v

/-- A majority has acknowledged them or is free to do so. -/
def MayCommit (M : Finset S) (x : State S E) (t i : Nat) : Prop :=
  ∃ Q, Majority M Q ∧ ∀ v ∈ Q, i ≤ x.ack t v ∨ x.ballots.term v ≤ t

theorem Committed.mayCommit (h : Committed M x t i) : MayCommit M x t i := by
  obtain ⟨Q, hQ, hack⟩ := h
  exact ⟨Q, hQ, fun v hv => .inl (hack v hv)⟩

theorem Committed.mono (h : Committed M x t i) (hg : Grows x y) : Committed M y t i := by
  obtain ⟨Q, hQ, hack⟩ := h
  exact ⟨Q, hQ, fun v hv => (hack v hv).trans (hg.ack t v)⟩

theorem MayCommit.of_grows (h : MayCommit M y t i) (hg : Grows x y) : MayCommit M x t i := by
  obtain ⟨Q, hQ, hack⟩ := h
  refine ⟨Q, hQ, ?_⟩
  intro v hv
  rcases hg.late t v with heq | hle
  · rw [← heq]
    exact (hack v hv).imp_right (hg.ballots.term v).trans
  · exact .inr hle

theorem Grows.take_llog (hg : Grows x y) (ht : x.ballots.lead t ≠ none)
    (hi : i ≤ (x.llog t).length) : (y.llog t).take i = (x.llog t).take i := by
  obtain ⟨l, hl⟩ := hg.llog t ht
  rw [← hl, take_append_of_le_length hi]

theorem Key.of_grows (h : Key τ y t i) (hg : Grows x y) (ht : x.ballots.lead t ≠ none)
    (hi : i ≤ (x.llog t).length) : Key τ x t i := by
  obtain ⟨e, hpos, he, hterm⟩ := h
  obtain ⟨l, hl⟩ := hg.llog t ht
  rw [← hl, getElem?_append_left (by omega)] at he
  exact ⟨e, hpos, he, hterm⟩

theorem Key.mono (h : Key τ x t i) (hg : Grows x y) (ht : x.ballots.lead t ≠ none) :
    Key τ y t i := by
  obtain ⟨e, hpos, he, hterm⟩ := h
  exact ⟨e, hpos, getElem?_of_isPrefix (hg.llog t ht) he, hterm⟩

/-- `(x.llog t).take i` is a part of the log that may be committed and ends with a key. -/
structure Open (τ : E → Nat) (M : Finset S) (x : State S E) (t i : Nat) : Prop where
  key : Key τ x t i
  may : MayCommit M x t i

/-- Whoever has acknowledged such a part holds it, and votes only for candidates that hold it. -/
structure Complete (τ : E → Nat) (M : Finset S) (x : State S E) : Prop where
  held : ∀ t i v, Open τ M x t i → i ≤ x.ack t v → (x.llog t).take i <+: x.log v
  voted : ∀ t i u v c, Open τ M x t i → i ≤ x.ack t v → t < u → x.ballots.vote u v = some c →
    (x.llog t).take i <+: x.cand u c

section Votes

variable {t i : Nat}

theorem Open.lead_ne_none (h : Open τ M x t i) (hx : Sane τ M x) {v : S} (hi : i ≤ x.ack t v) :
    x.ballots.lead t ≠ none := by
  obtain ⟨_, hpos, _⟩ := h.key
  exact (hx.acked t v (hpos.trans_le hi)).1

/-- Among the voters of a later leader there is one that acknowledged. -/
theorem Complete.elected [DecidableEq S] (hc : Complete τ M x) (hx : Sane τ M x)
    (h : Open τ M x t i) {u : Nat} {c : S} (hu : t < u) (hlead : x.ballots.lead u = some c) :
    (x.llog t).take i <+: x.cand u c := by
  obtain ⟨A, hA, hvote⟩ := hx.sound.elected u c hlead
  obtain ⟨Q, hQ, hack⟩ := h.may
  obtain ⟨v, hvA, hvQ⟩ := hA.exists_common hQ
  have hv := hvote v hvA
  have hreached : u ≤ x.ballots.term v := hx.sound.voted u v (by rw [hv]; simp)
  rcases hack v hvQ with hle | hle
  · exact hc.voted t i u v c h hle hu hv
  · omega

theorem exists_concat_of_lastTerm {l : List E} (h : 0 < lastTerm τ l) :
    ∃ p e, l = p ++ [e] ∧ τ e = lastTerm τ l := by
  rcases eq_nil_or_concat' l with rfl | ⟨p, e, rfl⟩
  · exact absurd h (by simp [lastTerm])
  · exact ⟨p, e, rfl, by simp [lastTerm]⟩

theorem Key.le_lastTerm (h : Key τ x t i) (hx : Sane τ M x) {l : List E} (hl : Matches τ x l)
    (hpre : (x.llog t).take i <+: l) : t ≤ lastTerm τ l := by
  obtain ⟨e, hpos, he, hterm⟩ := h
  have hmem : e ∈ l := by
    refine hpre.subset (mem_of_getElem? (i := i - 1) ?_)
    rwa [getElem?_take_of_lt (by omega)]
  rcases eq_nil_or_concat' l with rfl | ⟨p, e', rfl⟩
  · exact absurd hmem (by simp)
  · obtain ⟨hlead, hsub⟩ := hl p e' prefix_rfl
    have hle := hx.llogTerm _ hlead e (hsub.subset hmem)
    rw [hterm] at hle
    simpa [lastTerm] using hle

/-- A candidate that is at least as up to date as a log with the part has the part as well. -/
theorem Complete.upToDate [DecidableEq S] (hc : Complete τ M x) (hx : Sane τ M x)
    (h : Open τ M x t i) (hlead : x.ballots.lead t ≠ none) {l l' : List E} (hl : Matches τ x l)
    (hl' : Matches τ x l') (hpre : (x.llog t).take i <+: l) (hup : UpToDate τ l' l) :
    (x.llog t).take i <+: l' := by
  have htpos : 0 < t := by
    obtain ⟨c, hc'⟩ := Option.ne_none_iff_exists'.mp hlead
    exact hx.sound.lead_pos hc'
  have hle := h.key.le_lastTerm hx hl hpre
  obtain ⟨p, e, rfl, he⟩ := exists_concat_of_lastTerm (htpos.trans_le hle)
  obtain ⟨_, hsub⟩ := hl p e prefix_rfl
  rcases hup with hlt | ⟨heq, hlen⟩
  · -- the candidate's last entry is of a term after the voter's, whose leader has the part
    obtain ⟨p', e', rfl, he'⟩ := exists_concat_of_lastTerm (l := l') (τ := τ) (by omega)
    obtain ⟨hlead', hsub'⟩ := hl' p' e' prefix_rfl
    obtain ⟨c, hc'⟩ := Option.ne_none_iff_exists'.mp hlead'
    have hcand := hc.elected hx h (u := τ e') (by omega) hc'
    refine hcand.trans (prefix_of_prefix_length_le (hx.start _ c hc') hsub' ?_)
    -- the candidate's last entry was written after that leader started
    by_contra hlt'
    have hshort : p' ++ [e'] <+: x.cand (τ e') c :=
      prefix_of_prefix_length_le hsub' (hx.start _ c hc') (by omega)
    have := hx.candTerm (τ e') c e' (hshort.subset (by simp))
    omega
  · obtain ⟨p', e', rfl, he'⟩ := exists_concat_of_lastTerm (l := l') (τ := τ) (by omega)
    obtain ⟨_, hsub'⟩ := hl' p' e' prefix_rfl
    have hterm : τ e' = τ e := by omega
    rw [hterm] at hsub'
    exact hpre.trans (prefix_of_prefix_length_le hsub hsub' hlen)

end Votes

/-! ## The invariant along steps -/

theorem Open.of_grows (h : Open τ M y t i) (hg : Grows x y) (hx : Sane τ M x) {v : S}
    (hi : i ≤ x.ack t v) : Open τ M x t i ∧ (y.llog t).take i = (x.llog t).take i := by
  have hlen := hi.trans (hx.ackLe t v)
  have hlead : x.ballots.lead t ≠ none := by
    obtain ⟨_, hpos, _⟩ := h.key
    exact (hx.acked t v (hpos.trans_le hi)).1
  exact ⟨⟨h.key.of_grows hg hlead hlen, h.may.of_grows hg⟩, hg.take_llog hlead hlen⟩

/-- The ballots do not change, and whoever acknowledges is still in the term. -/
theorem Complete.of_ack (hc : Complete τ M x) (hx : Sane τ M x) (hg : Grows x y)
    (hballots : y.ballots = x.ballots)
    (hheld : ∀ t i v, Open τ M y t i → i ≤ y.ack t v → (y.llog t).take i <+: y.log v) :
    Complete τ M y := by
  refine ⟨hheld, ?_⟩
  intro t i u v c hopen hi hu hvote
  rw [hballots] at hvote
  have hreached : u ≤ x.ballots.term v := hx.sound.voted u v (by rw [hvote]; simp)
  have hold : y.ack t v = x.ack t v := (hg.late t v).resolve_right (by omega)
  rw [hold] at hi
  obtain ⟨hopen', htake⟩ := hopen.of_grows hg hx hi
  rw [htake, hg.cand u c (hx.asked u v c hvote)]
  exact hc.voted t i u v c hopen' hi hu hvote

section Steps

variable [DecidableEq S] [DecidableEq E]

section

variable (hc : Complete τ M x) (hx : Sane τ M x)
include hc hx

theorem vote_complete {v : S} {t₀ : Nat} {choice : Option S} {leads : Bool}
    (hr : x.ballots.Reports v t₀ choice) (hv : Votes τ True x v t₀ choice)
    (hl : leads = true → (x.ballots.recordVote v t₀ choice).Elected M t₀ v) :
    Complete τ M (x.vote v t₀ choice leads) := by
  have hg := (Step.vote x v t₀ choice leads hr hv hl).grows hx
  obtain ⟨_, hvote, _⟩ := Ballots.record_spec hr leads
  obtain ⟨_, hown, hother, _⟩ := Ballots.recordVote_spec hr
  constructor
  · intro t i w hopen hi
    obtain ⟨hold, htake⟩ := hopen.of_grows hg hx (v := w) hi
    rw [htake]
    exact hc.held t i w hold hi
  · intro t i u w c hopen hi hu hvote'
    obtain ⟨hold, htake⟩ := hopen.of_grows hg hx (v := w) hi
    rw [htake]
    by_cases hnew : x.ballots.vote u w = some c
    · rw [hg.cand u c (hx.asked u w c hnew)]
      exact hc.voted t i u w c hold hi hu hnew
    · -- the vote is the one of this step
      have hsame : u = t₀ ∧ w = v := by
        by_contra hne
        rw [State.vote, hvote, hother u w (by tauto)] at hvote'
        exact hnew hvote'
      obtain ⟨rfl, rfl⟩ := hsame
      have hchoice : choice = some c := by
        rw [← hown, ← hvote', State.vote, hvote]
      have hnone : x.ballots.vote u w = none :=
        hr.vote.resolve_right (fun h => hnew (h.trans hchoice))
      have hpre := hc.held t i w hold hi
      rcases hv c hchoice hnone with ⟨rfl, hlt⟩ | ⟨hreached, hup⟩
      · have hcand : (x.vote c u choice leads).cand u c = x.log c := if_pos ⟨hlt, rfl, rfl⟩
        rwa [hcand]
      · rw [hg.cand u c hreached]
        exact hc.upToDate hx hold (hold.lead_ne_none hx hi) (hx.log w) (hx.cand u c) hpre
          (hup trivial)

theorem append_complete {c : S} {e : E} (hlead : x.ballots.lead (x.ballots.term c) = some c)
    (he : τ e = x.ballots.term c) : Complete τ M (x.append c e) := by
  have hstep : Step τ True M x (x.append c e) := .append x c e hlead he
  have hg := hstep.grows hx
  have hy := append_sane hx hlead he
  refine hc.of_ack hx hg rfl ?_
  intro t i w hopen hi
  by_cases hown : t = x.ballots.term c ∧ w = c
  · obtain ⟨rfl, rfl⟩ := hown
    rw [hy.leader w hlead]
    exact take_prefix _ _
  · have hi' : i ≤ x.ack t w := hi.trans (Nat.le_of_eq (if_neg hown))
    obtain ⟨hold, htake⟩ := hopen.of_grows hg hx hi'
    rw [htake]
    refine (hc.held t i w hold hi').trans ?_
    by_cases hw : w = c
    · subst hw
      simp only [State.append, update_self]
      exact prefix_append _ _
    · simp only [State.append, update_of_ne hw]
      exact prefix_rfl

theorem accept_complete {v : S} {n : Nat} (hlead : x.ballots.lead (x.ballots.term v) ≠ none)
    (hn : n ≤ (x.llog (x.ballots.term v)).length) : Complete τ M (x.accept v n) := by
  have hstep : Step τ True M x (x.accept v n) := .accept x v n hlead hn
  have hg := hstep.grows hx
  have hy := accept_sane hx hlead hn
  refine hc.of_ack hx hg rfl ?_
  intro t i w hopen hi
  by_cases hown : t = x.ballots.term v ∧ w = v
  · obtain ⟨rfl, rfl⟩ := hown
    exact (take_prefix_take_left hi).trans (hy.agrees w)
  · have hi' : i ≤ x.ack t w := hi.trans (Nat.le_of_eq (if_neg hown))
    obtain ⟨hold, htake⟩ := hopen.of_grows hg hx hi'
    have hpre := hc.held t i w hold hi'
    by_cases hw : w = v
    · subst hw
      simp only [State.accept, update_self]
      rcases follow_cases (x.llog (x.ballots.term w)) (x.log w) n with ⟨heq, _⟩ | ⟨heq, hnot⟩
      · rwa [heq]
      · -- the leader followed is a later one, so it has the part too
        rw [heq]
        obtain ⟨_, hpos, _⟩ := hold.key
        have hlater : t < x.ballots.term w :=
          Nat.lt_of_le_of_ne (hx.acked t w (hpos.trans_le hi')).2 (fun h => hown ⟨h, rfl⟩)
        obtain ⟨c, hc'⟩ := Option.ne_none_iff_exists'.mp hlead
        have hpart := (hc.elected hx hold hlater hc').trans (hx.start _ c hc')
        rcases prefix_or_prefix_of_prefix hpart (List.take_prefix n _) with hin | hin
        · exact hin
        · exact absurd (hin.trans hpre) hnot
    · simp only [State.accept, update_of_ne hw]
      exact hpre

theorem execution_complete (h : Relation.ReflTransGen (Step τ True M) x y) : Complete τ M y := by
  induction h with
  | refl => exact hc
  | tail hexec hstep ih =>
    have hsane := (execution_sane hx hexec).1
    cases hstep with
    | vote v t choice leads hr hv hl => exact vote_complete ih hsane hr hv hl
    | append c e hlead he => exact append_complete ih hsane hlead he
    | accept v n hlead hn => exact accept_complete ih hsane hlead hn

end

end Steps

/-! ## Chosen logs -/

/-- The list is a part of what a majority has acknowledged up to a key, in some term up to `u`. -/
def Chosen (τ : E → Nat) (M : Finset S) (x : State S E) (u : Nat) (l : List E) : Prop :=
  l = [] ∨ ∃ t i, t ≤ u ∧ l <+: (x.llog t).take i ∧ Key τ x t i ∧ Committed M x t i

section Chosen

variable {u u' : Nat} {l l' : List E}

theorem Committed.lead_ne_none (h : Committed M x t i) (hx : Sane τ M x)
    (hi : 0 < i) : x.ballots.lead t ≠ none := by
  obtain ⟨Q, hQ, hack⟩ := h
  obtain ⟨v, hv⟩ := hQ.nonempty
  exact (hx.acked t v (hi.trans_le (hack v hv))).1

theorem Key.le_length (h : Key τ x t i) : i ≤ (x.llog t).length := by
  obtain ⟨e, hpos, he, _⟩ := h
  have hlt := (List.getElem?_eq_some_iff.mp he).1
  omega

theorem Chosen.mono (h : Chosen τ M x u l) (hx : Sane τ M x) (hg : Grows x y) :
    Chosen τ M y u l := by
  rcases h with rfl | ⟨t, i, htu, hpre, hkey, hcom⟩
  · exact .inl rfl
  · have hpos : 0 < i := hkey.choose_spec.1
    have hlead := hcom.lead_ne_none hx hpos
    refine .inr ⟨t, i, htu, ?_, hkey.mono hg hlead, hcom.mono hg⟩
    rwa [hg.take_llog hlead hkey.le_length]

theorem Chosen.sublog (h : Chosen τ M x u l) (hpre : l' <+: l) : Chosen τ M x u l' := by
  rcases h with rfl | ⟨t, i, htu, hl, hrest⟩
  · exact .inl (prefix_nil.mp hpre)
  · exact .inr ⟨t, i, htu, hpre.trans hl, hrest⟩

theorem Chosen.le (h : Chosen τ M x u l) (hle : u ≤ u') : Chosen τ M x u' l := by
  rcases h with rfl | ⟨t, i, htu, hrest⟩
  · exact .inl rfl
  · exact .inr ⟨t, i, htu.trans hle, hrest⟩

variable [DecidableEq S]

/-- Later leaders start with what was chosen. -/
theorem Chosen.elected (h : Chosen τ M x u l) (hc : Complete τ M x) (hx : Sane τ M x) {w : Nat}
    {c : S} (hu : u < w) (hlead : x.ballots.lead w = some c) : l <+: x.cand w c := by
  rcases h with rfl | ⟨t, i, htu, hpre, hkey, hcom⟩
  · exact nil_prefix
  · exact hpre.trans (hc.elected hx ⟨hkey, hcom.mayCommit⟩ (htu.trans_lt hu) hlead)

theorem Chosen.isPrefix_llog (h : Chosen τ M x u l) (hc : Complete τ M x) (hx : Sane τ M x)
    {w : Nat} (hu : u ≤ w) (hlead : x.ballots.lead w ≠ none) : l <+: x.llog w := by
  rcases h with rfl | ⟨t, i, htu, hpre, hkey, hcom⟩
  · exact nil_prefix
  · rcases Nat.lt_or_eq_of_le (htu.trans hu) with hlt | rfl
    · obtain ⟨c, hc'⟩ := Option.ne_none_iff_exists'.mp hlead
      have hcand := hc.elected hx ⟨hkey, hcom.mayCommit⟩ hlt hc'
      exact (hpre.trans hcand).trans (hx.start w c hc')
    · exact hpre.trans (List.take_prefix _ _)

/-- Two chosen logs are one log, as far as both go. -/
theorem Chosen.comparable (h : Chosen τ M x u l) (h' : Chosen τ M x u' l') (hc : Complete τ M x)
    (hx : Sane τ M x) : l <+: l' ∨ l' <+: l := by
  rcases h with rfl | ⟨t, i, _, hpre, hkey, hcom⟩
  · exact .inl nil_prefix
  rcases h' with rfl | ⟨t', i', _, hpre', hkey', hcom'⟩
  · exact .inr nil_prefix
  have hlead := hcom.lead_ne_none hx hkey.choose_spec.1
  have hlead' := hcom'.lead_ne_none hx hkey'.choose_spec.1
  have hl : Chosen τ M x t l := .inr ⟨t, i, Nat.le_refl t, hpre, hkey, hcom⟩
  have hl' : Chosen τ M x t' l' := .inr ⟨t', i', Nat.le_refl t', hpre', hkey', hcom'⟩
  -- the leader of the later of the two terms has both
  rcases Nat.le_total t t' with hle | hle
  · exact prefix_or_prefix_of_prefix (hl.isPrefix_llog hc hx hle hlead')
      (hl'.isPrefix_llog hc hx (Nat.le_refl t') hlead')
  · exact prefix_or_prefix_of_prefix (hl.isPrefix_llog hc hx (Nat.le_refl t) hlead)
      (hl'.isPrefix_llog hc hx hle hlead)

/-- A member that accepts a part of its leader's log keeps what was chosen, all of it. -/
theorem Chosen.follow [DecidableEq E] (h : Chosen τ M x u l) (hc : Complete τ M x)
    (hx : Sane τ M x) {w : Nat} (hu : u ≤ w) (hlead : x.ballots.lead w ≠ none) {log : List E}
    (hlog : l <+: log) {n : Nat} : l <+: follow (x.llog w) n log := by
  have hpre := h.isPrefix_llog hc hx hu hlead
  rcases follow_cases (x.llog w) log n with ⟨heq, _⟩ | ⟨heq, hnot⟩
  · rwa [heq]
  · rw [heq]
    rcases prefix_or_prefix_of_prefix hpre (List.take_prefix n _) with hin | hin
    · exact hin
    · exact absurd (hin.trans hlog) hnot

omit [DecidableEq S] in
theorem Chosen.majority (h : Chosen τ M x u l) (hM : M.Nonempty) (hc : Complete τ M x) :
    ∃ Q, Majority M Q ∧ ∀ v ∈ Q, l <+: x.log v := by
  rcases h with rfl | ⟨t, i, -, hpre, hkey, hcom⟩
  · have hpos := hM.card_pos
    exact ⟨M, ⟨subset_rfl, by omega⟩, fun _ _ => nil_prefix⟩
  · have hopen : Open τ M x t i := ⟨hkey, hcom.mayCommit⟩
    obtain ⟨Q, hQ, hack⟩ := hcom
    exact ⟨Q, hQ, fun v hv => hpre.trans (hc.held t i v hopen (hack v hv))⟩

/-- What was chosen when a member had it stays in its log. -/
theorem Chosen.kept [DecidableEq E] {v : S} (h : Chosen τ M x (x.ballots.term v) l)
    (hc : Complete τ M x) (hx : Sane τ M x) (hl : l <+: x.log v)
    (hexec : Relation.ReflTransGen (Step τ True M) x y) : l <+: y.log v := by
  induction hexec with
  | refl => exact hl
  | @tail y z hexec hstep ih =>
    obtain ⟨hy, hg⟩ := execution_sane hx hexec
    cases hstep with
    | vote => exact ih
    | append c e =>
      by_cases hv : v = c
      · subst hv
        simpa [State.append] using ih.trans (prefix_append _ [e])
      · simpa [State.append, update_of_ne hv] using ih
    | accept w n hlead hn =>
      by_cases hv : v = w
      · subst hv
        simpa [State.accept] using (h.mono hx hg).follow (execution_complete hc hx hexec) hy
          (hg.ballots.term v) hlead ih
      · simpa [State.accept, update_of_ne hv] using ih

end Chosen

end ReplicatedLog

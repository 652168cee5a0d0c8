import Xio.Lib.Voting

/-!
# ReplicatedLog — leaders that spread their logs

Members vote as in `Voting`. The leader of a term takes its log with it, appends entries of its
term, and the other members of the term follow that log: a member that accepts a prefix keeps its
own log if the prefix is in it, and takes the prefix otherwise. What a member has accepted of a
term's log is its acknowledgement.

The log of a leader is recorded per term (`llog`), and so is the log with which a member entered a
term (`cand`). A log is then described by its entries' terms alone: each of its prefixes is a prefix
of the log of the leader that wrote the prefix's last entry (`Matches`).
-/

namespace ReplicatedLog

open Voting List Function Option

variable {S E : Type*} (τ : E → Nat) {l l' : List E} {i t : Nat}

/-- Ballots, and for each term the log that each member entered it with, the log of its leader and
what each member has acknowledged of it. -/
structure State (S E : Type*) where
  ballots : Ballots S
  cand : Nat → S → List E
  llog : Nat → List E
  log : S → List E
  ack : Nat → S → Nat

/-- The log of a member that accepts the first `n` entries of `L`. -/
def follow [DecidableEq E] (L : List E) (n : Nat) (l : List E) : List E :=
  if L.take n <+: l then l else L.take n

def lastTerm (l : List E) : Nat := l.getLast?.elim 0 τ

/-- Log `l` is at least as up to date as `l'`. -/
def UpToDate (l l' : List E) : Prop :=
  lastTerm τ l' < lastTerm τ l ∨ lastTerm τ l = lastTerm τ l' ∧ l'.length ≤ l.length

namespace State

variable [DecidableEq S] (x : State S E)

/-- Member `v` was seen in term `t` with the given vote, leading or not. -/
def vote (v : S) (t : Nat) (choice : Option S) (leads : Bool) : State S E :=
  { x with
    ballots := x.ballots.record v t choice leads
    cand := fun u w => if x.ballots.term v < t ∧ u = t ∧ w = v then x.log v else x.cand u w
    llog := fun u => if (leads ∧ x.ballots.lead t = none) ∧ u = t then x.log v else x.llog u }

def append (c : S) (e : E) : State S E :=
  { x with
    llog := Function.update x.llog (x.ballots.term c) (x.llog (x.ballots.term c) ++ [e])
    log := Function.update x.log c (x.log c ++ [e])
    ack := fun u w =>
      if u = x.ballots.term c ∧ w = c then (x.llog (x.ballots.term c)).length + 1 else x.ack u w }

/-- Member `v` accepts the first `n` entries of its leader's log. -/
def accept [DecidableEq E] (v : S) (n : Nat) : State S E :=
  { x with
    log := Function.update x.log v (follow (x.llog (x.ballots.term v)) n (x.log v))
    ack := fun u w => if u = x.ballots.term v ∧ w = v then max (x.ack u w) n else x.ack u w }

end State

/-- A new vote is a candidate's own, given when it enters the term, or it goes to a candidate that
has entered the term, with a log that is up to date where voters look at it. -/
def Votes (fresh : Prop) (x : State S E) (v : S) (t : Nat) (choice : Option S) : Prop :=
  ∀ c, choice = some c → x.ballots.vote t v = none → c = v ∧ x.ballots.term v < t ∨
      t ≤ x.ballots.term c ∧ (fresh → UpToDate τ (x.cand t c) (x.log v))

/-- Steps of the protocol; `fresh` says that voters compare logs. -/
inductive Step [DecidableEq S] [DecidableEq E] (fresh : Prop) (M : Finset S) :
    State S E → State S E → Prop
  | vote (x : State S E) (v : S) (t : Nat) (choice : Option S) (leads : Bool)
      (hr : x.ballots.Reports v t choice) (hv : Votes τ fresh x v t choice)
      (hl : leads = true → (x.ballots.recordVote v t choice).Elected M t v) :
      Step fresh M x (x.vote v t choice leads)
  | append (x : State S E) (c : S) (e : E)
      (hlead : x.ballots.lead (x.ballots.term c) = some c) (he : τ e = x.ballots.term c) :
      Step fresh M x (x.append c e)
  | accept (x : State S E) (v : S) (n : Nat) (hlead : x.ballots.lead (x.ballots.term v) ≠ none)
      (hn : n ≤ (x.llog (x.ballots.term v)).length) : Step fresh M x (x.accept v n)

/-! ## The invariant -/

/-- Each prefix of `l` is a prefix of the log of the leader that wrote its last entry. -/
def Matches (x : State S E) (l : List E) : Prop :=
  ∀ p e, p ++ [e] <+: l → x.ballots.lead (τ e) ≠ none ∧ p ++ [e] <+: x.llog (τ e)

structure Sane (M : Finset S) (x : State S E) : Prop where
  sound : Sound M x.ballots
  reached : ∀ t c, x.ballots.lead t = some c → t ≤ x.ballots.term c
  asked : ∀ t v c, x.ballots.vote t v = some c → t ≤ x.ballots.term c
  leader : ∀ c, x.ballots.lead (x.ballots.term c) = some c → x.log c = x.llog (x.ballots.term c)
  standing : ∀ c, x.ballots.lead (x.ballots.term c) = none → x.log c = x.cand (x.ballots.term c) c
  start : ∀ t c, x.ballots.lead t = some c → x.cand t c <+: x.llog t
  log : ∀ v, Matches τ x (x.log v)
  llog : ∀ t, x.ballots.lead t ≠ none → Matches τ x (x.llog t)
  cand : ∀ t v, Matches τ x (x.cand t v)
  logTerm : ∀ v, ∀ e ∈ x.log v, τ e ≤ x.ballots.term v
  llogTerm : ∀ t, x.ballots.lead t ≠ none → ∀ e ∈ x.llog t, τ e ≤ t
  candTerm : ∀ t v, ∀ e ∈ x.cand t v, τ e < t
  ackLe : ∀ t v, x.ack t v ≤ (x.llog t).length
  acked : ∀ t v, 0 < x.ack t v → x.ballots.lead t ≠ none ∧ t ≤ x.ballots.term v
  agrees : ∀ v, (x.llog (x.ballots.term v)).take (x.ack (x.ballots.term v) v) <+: x.log v

variable {τ} {M : Finset S} {fresh : Prop} {x y z : State S E}

/-! ## What a step keeps -/

/-- Later states have the same history, longer leaders' logs and more acknowledgements; a member
that has left a term acknowledges nothing more of it. -/
structure Grows (x y : State S E) : Prop where
  ballots : Extends x.ballots y.ballots
  llog : ∀ t, x.ballots.lead t ≠ none → x.llog t <+: y.llog t
  cand : ∀ t v, t ≤ x.ballots.term v → y.cand t v = x.cand t v
  ack : ∀ t v, x.ack t v ≤ y.ack t v
  late : ∀ t v, y.ack t v = x.ack t v ∨ x.ballots.term v ≤ t

theorem Grows.refl (x : State S E) : Grows x x :=
  ⟨Extends.refl _, fun _ _ => prefix_rfl, fun _ _ _ => rfl, fun _ _ => le_rfl, fun _ _ => .inl rfl⟩

theorem Grows.lead_ne_none (h : Grows x y) {t : Nat} (ht : x.ballots.lead t ≠ none) :
    y.ballots.lead t ≠ none := by
  obtain ⟨c, hc⟩ := ne_none_iff_exists'.mp ht
  rw [h.ballots.lead t c hc]
  simp

theorem Grows.trans (h : Grows x y) (h' : Grows y z) : Grows x z where
  ballots := h.ballots.trans h'.ballots
  llog := fun t ht => (h.llog t ht).trans (h'.llog t (h.lead_ne_none ht))
  cand := fun t v ht => (h'.cand t v (ht.trans (h.ballots.term v))).trans (h.cand t v ht)
  ack := fun t v => (h.ack t v).trans (h'.ack t v)
  late := by
    intro t v
    rcases h'.late t v with heq | hle
    · rw [heq]
      exact h.late t v
    · exact .inr ((h.ballots.term v).trans hle)

theorem Matches.mono {l : List E} (hl : Matches τ x l) (h : Grows x y) : Matches τ y l := by
  intro p e hp
  obtain ⟨hlead, hpre⟩ := hl p e hp
  exact ⟨h.lead_ne_none hlead, hpre.trans (h.llog _ hlead)⟩

theorem Matches.sublog (hl : Matches τ x l) (h : l' <+: l) : Matches τ x l' :=
  fun p e hp => hl p e (hp.trans h)

theorem Matches.take_isPrefix {l : List E} (hl : Matches τ x l) {k : Nat} {e : E}
    (h : l[k]? = some e) : l.take (k + 1) <+: x.llog (τ e) := by
  have htake : l.take (k + 1) = l.take k ++ [e] := by
    rw [take_add_one, h]
    rfl
  rw [htake]
  exact (hl _ e (by rw [← htake]; exact take_prefix _ _)).2

/-- Log matching: logs with entries of one term at one index are equal up to there. -/
theorem Matches.take_eq (hl : Matches τ x l) (hl' : Matches τ x l') {k : Nat}
    {e e' : E} (h : l[k]? = some e) (h' : l'[k]? = some e') (he : τ e = τ e') :
    l.take (k + 1) = l'.take (k + 1) := by
  have hpre := hl.take_isPrefix h
  have hpre' := hl'.take_isPrefix h'
  rw [he] at hpre
  refine (prefix_of_prefix_length_le hpre hpre' ?_).eq_of_length ?_
  all_goals
    have hk := (List.getElem?_eq_some_iff.mp h).1
    have hk' := (List.getElem?_eq_some_iff.mp h').1
    rw [length_take, length_take]
    omega

/-! ## Positions -/

theorem getElem?_of_isPrefix (h : l <+: l') {k : Nat} {e : E}
    (he : l[k]? = some e) : l'[k]? = some e := by
  obtain ⟨m, rfl⟩ := h
  rwa [getElem?_append_left (List.getElem?_eq_some_iff.mp he).1]

/-- The `i`-th entry of the log, counted from one, is of the given term. -/
def At (τ : E → Nat) (l : List E) (i t : Nat) : Prop :=
  ∃ e, 0 < i ∧ l[i - 1]? = some e ∧ τ e = t

theorem At.le_length {l : List E} (h : At τ l i t) : i ≤ l.length := by
  obtain ⟨e, hpos, he, -⟩ := h
  have hlt := (List.getElem?_eq_some_iff.mp he).1
  omega

theorem At.mono (h : At τ l i t) (hpre : l <+: l') : At τ l' i t := by
  obtain ⟨e, hpos, he, hterm⟩ := h
  exact ⟨e, hpos, getElem?_of_isPrefix hpre he, hterm⟩

theorem At.congr (h : At τ l i t) (htake : l.take i = l'.take i) : At τ l' i t := by
  obtain ⟨e, hpos, he, hterm⟩ := h
  refine ⟨e, hpos, ?_, hterm⟩
  rw [← getElem?_take_of_lt (show i - 1 < i by omega), ← htake, getElem?_take_of_lt (by omega)]
  exact he

theorem Matches.take_eq_of_at (hl : Matches τ x l) (hl' : Matches τ x l')
    (h : At τ l i t) (h' : At τ l' i t) : l.take i = l'.take i := by
  obtain ⟨e, hpos, he, hterm⟩ := h
  obtain ⟨e', -, he', hterm'⟩ := h'
  have htake := hl.take_eq hl' he he' (hterm.trans hterm'.symm)
  rwa [Nat.sub_add_cancel hpos] at htake

theorem Matches.lead_of_at {l : List E} (hl : Matches τ x l) (h : At τ l i t) :
    x.ballots.lead t ≠ none := by
  obtain ⟨e, -, he, rfl⟩ := h
  have htake : l.take (i - 1 + 1) = l.take (i - 1) ++ [e] := by
    rw [take_add_one, he]
    rfl
  refine (hl (l.take (i - 1)) e ?_).1
  rw [← htake]
  exact take_prefix _ _

theorem Sane.ack_eq_zero (hx : Sane τ M x) {t : Nat} (ht : x.ballots.lead t = none) (v : S) :
    x.ack t v = 0 := by
  by_contra hne
  exact (hx.acked t v (Nat.pos_of_ne_zero hne)).1 ht

section Steps

variable [DecidableEq S] [DecidableEq E]

theorem Step.grows (hx : Sane τ M x) (h : Step τ fresh M x y) : Grows x y := by
  cases h with
  | vote v t choice leads hr hv hl =>
    have hexec := Ballots.record_execution hr hl
    refine ⟨(Execution.extends hx.sound hexec).2, ?_, ?_, fun _ _ => le_rfl, fun _ _ => .inl rfl⟩
    · intro u hu
      simp only [State.vote]
      split
      · -- a term that gets its leader now had no leader's log
        rename_i hnew
        rw [hnew.2] at hu
        exact absurd hnew.1.2 hu
      · exact prefix_rfl
    · intro u w hu
      simp only [State.vote]
      split
      · rename_i hnew
        obtain ⟨hlt, rfl, rfl⟩ := hnew
        omega
      · rfl
  | append c e hlead he =>
    refine ⟨Extends.refl _, ?_, fun _ _ _ => rfl, ?_, ?_⟩
    · intro u _
      simp only [State.append]
      by_cases hu : u = x.ballots.term c
      · subst hu
        rw [update_self]
        exact prefix_append _ _
      · rw [update_of_ne hu]
    · intro u w
      simp only [State.append]
      split
      · rename_i hown
        obtain ⟨rfl, rfl⟩ := hown
        exact (hx.ackLe _ _).trans (Nat.le_succ _)
      · exact le_rfl
    · intro u w
      simp only [State.append]
      split
      · rename_i hown
        exact .inr (by rw [hown.1, hown.2])
      · exact .inl rfl
  | accept v n hlead hn =>
    refine ⟨Extends.refl _, fun _ _ => prefix_rfl, fun _ _ _ => rfl, ?_, ?_⟩
    · intro u w
      simp only [State.accept]
      split
      · exact Nat.le_max_left _ _
      · exact le_rfl
    · intro u w
      simp only [State.accept]
      split
      · rename_i hown
        exact .inr (by rw [hown.1, hown.2])
      · exact .inl rfl

/-! ## The invariant along steps -/

section Vote

omit [DecidableEq E]

variable {v c : S} {u t : Nat} {choice : Option S} {leads : Bool}

/-- A leader of a term is an old one, or the voter, whose log becomes the leader's log. -/
theorem vote_lead (hr : x.ballots.Reports v t choice)
    (h : (x.vote v t choice leads).ballots.lead u = some c) :
    x.ballots.lead u = some c ∨ (leads ∧ x.ballots.lead t = none) ∧ u = t ∧ c = v := by
  obtain ⟨-, -, hlead⟩ := Ballots.record_spec hr leads
  rw [State.vote, hlead] at h
  split at h
  · rename_i hnew
    by_cases hu : u = t
    · subst hu
      rw [update_self] at h
      exact .inr ⟨hnew, rfl, (some.inj h).symm⟩
    · rw [update_of_ne hu] at h
      exact .inl h
  · exact .inl h

theorem vote_llog_of_new (hnew : leads ∧ x.ballots.lead t = none) :
    (x.vote v t choice leads).llog t = x.log v :=
  if_pos ⟨hnew, rfl⟩

theorem vote_llog_of_lead (hu : x.ballots.lead u ≠ none) :
    (x.vote v t choice leads).llog u = x.llog u := by
  refine if_neg ?_
  rintro ⟨hnew, rfl⟩
  exact hu hnew.2

/-- The log of a term with a leader is the one on record, or the voter's. -/
theorem vote_llog_cases (hr : x.ballots.Reports v t choice)
    (hu : (x.vote v t choice leads).ballots.lead u ≠ none) :
    x.ballots.lead u ≠ none ∧ (x.vote v t choice leads).llog u = x.llog u ∨
      u = t ∧ (x.vote v t choice leads).llog u = x.log v := by
  obtain ⟨c, hc⟩ := ne_none_iff_exists'.mp hu
  rcases vote_lead hr hc with hold | ⟨hnew, rfl, -⟩
  · have hne : x.ballots.lead u ≠ none := by rw [hold]; simp
    exact .inl ⟨hne, vote_llog_of_lead hne⟩
  · exact .inr ⟨rfl, vote_llog_of_new hnew⟩

theorem vote_cand (hx : Sane τ M x) (hr : x.ballots.Reports v t choice)
    (hnone : x.ballots.lead t = none) : (x.vote v t choice leads).cand t v = x.log v := by
  rcases Nat.lt_or_eq_of_le hr.term with hlt | heq
  · exact if_pos ⟨hlt, rfl, rfl⟩
  · have hold := hx.standing v (by rw [heq]; exact hnone)
    rw [heq] at hold
    exact (if_neg (by omega)).trans hold.symm

theorem vote_term_self (hr : x.ballots.Reports v t choice) :
    (x.vote v t choice leads).ballots.term v = t := by
  rw [State.vote, (Ballots.record_spec hr leads).1, update_self]

section

variable (hx : Sane τ M x) (hr : x.ballots.Reports v t choice)
include hx hr

theorem vote_asked (hv : Votes τ fresh x v t choice) (hg : Grows x (x.vote v t choice leads))
    {w : S} (h : (x.vote v t choice leads).ballots.vote u w = some c) :
    u ≤ (x.vote v t choice leads).ballots.term c := by
  obtain ⟨-, hvote, -⟩ := Ballots.record_spec hr leads
  obtain ⟨-, hown, hother, -⟩ := Ballots.recordVote_spec hr
  by_cases hsame : u = t ∧ w = v
  · obtain ⟨rfl, rfl⟩ := hsame
    have hc : choice = some c := by
      rw [← hown, ← h, State.vote, hvote]
    rcases hr.vote with hnone | hold
    · rcases hv c hc hnone with ⟨rfl, _⟩ | ⟨hle, _⟩
      · rw [vote_term_self hr]
      · exact hle.trans (hg.ballots.term c)
    · exact (hx.asked u w c (hold.trans hc)).trans (hg.ballots.term c)
  · have hold : x.ballots.vote u w = some c := by
      rw [← hother u w (by tauto), ← h, State.vote, hvote]
    exact (hx.asked u w c hold).trans (hg.ballots.term c)

theorem vote_leader (hg : Grows x (x.vote v t choice leads))
    (h : (x.vote v t choice leads).ballots.lead ((x.vote v t choice leads).ballots.term c) = some c) :
    x.log c = (x.vote v t choice leads).llog ((x.vote v t choice leads).ballots.term c) := by
  rcases vote_lead hr h with hold | ⟨hnew, hc, rfl⟩
  · have hsame : (x.vote v t choice leads).ballots.term c = x.ballots.term c :=
      Nat.le_antisymm (hx.reached _ c hold) (hg.ballots.term c)
    rw [hsame] at hold ⊢
    rw [vote_llog_of_lead (by rw [hold]; simp)]
    exact hx.leader c hold
  · rw [hc, vote_llog_of_new hnew]

theorem vote_standing (hg : Grows x (x.vote v t choice leads))
    (h : (x.vote v t choice leads).ballots.lead ((x.vote v t choice leads).ballots.term c) = none) :
    x.log c = (x.vote v t choice leads).cand ((x.vote v t choice leads).ballots.term c) c := by
  have hnone : x.ballots.lead ((x.vote v t choice leads).ballots.term c) = none := by
    by_contra hne
    exact hg.lead_ne_none hne h
  by_cases hc : c = v
  · subst hc
    rw [vote_term_self hr] at hnone ⊢
    exact (vote_cand hx hr hnone).symm
  · have helse : (x.vote v t choice leads).ballots.term c = x.ballots.term c := by
      rw [State.vote, (Ballots.record_spec hr leads).1, update_of_ne hc]
    rw [helse] at hnone ⊢
    rw [hg.cand _ c le_rfl]
    exact hx.standing c hnone

end

/-- A term that has just been entered has no acknowledgement. -/
theorem vote_agrees (hx : Sane τ M x) (hg : Grows x (x.vote v t choice leads)) (w : S) :
    ((x.vote v t choice leads).llog ((x.vote v t choice leads).ballots.term w)).take
      (x.ack ((x.vote v t choice leads).ballots.term w) w) <+: x.log w := by
  by_cases hpos : 0 < x.ack ((x.vote v t choice leads).ballots.term w) w
  · obtain ⟨hne, hle⟩ := hx.acked _ w hpos
    have hsame := Nat.le_antisymm hle (hg.ballots.term w)
    rw [vote_llog_of_lead hne, hsame]
    exact hx.agrees w
  · rw [Nat.eq_zero_of_not_pos hpos, take_zero]
    exact nil_prefix

end Vote

theorem vote_sane (hx : Sane τ M x) {v : S} {t : Nat} {choice : Option S} {leads : Bool}
    (hr : x.ballots.Reports v t choice) (hv : Votes τ fresh x v t choice)
    (hl : leads = true → (x.ballots.recordVote v t choice).Elected M t v) :
    Sane τ M (x.vote v t choice leads) := by
  have hg : Grows x (x.vote v t choice leads) := Step.grows hx (.vote x v t choice leads hr hv hl)
  have hsound : Sound M (x.vote v t choice leads).ballots :=
    (Execution.extends hx.sound (Ballots.record_execution hr hl)).1
  refine ⟨hsound, ?_, fun u w c => vote_asked hx hr hv hg, fun c => vote_leader hx hr hg,
    fun c => vote_standing hx hr hg, ?_, fun w => (hx.log w).mono hg, ?_, ?_,
    fun w e he => (hx.logTerm w e he).trans (hg.ballots.term w), ?_, ?_, ?_, ?_, vote_agrees hx hg⟩
  · -- reached
    intro u c h
    rcases vote_lead hr h with hold | ⟨_, rfl, rfl⟩
    · exact (hx.reached u c hold).trans (hg.ballots.term c)
    · rw [vote_term_self hr]
  · -- start
    intro u c h
    rcases vote_lead hr h with hold | ⟨hnew, rfl, rfl⟩
    · rw [vote_llog_of_lead (by rw [hold]; simp), hg.cand u c (hx.reached u c hold)]
      exact hx.start u c hold
    · rw [vote_cand hx hr hnew.2, vote_llog_of_new hnew]
  · -- llog
    intro u hu
    rcases vote_llog_cases hr hu with ⟨hne, heq⟩ | ⟨-, heq⟩
    · exact heq ▸ (hx.llog u hne).mono hg
    · exact heq ▸ (hx.log v).mono hg
  · -- cand
    intro u w
    simp only [State.vote]
    split
    · exact (hx.log v).mono hg
    · exact (hx.cand u w).mono hg
  · -- llogTerm
    intro u hu e he
    rcases vote_llog_cases hr hu with ⟨hne, heq⟩ | ⟨rfl, heq⟩
    · exact hx.llogTerm u hne e (heq ▸ he)
    · exact (hx.logTerm v e (heq ▸ he)).trans hr.term
  · -- candTerm
    intro u w e he
    simp only [State.vote] at he
    split at he
    · rename_i hnew
      obtain ⟨hlt, rfl, _⟩ := hnew
      exact (hx.logTerm v e he).trans_lt hlt
    · exact hx.candTerm u w e he
  · -- ackLe
    intro u w
    by_cases hne : x.ballots.lead u = none
    · exact (hx.ack_eq_zero hne w).le.trans (Nat.zero_le _)
    · rw [vote_llog_of_lead hne]
      exact hx.ackLe u w
  · -- acked
    intro u w hpos
    obtain ⟨hne, hle⟩ := hx.acked u w hpos
    exact ⟨hg.lead_ne_none hne, hle.trans (hg.ballots.term w)⟩

theorem append_sane (hx : Sane τ M x) {c : S} {e : E}
    (hlead : x.ballots.lead (x.ballots.term c) = some c) (he : τ e = x.ballots.term c) :
    Sane τ M (x.append c e) := by
  have hstep : Step τ True M x (x.append c e) := .append x c e hlead he
  have hg := hstep.grows hx
  have hllog : (x.append c e).llog (x.ballots.term c) = x.llog (x.ballots.term c) ++ [e] :=
    update_self ..
  have hlog : (x.append c e).log c = x.log c ++ [e] := update_self ..
  have helse (w : S) (hw : w ≠ c) : (x.append c e).log w = x.log w := update_of_ne hw ..
  have hlelse (u : Nat) (hu : u ≠ x.ballots.term c) : (x.append c e).llog u = x.llog u :=
    update_of_ne hu ..
  have hown := hx.leader c hlead
  -- the new entry is the last one of its leader's log
  have hext {l : List E} (hl : Matches τ x l) (heq : l = x.llog (x.ballots.term c)) :
      Matches τ (x.append c e) (l ++ [e]) := by
    intro p e' hp
    rcases prefix_concat_iff.mp hp with hall | hpre
    · obtain ⟨rfl, hlast⟩ := append_inj' hall rfl
      cases hlast
      rw [he, hllog, heq]
      exact ⟨by rw [State.append, hlead]; simp, prefix_rfl⟩
    · exact hl.mono hg p e' hpre
  refine ⟨hx.sound, hx.reached, hx.asked, ?_, ?_, ?_, ?_, ?_, fun u w => (hx.cand u w).mono hg,
    ?_, ?_, hx.candTerm, ?_, ?_, ?_⟩
  · -- leader: the only leader of the term is `c`
    intro w hw
    by_cases hwc : w = c
    · subst hwc
      rw [hlog, hown]
      exact hllog.symm
    · rw [helse w hwc, hx.leader w hw]
      refine (hlelse _ ?_).symm
      intro heq
      have hw' : x.ballots.lead (x.ballots.term w) = some w := hw
      rw [heq, hlead] at hw'
      exact hwc (some.inj hw').symm
  · -- standing
    intro w hw
    by_cases hwc : w = c
    · subst hwc
      exact absurd (hlead.symm.trans hw) (by simp)
    · rw [helse w hwc]
      exact hx.standing w hw
  · intro u w hw
    exact (hx.start u w hw).trans (hg.llog u (ne_none_iff_exists'.mpr ⟨w, hw⟩))
  · -- log
    intro w
    by_cases hwc : w = c
    · subst hwc
      rw [hlog]
      exact hext (hx.log w) hown
    · rw [helse w hwc]
      exact (hx.log w).mono hg
  · -- llog
    intro u hu
    by_cases huc : u = x.ballots.term c
    · subst huc
      rw [hllog]
      exact hext (hx.llog _ hu) rfl
    · rw [hlelse u huc]
      exact (hx.llog u hu).mono hg
  · -- logTerm
    intro w e' he'
    by_cases hwc : w = c
    · subst hwc
      rw [hlog, mem_append, mem_singleton] at he'
      rcases he' with hold | rfl
      · exact hx.logTerm w e' hold
      · exact he.le
    · rw [helse w hwc] at he'
      exact hx.logTerm w e' he'
  · -- llogTerm
    intro u hu e' he'
    by_cases huc : u = x.ballots.term c
    · subst huc
      rw [hllog, mem_append, mem_singleton] at he'
      rcases he' with hold | rfl
      · exact hx.llogTerm _ hu e' hold
      · exact he.le
    · rw [hlelse u huc] at he'
      exact hx.llogTerm u hu e' he'
  · -- ackLe
    intro u w
    simp only [State.append]
    split
    · rename_i hsame
      rw [hsame.1, update_self, length_append, length_singleton]
    · refine (hx.ackLe u w).trans ?_
      by_cases huc : u = x.ballots.term c
      · subst huc
        rw [update_self, length_append]
        exact Nat.le_add_right _ _
      · rw [update_of_ne huc]
  · -- acked
    intro u w hpos
    simp only [State.append] at hpos ⊢
    split at hpos
    · rename_i hsame
      obtain ⟨rfl, rfl⟩ := hsame
      exact ⟨by rw [hlead]; simp, le_rfl⟩
    · exact hx.acked u w hpos
  · -- agrees: what was acknowledged of the shorter log
    intro w
    by_cases hwc : w = c
    · subst hwc
      rw [hlog, hown]
      exact (List.take_prefix _ _).trans (by rw [← hllog]; exact prefix_rfl)
    · have hack : (x.append c e).ack (x.ballots.term w) w = x.ack (x.ballots.term w) w :=
        if_neg (fun h => hwc h.2)
      rw [helse w hwc]
      refine IsPrefix.trans ?_ (hx.agrees w)
      show ((x.append c e).llog (x.ballots.term w)).take ((x.append c e).ack (x.ballots.term w) w)
        <+: _
      rw [hack]
      by_cases hwt : x.ballots.term w = x.ballots.term c
      · rw [hwt, hllog, take_append_of_le_length (hx.ackLe _ w)]
      · rw [hlelse _ hwt]

theorem follow_cases (L l : List E) (n : Nat) :
    follow L n l = l ∧ L.take n <+: l ∨ follow L n l = L.take n ∧ ¬ L.take n <+: l := by
  unfold follow
  split
  · rename_i hpre
    exact .inl ⟨rfl, hpre⟩
  · rename_i hpre
    exact .inr ⟨rfl, hpre⟩

theorem accept_sane (hx : Sane τ M x) {v : S} {n : Nat}
    (hlead : x.ballots.lead (x.ballots.term v) ≠ none)
    (hn : n ≤ (x.llog (x.ballots.term v)).length) : Sane τ M (x.accept v n) := by
  have hstep : Step τ True M x (x.accept v n) := .accept x v n hlead hn
  have hg := hstep.grows hx
  have hlog : (x.accept v n).log v = follow (x.llog (x.ballots.term v)) n (x.log v) :=
    update_self ..
  have helse (w : S) (hw : w ≠ v) : (x.accept v n).log w = x.log w := update_of_ne hw ..
  have hcases := follow_cases (x.llog (x.ballots.term v)) (x.log v) n
  refine ⟨hx.sound, hx.reached, hx.asked, ?_, ?_, hx.start, ?_, fun u hu => (hx.llog u hu).mono hg,
    fun u w => (hx.cand u w).mono hg, ?_, hx.llogTerm, hx.candTerm, ?_, ?_, ?_⟩
  · -- leader: it follows its own log
    intro w hw
    by_cases hwv : w = v
    · subst hwv
      rw [hlog, follow, if_pos (by rw [hx.leader w hw]; exact take_prefix _ _)]
      exact hx.leader w hw
    · rw [helse w hwv]
      exact hx.leader w hw
  · intro w hw
    by_cases hwv : w = v
    · subst hwv
      exact absurd hw hlead
    · rw [helse w hwv]
      exact hx.standing w hw
  · -- log
    intro w
    by_cases hwv : w = v
    · subst hwv
      rw [hlog]
      rcases hcases with ⟨heq, _⟩ | ⟨heq, _⟩
      · rw [heq]
        exact (hx.log w).mono hg
      · rw [heq]
        exact ((hx.llog _ hlead).sublog (List.take_prefix _ _)).mono hg
    · rw [helse w hwv]
      exact (hx.log w).mono hg
  · -- logTerm
    intro w e he
    by_cases hwv : w = v
    · subst hwv
      rw [hlog] at he
      rcases hcases with ⟨heq, _⟩ | ⟨heq, _⟩
      · exact hx.logTerm w e (by rw [← heq]; exact he)
      · rw [heq] at he
        exact hx.llogTerm _ hlead e (mem_of_mem_take he)
    · rw [helse w hwv] at he
      exact hx.logTerm w e he
  · -- ackLe
    intro u w
    simp only [State.accept]
    split
    · rename_i hsame
      obtain ⟨rfl, rfl⟩ := hsame
      exact Nat.max_le.mpr ⟨hx.ackLe _ _, hn⟩
    · exact hx.ackLe u w
  · -- acked
    intro u w hpos
    simp only [State.accept] at hpos ⊢
    split at hpos
    · rename_i hsame
      obtain ⟨rfl, rfl⟩ := hsame
      exact ⟨hlead, le_rfl⟩
    · exact hx.acked u w hpos
  · -- agrees: a longer prefix acknowledged before is still there
    intro w
    by_cases hwv : w = v
    · subst hwv
      have hack : (x.accept w n).ack (x.ballots.term w) w = max (x.ack (x.ballots.term w) w) n :=
        if_pos ⟨rfl, rfl⟩
      show (x.llog (x.ballots.term w)).take ((x.accept w n).ack (x.ballots.term w) w) <+: _
      rw [hack, hlog]
      rcases hcases with ⟨heq, hpre⟩ | ⟨heq, hpre⟩
      · rw [heq]
        rcases Nat.le_total (x.ack (x.ballots.term w) w) n with hle | hle
        · rwa [Nat.max_eq_right hle]
        · rw [Nat.max_eq_left hle]
          exact hx.agrees w
      · -- a shorter prefix than the acknowledged one would have been in the log
        rw [heq]
        rcases Nat.le_total (x.ack (x.ballots.term w) w) n with hle | hle
        · rw [Nat.max_eq_right hle]
        · exact absurd ((take_prefix_take_left hle).trans (hx.agrees w)) hpre
    · have hack : (x.accept v n).ack (x.ballots.term w) w = x.ack (x.ballots.term w) w :=
        if_neg (fun h => hwv h.2)
      show (x.llog (x.ballots.term w)).take ((x.accept v n).ack (x.ballots.term w) w) <+: _
      rw [hack, helse w hwv]
      exact hx.agrees w

theorem Step.sane (hx : Sane τ M x) (h : Step τ fresh M x y) : Sane τ M y := by
  cases h with
  | vote v t choice leads hr hv hl => exact vote_sane hx hr hv hl
  | append c e hlead he => exact append_sane hx hlead he
  | accept v n hlead hn => exact accept_sane hx hlead hn

def State.appends (x : State S E) (c : S) (es : List E) : State S E :=
  es.foldl (fun y e => y.append c e) x

/-- The appended entries are at the end of the leader's own log, and it acknowledges all of it. -/
theorem appends_execution {c : S} {es : List E} (hx : Sane τ M x)
    (hlead : x.ballots.lead (x.ballots.term c) = some c) (hes : ∀ e ∈ es, τ e = x.ballots.term c)
    (hack : es = [] → (x.log c).length ≤ x.ack (x.ballots.term c) c) :
    Relation.ReflTransGen (Step τ fresh M) x (x.appends c es) ∧
      (x.appends c es).ballots = x.ballots ∧ (x.appends c es).log c = x.log c ++ es ∧
      (∀ w, w ≠ c → (x.appends c es).log w = x.log w) ∧
      (x.log c).length + es.length ≤ (x.appends c es).ack (x.ballots.term c) c := by
  induction es generalizing x with
  | nil => exact ⟨.refl, rfl, (append_nil _).symm, fun _ _ => rfl, hack rfl⟩
  | cons e es ih =>
    have he := hes e mem_cons_self
    have hstep : Step τ fresh M x (x.append c e) := .append x c e hlead he
    have hlog : (x.append c e).log c = x.log c ++ [e] := update_self ..
    have hown : (x.append c e).ack (x.ballots.term c) c = (x.log c).length + 1 := by
      rw [hx.leader c hlead]
      exact if_pos ⟨rfl, rfl⟩
    rcases ih (append_sane hx hlead he) hlead (fun e' he' => hes e' (mem_cons_of_mem e he'))
      (fun _ => by rw [hlog]; exact (length_append).trans_le hown.ge)
      with ⟨hexec, hballots, hlog', hother, hack'⟩
    refine ⟨hexec.head hstep, hballots, ?_, ?_, ?_⟩
    · exact hlog'.trans (by rw [hlog, append_assoc]; rfl)
    · intro w hw
      exact (hother w hw).trans (update_of_ne hw ..)
    · rw [hlog, length_append] at hack'
      refine Nat.le_trans ?_ hack'
      simp only [length_cons, length_nil]
      omega

theorem execution_sane (hx : Sane τ M x) (h : Relation.ReflTransGen (Step τ fresh M) x y) :
    Sane τ M y ∧ Grows x y := by
  induction h with
  | refl => exact ⟨hx, Grows.refl x⟩
  | tail _ hstep ih => exact ⟨hstep.sane ih.1, ih.2.trans (hstep.grows ih.1)⟩

end Steps

end ReplicatedLog

import Xio.Lib.Majority

/-!
# Voting — one vote per member and term

Members move to higher terms, give at most one vote in each term, and a member that a majority
voted for leads the term. The history of all terms is part of the state, so a vote that was given
stays on record after its voter has moved on.

A term has at most one leader, over a whole execution (`Execution.lead`).
-/

namespace Voting

open Function Relation

variable {S : Type*} {t : Nat}

/-- The current term of each member, the vote of each member in each term, and the leader of each
term that has one. -/
structure Ballots (S : Type*) where
  term : S → Nat
  vote : Nat → S → Option S
  lead : Nat → Option S

namespace Ballots

variable (b : Ballots S)

/-- A majority gave their vote in the term to `c`. -/
def Elected (M : Finset S) (t : Nat) (c : S) : Prop :=
  ∃ A, Majority M A ∧ ∀ v ∈ A, b.vote t v = some c

variable [DecidableEq S]

/-- A new term, in which the member has not voted. -/
def raise (v : S) (t : Nat) : Ballots S := { b with term := Function.update b.term v t }

def cast (v c : S) : Ballots S :=
  { b with vote := fun t w => if t = b.term v ∧ w = v then some c else b.vote t w }

/-- The leader of the member's current term is the member itself. -/
def win (c : S) : Ballots S := { b with lead := Function.update b.lead (b.term c) (some c) }

end Ballots

inductive Step [DecidableEq S] (M : Finset S) : Ballots S → Ballots S → Prop
  | raise (b : Ballots S) (v : S) (t : Nat) (h : b.term v < t) : Step M b (b.raise v t)
  | cast (b : Ballots S) (v c : S) (h : b.vote (b.term v) v = none) (hpos : 0 < b.term v) :
      Step M b (b.cast v c)
  | win (b : Ballots S) (c : S) (h : b.Elected M (b.term c) c) : Step M b (b.win c)

/-- Nobody voted in a term before reaching it, nor in term `0`, and leaders were elected. -/
structure Sound (M : Finset S) (b : Ballots S) : Prop where
  voted : ∀ t v, b.vote t v ≠ none → t ≤ b.term v
  pos : ∀ t v, b.vote t v ≠ none → 0 < t
  elected : ∀ t c, b.lead t = some c → b.Elected M t c

variable {M : Finset S} {b b' : Ballots S}

theorem Sound.vote_eq_none (hb : Sound M b) {v : S} (h : b.term v < t) : b.vote t v = none := by
  by_contra hne
  exact absurd (hb.voted t v hne) (Nat.not_le.mpr h)

/-- One vote per member and term leaves room for one majority, even of two sets of voters that are
near each other. -/
theorem elected_unique_of_near [DecidableEq S] {M N : Finset S} {c c' : S}
    (hn : Near M N) (h : b.Elected M t c) (h' : b.Elected N t c') : c = c' := by
  obtain ⟨A, hA, hvA⟩ := h
  obtain ⟨B, hB, hvB⟩ := h'
  obtain ⟨v, hv, hv'⟩ := hn.exists_common hA hB
  exact Option.some.inj ((hvA v hv).symm.trans (hvB v hv'))

theorem elected_unique [DecidableEq S] {c c' : S} (h : b.Elected M t c) (h' : b.Elected M t c') :
    c = c' :=
  elected_unique_of_near (Near.refl M) h h'

theorem Sound.lead_pos (hb : Sound M b) {c : S} (h : b.lead t = some c) : 0 < t := by
  obtain ⟨A, hA, hv⟩ := hb.elected t c h
  obtain ⟨v, hvA⟩ := hA.nonempty
  exact hb.pos t v (by rw [hv v hvA]; simp)

/-! ## One step -/

/-- What was recorded once stays on record. -/
structure Extends (b b' : Ballots S) : Prop where
  vote : ∀ t v c, b.vote t v = some c → b'.vote t v = some c
  lead : ∀ t c, b.lead t = some c → b'.lead t = some c
  term : ∀ v, b.term v ≤ b'.term v

theorem Extends.refl (b : Ballots S) : Extends b b :=
  ⟨fun _ _ _ => id, fun _ _ => id, fun _ => le_rfl⟩

theorem Extends.trans {b'' : Ballots S} (h : Extends b b') (h' : Extends b' b'') : Extends b b'' :=
  ⟨fun t v c hv => h'.vote t v c (h.vote t v c hv), fun t c hl => h'.lead t c (h.lead t c hl),
    fun v => (h.term v).trans (h'.term v)⟩

theorem Extends.elected (h : Extends b b') {c : S} (he : b.Elected M t c) : b'.Elected M t c := by
  obtain ⟨A, hA, hv⟩ := he
  exact ⟨A, hA, fun v hvA => h.vote t v c (hv v hvA)⟩

section

variable [DecidableEq S]

theorem cast_vote_of_ne {v c w : S} (h : t ≠ b.term v ∨ w ≠ v) :
    (b.cast v c).vote t w = b.vote t w :=
  if_neg (fun hsame => h.elim (fun ht => ht hsame.1) (fun hw => hw hsame.2))

@[simp] theorem cast_vote_self (v c : S) : (b.cast v c).vote (b.term v) v = some c :=
  if_pos ⟨rfl, rfl⟩

theorem Extends.raise {v : S} (h : b.term v < t) : Extends b (b.raise v t) := by
  refine ⟨fun _ _ _ => id, fun _ _ => id, ?_⟩
  intro w
  by_cases hw : w = v
  · subst hw
    simpa [Ballots.raise] using h.le
  · simp [Ballots.raise, update_of_ne hw]

theorem Extends.cast {v c : S} (hopen : b.vote (b.term v) v = none) : Extends b (b.cast v c) := by
  refine ⟨?_, fun _ _ => id, fun _ => le_rfl⟩
  intro t w c' hw
  -- the only entry that changes was empty
  by_cases hsame : t = b.term v ∧ w = v
  · obtain ⟨rfl, rfl⟩ := hsame
    cases hopen ▸ hw
  · rwa [cast_vote_of_ne (by tauto)]

omit [DecidableEq S] in
theorem Extends.win {c : S} (h : ∀ c', b.lead (b.term c) = some c' → c' = c) :
    Extends b (b.win c) := by
  refine ⟨fun _ _ _ => id, ?_, fun _ => le_rfl⟩
  intro t c' hlead
  by_cases ht : t = b.term c
  · subst ht
    rw [h c' hlead]
    simp [Ballots.win]
  · simpa [Ballots.win, update_of_ne ht] using hlead

theorem Step.extends (hb : Sound M b) (h : Step M b b') : Extends b b' := by
  cases h with
  | raise v t hlt => exact .raise hlt
  | cast v c hopen _ => exact .cast hopen
  | win c helected =>
    exact .win (fun c' hlead => elected_unique (hb.elected _ _ hlead) helected)

theorem Step.sound (hb : Sound M b) (h : Step M b b') : Sound M b' := by
  have hext := h.extends hb
  cases h with
  | raise v t hlt =>
    refine ⟨?_, hb.pos, fun u c hl => hext.elected (hb.elected u c hl)⟩
    intro u w hne
    exact (hb.voted u w hne).trans (hext.term w)
  | cast v c hopen hpos =>
    have hcase (u : Nat) (w : S) (hne : (b.cast v c).vote u w ≠ none) :
        u = b.term v ∧ w = v ∨ b.vote u w ≠ none := by
      by_cases hsame : u = b.term v ∧ w = v
      · exact .inl hsame
      · rw [cast_vote_of_ne (by tauto)] at hne
        exact .inr hne
    refine ⟨?_, ?_, fun u c hl => hext.elected (hb.elected u c hl)⟩
    · intro u w hne
      rcases hcase u w hne with ⟨rfl, rfl⟩ | hold
      · exact le_rfl
      · exact hb.voted u w hold
    · intro u w hne
      rcases hcase u w hne with ⟨rfl, rfl⟩ | hold
      · exact hpos
      · exact hb.pos u w hold
  | win c helected =>
    refine ⟨hb.voted, hb.pos, ?_⟩
    intro u c' hl
    by_cases hu : u = b.term c
    · subst hu
      have hc : c = c' := by simpa [Ballots.win] using hl
      subst hc
      exact helected
    · have hold : b.lead u = some c' := by
        simpa [Ballots.win, update_of_ne hu] using hl
      exact hb.elected u c' hold

/-! ## What a member reports -/

namespace Ballots

/-- The ballots after member `v` was seen in term `t` with the given vote. -/
def recordVote (b : Ballots S) (v : S) (t : Nat) (choice : Option S) : Ballots S :=
  let b₁ := if b.term v < t then b.raise v t else b
  choice.elim b₁ (fun c => if b₁.vote t v = none then b₁.cast v c else b₁)

/-- The same for a member that may lead the term. -/
def record (b : Ballots S) (v : S) (t : Nat) (choice : Option S) (leads : Bool) : Ballots S :=
  let b' := b.recordVote v t choice
  if leads ∧ b'.lead t = none then b'.win v else b'

/-- A report that does not contradict what is on record. -/
structure Reports (b : Ballots S) (v : S) (t : Nat) (choice : Option S) : Prop where
  term : b.term v ≤ t
  vote : b.vote t v = none ∨ b.vote t v = choice
  pos : choice ≠ none → 0 < t

variable {v : S} {t : Nat} {choice : Option S} {leads : Bool}

section

variable (hr : b.Reports v t choice)
include hr

theorem recordVote_parts :
    ∃ b₁ : Ballots S, (b₁ = b ∧ b.term v = t ∨ b.term v < t ∧ b₁ = b.raise v t) ∧ b₁.term v = t ∧
      (b.recordVote v t choice = b₁ ∧ b₁.vote t v = choice ∨
        ∃ c, choice = some c ∧ b₁.vote t v = none ∧ b.recordVote v t choice = b₁.cast v c) := by
  unfold recordVote
  generalize hb₁ : (if b.term v < t then b.raise v t else b) = b₁
  have hfirst : b₁ = b ∧ b.term v = t ∨ b.term v < t ∧ b₁ = b.raise v t := by
    by_cases hlt : b.term v < t
    · exact .inr ⟨hlt, by rw [← hb₁, if_pos hlt]⟩
    · exact .inl ⟨by rw [← hb₁, if_neg hlt], Nat.le_antisymm hr.term (Nat.not_lt.mp hlt)⟩
  have hvote : b₁.vote = b.vote := by
    rcases hfirst with ⟨rfl, _⟩ | ⟨_, rfl⟩ <;> rfl
  have hterm : b₁.term v = t := by
    rcases hfirst with ⟨rfl, heq⟩ | ⟨_, rfl⟩
    · exact heq
    · simp [raise]
  refine ⟨b₁, hfirst, hterm, ?_⟩
  cases choice with
  | none =>
    refine .inl ⟨rfl, ?_⟩
    rw [hvote]
    exact hr.vote.elim id id
  | some c =>
    by_cases hopen : b₁.vote t v = none
    · exact .inr ⟨c, rfl, hopen, if_pos hopen⟩
    · refine .inl ⟨if_neg hopen, ?_⟩
      rw [hvote] at hopen ⊢
      exact hr.vote.resolve_left hopen

/-- What a report changes: the member's term and its vote in that term. -/
theorem recordVote_spec :
    (b.recordVote v t choice).term = update b.term v t ∧
    (b.recordVote v t choice).vote t v = choice ∧
    (∀ u w, u ≠ t ∨ w ≠ v → (b.recordVote v t choice).vote u w = b.vote u w) ∧
    (b.recordVote v t choice).lead = b.lead := by
  obtain ⟨b₁, h₁, hterm, h₂⟩ := recordVote_parts hr
  have hfirst : b₁.term = update b.term v t ∧ b₁.vote = b.vote ∧ b₁.lead = b.lead := by
    rcases h₁ with ⟨rfl, heq⟩ | ⟨_, rfl⟩
    · exact ⟨by rw [← heq, update_eq_self], rfl, rfl⟩
    · exact ⟨rfl, rfl, rfl⟩
  obtain ⟨ht, hv, hl⟩ := hfirst
  rcases h₂ with ⟨heq, hc⟩ | ⟨c, rfl, _, heq⟩
  · rw [heq]
    exact ⟨ht, hc, fun u w _ => by rw [hv], hl⟩
  · rw [heq]
    refine ⟨ht, ?_, ?_, hl⟩
    · rw [← hterm, cast_vote_self]
    · intro u w hne
      rw [cast_vote_of_ne (hterm ▸ hne), hv]

/-- A term without a leader gets one if the member leads. -/
theorem record_spec (leads : Bool) :
    (b.record v t choice leads).term = update b.term v t ∧
    (b.record v t choice leads).vote = (b.recordVote v t choice).vote ∧
    (b.record v t choice leads).lead =
      if leads ∧ b.lead t = none then update b.lead t (some v) else b.lead := by
  obtain ⟨ht, _, _, hl⟩ := recordVote_spec hr
  dsimp only [record]
  rw [hl]
  split
  · refine ⟨ht, rfl, ?_⟩
    simp only [win, hl, ht, update_self]
  · exact ⟨ht, rfl, hl⟩

/-- A consistent report of a member that leads only if it was elected is an execution. -/
theorem record_execution (helected : leads = true → (b.recordVote v t choice).Elected M t v) :
    ReflTransGen (Step M) b (b.record v t choice leads) := by
  have hvote : ReflTransGen (Step M) b (b.recordVote v t choice) := by
    obtain ⟨b₁, h₁, hterm, h₂⟩ := recordVote_parts hr
    have hfirst : ReflTransGen (Step M) b b₁ := by
      rcases h₁ with ⟨rfl, _⟩ | ⟨hlt, rfl⟩
      · exact .refl
      · exact .single (.raise b v t hlt)
    rcases h₂ with ⟨heq, _⟩ | ⟨c, hc, hopen, heq⟩
    · rwa [heq]
    · rw [heq]
      refine hfirst.tail (.cast b₁ v c (hterm ▸ hopen) ?_)
      rw [hterm]
      exact hr.pos (by rw [hc]; simp)
  dsimp only [record]
  split
  · rename_i hlead
    refine hvote.tail (.win _ v ?_)
    rw [(recordVote_spec hr).1, update_self]
    exact helected hlead.1
  · exact hvote

theorem recordVote_extends : Extends b (b.recordVote v t choice) := by
  obtain ⟨ht, hv, hother, hl⟩ := recordVote_spec hr
  refine ⟨?_, ?_, ?_⟩
  · intro u w c hw
    by_cases hsame : u = t ∧ w = v
    · obtain ⟨rfl, rfl⟩ := hsame
      rw [hv]
      exact (hr.vote.resolve_left (by rw [hw]; simp)).symm.trans hw
    · rwa [hother u w (by tauto)]
  · intro u c hc
    rwa [hl]
  · intro w
    rw [ht]
    by_cases hw : w = v
    · subst hw
      rw [update_self]
      exact hr.term
    · rw [update_of_ne hw]

end

end Ballots

/-! ## Executions -/

theorem Execution.extends (hb : Sound M b) (h : ReflTransGen (Step M) b b') :
    Sound M b' ∧ Extends b b' := by
  induction h with
  | refl => exact ⟨hb, Extends.refl b⟩
  | tail _ hstep ih => exact ⟨hstep.sound ih.1, ih.2.trans (hstep.extends ih.1)⟩

/-- Election safety: whoever leads a term at one point of an execution is the only one to lead it
at any later point. -/
theorem Execution.lead (hb : Sound M b) (h : ReflTransGen (Step M) b b')
    {c c' : S} (hc : b.lead t = some c) (hc' : b'.lead t = some c') : c = c' :=
  Option.some.inj (((Execution.extends hb h).2.lead t c hc).symm.trans hc')

end

end Voting

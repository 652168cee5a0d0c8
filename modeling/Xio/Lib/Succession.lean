import Xio.Lib.Voting

/-!
# Succession — elections while the electorate changes

Every member gives at most one vote in a term, as in `Voting`, but each has its own idea of who may
vote: its electorate. A member that stands in its term and has the votes of more than half of its
electorate leads the term. An electorate is replaced only while its owner does not stand and no newer
term has a leader, and only by one that is near every other electorate in use.

A term still has at most one leader (`Execution.lead`). The electorate that elected the leader of a
term, its mandate, stays near the electorate of everybody who may yet be elected in that term.
-/

namespace Succession

open Voting Function Relation

variable {S : Type*}

/-- Ballots with the electorate of each member, and whether the member stands in its term. -/
structure Contest (S : Type*) extends Ballots S where
  electorate : S → Finset S
  standing : S → Bool
  /-- The electorate that elected the leader of a term. -/
  mandate : Nat → Finset S
  running : Finset S

namespace Contest

variable (k : Contest S)

/-- The ballots without the leaders. -/
def votes : Ballots S := { k.toBallots with lead := fun _ => none }

variable [DecidableEq S]

def raise (v : S) (t : Nat) (stands : Bool) : Contest S :=
  { k with
    toBallots := k.toBallots.raise v t
    standing := Function.update k.standing v stands }

def cast (v c : S) : Contest S := { k with toBallots := k.toBallots.cast v c }

def withdraw (v : S) : Contest S := { k with standing := Function.update k.standing v false }

def win (c : S) : Contest S :=
  { k with
    toBallots := k.toBallots.win c
    standing := Function.update k.standing c false
    mandate := Function.update k.mandate (k.term c) (k.electorate c) }

/-- The member takes part from now on, with the given electorate. -/
def enter (v : S) (W : Finset S) : Contest S :=
  { k with electorate := Function.update k.electorate v W, running := insert v k.running }

def leave (v : S) : Contest S := { k with running := k.running.erase v }

end Contest

inductive Step [DecidableEq S] : Contest S → Contest S → Prop
  | raise (k : Contest S) (v : S) (t : Nat) (stands : Bool) (h : k.term v < t) :
      Step k (k.raise v t stands)
  | cast (k : Contest S) (v c : S) (h : k.vote (k.term v) v = none) : Step k (k.cast v c)
  | withdraw (k : Contest S) (v : S) : Step k (k.withdraw v)
  | win (k : Contest S) (c : S) (hrun : c ∈ k.running) (hstand : k.standing c = true)
      (h : k.Elected (k.electorate c) (k.term c) c) : Step k (k.win c)
  | enter (k : Contest S) (v : S) (W : Finset S) (hstand : k.standing v = false)
      (hlead : ∀ t c, k.lead t = some c → t ≤ k.term v)
      (hnear : ∀ w ∈ k.running, w ≠ v → Near W (k.electorate w)) : Step k (k.enter v W)
  | leave (k : Contest S) (v : S) : Step k (k.leave v)

variable [DecidableEq S] {k k' : Contest S}

/-- Leaders have their mandate, and it is near the electorate of everybody who may still be elected
in the same term. -/
structure Sound (k : Contest S) : Prop where
  elected : ∀ t c, k.lead t = some c → k.Elected (k.mandate t) t c
  near : ∀ v ∈ k.running, ∀ w ∈ k.running, Near (k.electorate v) (k.electorate w)
  heir : ∀ t c, k.lead t = some c → ∀ v ∈ k.running,
    k.term v < t ∨ k.term v = t ∧ k.standing v = true → Near (k.mandate t) (k.electorate v)

/-! ## One step -/

theorem Step.extends (hk : Sound k) (h : Step k k') : Extends k.toBallots k'.toBallots := by
  cases h with
  | raise v t stands hlt => exact .raise hlt
  | cast v c hopen => exact .cast hopen
  | withdraw v => exact .refl _
  | win c hrun hstand helected =>
    refine .win (fun c' hlead => ?_)
    -- the winner was still in the race when the earlier leader got its mandate
    have hn := hk.heir _ _ hlead c hrun (.inr ⟨rfl, hstand⟩)
    exact elected_unique_of_near hn (hk.elected _ _ hlead) helected
  | enter v W _ _ _ => exact .refl _
  | leave v => exact .refl _

/-- A step that changes neither leaders nor electorates, and after which everybody in the race was in
the race before. -/
theorem Sound.of_race (hk : Sound k) (hext : Extends k.toBallots k'.toBallots)
    (hlead : k'.lead = k.lead) (hmand : k'.mandate = k.mandate)
    (helec : k'.electorate = k.electorate) (hrun : ∀ v ∈ k'.running, v ∈ k.running)
    (hrace : ∀ t, ∀ v ∈ k'.running, k'.term v < t ∨ k'.term v = t ∧ k'.standing v = true →
      k.term v < t ∨ k.term v = t ∧ k.standing v = true) : Sound k' := by
  refine ⟨?_, ?_, ?_⟩
  · intro t c hl
    rw [hlead] at hl
    rw [hmand]
    exact hext.elected (hk.elected t c hl)
  · intro v hv w hw
    rw [helec]
    exact hk.near v (hrun v hv) w (hrun w hw)
  · intro t c hl v hv hin
    rw [hlead] at hl
    rw [hmand, helec]
    exact hk.heir t c hl v (hrun v hv) (hrace t v hv hin)

theorem Sound.raise (hk : Sound k) {v : S} {t : Nat} {stands : Bool} (hlt : k.term v < t) :
    Sound (k.raise v t stands) := by
  refine hk.of_race (.raise hlt) rfl rfl rfl (fun _ => id) ?_
  intro u w _ hin
  by_cases hw : w = v
  · -- whoever stands in the new term was behind it before
    subst hw
    simp only [Contest.raise, Ballots.raise, update_self] at hin
    rcases hin with hlt' | ⟨rfl, _⟩
    · exact .inl (hlt.trans hlt')
    · exact .inl hlt
  · simpa [Contest.raise, Ballots.raise, update_of_ne hw] using hin

theorem Sound.withdraw (hk : Sound k) (v : S) : Sound (k.withdraw v) := by
  refine hk.of_race (.refl _) rfl rfl rfl (fun _ => id) ?_
  intro u w _ hin
  by_cases hw : w = v
  · subst hw
    simp only [Contest.withdraw, update_self, Bool.false_eq_true, and_false, or_false] at hin
    exact .inl hin
  · simpa [Contest.withdraw, update_of_ne hw] using hin

theorem Sound.win (hk : Sound k) {c : S} (hrun : c ∈ k.running)
    (hext : Extends k.toBallots (k.win c).toBallots)
    (helected : k.Elected (k.electorate c) (k.term c) c) : Sound (k.win c) := by
  refine ⟨?_, hk.near, ?_⟩
  · intro t c' hl
    by_cases ht : t = k.term c
    · subst ht
      have hc : c = c' := by simpa [Contest.win, Ballots.win] using hl
      subst hc
      simpa [Contest.win] using hext.elected helected
    · have hold : k.lead t = some c' := by
        simpa [Contest.win, Ballots.win, update_of_ne ht] using hl
      simpa [Contest.win, update_of_ne ht] using hext.elected (hk.elected t c' hold)
  · intro t c' hl w hw hin
    by_cases ht : t = k.term c
    · -- the new mandate is an electorate in use
      subst ht
      simpa [Contest.win] using hk.near c hrun w hw
    · have hold : k.lead t = some c' := by
        simpa [Contest.win, Ballots.win, update_of_ne ht] using hl
      have hin' : k.term w < t ∨ k.term w = t ∧ k.standing w = true := by
        refine hin.imp_right (And.imp_right ?_)
        intro hs
        by_cases hwc : w = c
        · subst hwc
          simp [Contest.win] at hs
        · simpa [Contest.win, update_of_ne hwc] using hs
      simpa [Contest.win, update_of_ne ht] using hk.heir t c' hold w hw hin'

theorem Sound.enter (hk : Sound k) {v : S} {W : Finset S} (hstand : k.standing v = false)
    (hlead : ∀ t c, k.lead t = some c → t ≤ k.term v)
    (hnear : ∀ w ∈ k.running, w ≠ v → Near W (k.electorate w)) : Sound (k.enter v W) := by
  have hold (w : S) (hw : w ∈ insert v k.running) (hne : w ≠ v) : w ∈ k.running :=
    Finset.mem_of_mem_insert_of_ne hw hne
  refine ⟨hk.elected, ?_, ?_⟩
  · intro x hx y hy
    by_cases hxv : x = v <;> by_cases hyv : y = v
    · subst hxv hyv
      exact Near.refl _
    · subst hxv
      simpa [Contest.enter, update_of_ne hyv] using hnear y (hold y hy hyv) hyv
    · subst hyv
      simpa [Contest.enter, update_of_ne hxv] using (hnear x (hold x hx hxv) hxv).symm
    · simpa [Contest.enter, update_of_ne hxv, update_of_ne hyv] using
        hk.near x (hold x hx hxv) y (hold y hy hyv)
  · intro t c hl w hw hin
    by_cases hwv : w = v
    · -- nobody leads a term that the member could still win
      subst hwv
      have hle := hlead t c hl
      rcases hin with hlt | ⟨_, hs⟩
      · exact absurd hlt (Nat.not_lt.mpr hle)
      · exact absurd (hstand.symm.trans hs) (by simp)
    · simpa [Contest.enter, update_of_ne hwv] using hk.heir t c hl w (hold w hw hwv) hin

theorem Step.sound (hk : Sound k) (h : Step k k') : Sound k' := by
  have hext := h.extends hk
  cases h with
  | raise v t stands hlt => exact hk.raise hlt
  | cast v c hopen => exact hk.of_race hext rfl rfl rfl (fun _ => id) (fun _ _ _ => id)
  | withdraw v => exact hk.withdraw v
  | win c hrun _ helected => exact hk.win hrun hext helected
  | enter v W hstand hlead hnear => exact hk.enter hstand hlead hnear
  | leave v =>
    exact hk.of_race hext rfl rfl rfl (fun _ h => Finset.mem_of_mem_erase h) (fun _ _ _ => id)

/-! ## What a member reports -/

namespace Contest

/-- The contest after member `v` was seen in term `t` with the given vote, standing or not. -/
def poll (k : Contest S) (v : S) (t : Nat) (choice : Option S) (stands : Bool) : Contest S :=
  { k with
    toBallots := k.toBallots.recordVote v t choice
    standing := Function.update k.standing v stands }

variable {v : S} {t : Nat} {choice : Option S} {stands : Bool} {W : Finset S}

theorem poll_votes (k : Contest S) (v : S) (t : Nat) (choice : Option S) (stands : Bool) :
    (k.poll v t choice stands).votes = k.votes.recordVote v t choice := by
  -- no part of a report looks at the leaders
  unfold votes poll Ballots.recordVote
  by_cases hlt : k.term v < t
  · cases choice with
    | none => simp [hlt, Ballots.raise]
    | some c => by_cases hopen : k.vote t v = none <;> simp [hlt, hopen, Ballots.raise, Ballots.cast]
  · cases choice with
    | none => simp [hlt]
    | some c => by_cases hopen : k.vote t v = none <;> simp [hlt, hopen, Ballots.cast]

theorem poll_execution (hr : k.Reports v t choice)
    (hst : stands = true → k.term v < t ∨ k.standing v = true) :
    ReflTransGen Step k (k.poll v t choice stands) := by
  obtain ⟨b₁, h₁, hterm, h₂⟩ := Ballots.recordVote_parts hr
  have hfirst : ReflTransGen Step k
      { k with toBallots := b₁, standing := update k.standing v stands } := by
    rcases h₁ with ⟨rfl, heq⟩ | ⟨hlt, rfl⟩
    · by_cases hsame : stands = k.standing v
      · rw [hsame, update_eq_self]
      · cases stands with
        | false => exact .single (.withdraw k v)
        | true => exact absurd ((hst rfl).resolve_left (by omega)).symm hsame
    · exact .single (.raise k v t stands hlt)
  rcases h₂ with ⟨heq, _⟩ | ⟨c, _, hopen, heq⟩
  · rwa [poll, heq]
  · rw [poll, heq]
    exact hfirst.tail (.cast _ v c (hterm ▸ hopen))

/-- The contest `k'` is `k` after a report of member `v`. -/
structure Reported (k k' : Contest S) (v : S) (t : Nat) (choice : Option S) (stands : Bool)
    (W : Finset S) : Prop where
  votes : k'.votes = k.votes.recordVote v t choice
  standing : k'.standing = Function.update k.standing v stands
  electorate : k'.electorate = Function.update k.electorate v W
  running : k'.running = insert v k.running
  lead : ∀ u c, k'.lead u = some c → k.lead u = some c ∨ u = t ∧ c = v

theorem poll_reported (hr : k.Reports v t choice) (hrun : v ∈ k.running) :
    Reported k (k.poll v t choice stands) v t choice stands (k.electorate v) := by
  refine ⟨poll_votes k v t choice stands, rfl, (update_eq_self _ _).symm,
    (Finset.insert_eq_of_mem hrun).symm, ?_⟩
  intro u c hl
  have hlead : (k.poll v t choice stands).lead = k.lead := (Ballots.recordVote_spec hr).2.2.2
  rw [hlead] at hl
  exact .inl hl

theorem win_reported (hr : k.Reports v t choice) (hrun : v ∈ k.running)
    (hst : k.term v < t ∨ k.standing v = true)
    (helected : (k.recordVote v t choice).Elected (k.electorate v) t v) :
    ∃ k', ReflTransGen Step k k' ∧ k'.lead t = some v ∧
      Reported k k' v t choice false (k.electorate v) := by
  have hpoll : ReflTransGen Step k (k.poll v t choice true) :=
    poll_execution hr (fun _ => hst)
  obtain ⟨hterm, _, _, hlead⟩ := Ballots.recordVote_spec hr
  have ht : (k.poll v t choice true).term v = t := by
    change (k.recordVote v t choice).term v = t
    rw [hterm, update_self]
  refine ⟨(k.poll v t choice true).win v, hpoll.tail (.win _ v hrun ?_ ?_), ?_, ?_⟩
  · simp [poll]
  · rwa [ht]
  · simp [win, Ballots.win, ht]
  · refine ⟨poll_votes k v t choice true, by simp [win, poll], (update_eq_self _ _).symm,
      (Finset.insert_eq_of_mem hrun).symm, ?_⟩
    intro u c hl
    by_cases hu : u = t
    · subst hu
      have hc : v = c := by simpa [win, Ballots.win, ht] using hl
      exact .inr ⟨rfl, hc.symm⟩
    · refine .inl ?_
      have hold : (k.poll v t choice true).lead u = some c := by
        simpa [win, Ballots.win, ht, update_of_ne hu] using hl
      have hsame : (k.poll v t choice true).lead = k.lead := hlead
      rwa [hsame] at hold

/-- The member took over an electorate, or entered with one. -/
theorem enter_reported (hr : k.Reports v t choice) (hlead : ∀ u c, k.lead u = some c → u ≤ t)
    (hnear : ∀ w ∈ k.running, w ≠ v → Near W (k.electorate w)) :
    ∃ k', ReflTransGen Step k k' ∧ k'.lead = k.lead ∧ Reported k k' v t choice false W := by
  obtain ⟨hterm, _, _, hsame⟩ := Ballots.recordVote_spec hr
  have ht : (k.poll v t choice false).term v = t := by
    change (k.recordVote v t choice).term v = t
    rw [hterm, update_self]
  have hl : (k.poll v t choice false).lead = k.lead := hsame
  refine ⟨(k.poll v t choice false).enter v W,
    (poll_execution hr (by simp)).tail (.enter _ v W (by simp [poll]) ?_ hnear), hl,
    ⟨poll_votes k v t choice false, rfl, rfl, rfl, ?_⟩⟩
  · intro u c hu
    rw [ht]
    rw [hl] at hu
    exact hlead u c hu
  · intro u c hu
    change (k.poll v t choice false).lead u = some c at hu
    rw [hl] at hu
    exact .inl hu

end Contest

/-! ## Executions -/

theorem Execution.extends (hk : Sound k) (h : ReflTransGen Step k k') :
    Sound k' ∧ Extends k.toBallots k'.toBallots := by
  induction h with
  | refl => exact ⟨hk, Extends.refl _⟩
  | tail _ hstep ih => exact ⟨hstep.sound ih.1, ih.2.trans (hstep.extends ih.1)⟩

/-- Whoever leads a term at one point of an execution is the only one to lead it at any later point,
whatever happens to the electorates in between. -/
theorem Execution.lead (hk : Sound k) (h : ReflTransGen Step k k') {t : Nat} {c c' : S}
    (hc : k.lead t = some c) (hc' : k'.lead t = some c') : c = c' :=
  Option.some.inj (((Execution.extends hk h).2.lead t c hc).symm.trans hc')

end Succession

import GrowArena.Proofs.Paired
import GrowArena.Race.Schedule

/-!
What a schedule does. What every turn keeps is kept by all turns together. And if every turn of a
participant brings it nearer to its end, it comes as near as it has turns, whatever the others do
between them.
-/

namespace GrowArena
namespace Schedule

variable {ρ σ τ : Type} {act : ρ → σ → ρ × σ}

theorem run_induct {P : List ρ → σ → Prop}
    (hact : ∀ (place : Nat) p participants shared, participants[place]? = some p →
      P participants shared → P (participants.set place (act p shared).1) (act p shared).2)
    (schedule : Schedule) {participants : List ρ} {shared : σ} (h : P participants shared) :
    P (schedule.run act participants shared).1 (schedule.run act participants shared).2 := by
  induction schedule generalizing participants shared with
  | nil => exact h
  | cons place schedule ih =>
      simp only [run]
      cases hplace : participants[place]? with
      | none => exact ih h
      | some p => exact ih (hact place p participants shared hplace h)

/-- If every turn keeps participants and what they share related, so do all turns together. -/
theorem related_run {ρ' σ' : Type} {act' : ρ' → σ' → ρ' × σ'} {R : ρ → ρ' → Prop}
    {S : σ → σ' → Prop}
    (hact : ∀ p p' shared shared', R p p' → S shared shared' →
      R (act p shared).1 (act' p' shared').1 ∧ S (act p shared).2 (act' p' shared').2)
    (schedule : Schedule) {participants : List ρ} {participants' : List ρ'} {shared : σ}
    {shared' : σ'} (hp : List.Forall₂ R participants participants') (hs : S shared shared') :
    List.Forall₂ R (schedule.run act participants shared).1
        (schedule.run act' participants' shared').1 ∧
      S (schedule.run act participants shared).2 (schedule.run act' participants' shared').2 := by
  induction schedule generalizing participants participants' shared shared' with
  | nil => exact ⟨hp, hs⟩
  | cons place schedule ih =>
      have hplace := rel_getElem? hp place
      simp only [run]
      generalize participants[place]? = p?, participants'[place]? = p'? at hplace
      cases hplace with
      | none => exact ih hp hs
      | some hpp =>
          obtain ⟨hnext, hshared⟩ := hact _ _ shared shared' hpp hs
          refine ih ?_ hshared
          rw [List.set_eq_modify, List.set_eq_modify]
          exact forall₂_modify hp (fun _ _ _ => hnext) place

/-- A participant among the others, and another in the same place. -/
theorem exists_split_set {participants : List ρ} {i : Nat} {p : ρ} (h : participants[i]? = some p) :
    ∃ before after, participants = before ++ p :: after ∧
      ∀ p', participants.set i p' = before ++ p' :: after := by
  obtain ⟨hi, rfl⟩ := List.getElem?_eq_some_iff.mp h
  refine ⟨participants.take i, participants.drop (i + 1), ?_, ?_⟩
  · rw [List.getElem_cons_drop, List.take_append_drop]
  · intro p'
    rw [List.set_eq_take_append_cons_drop, if_pos hi]

/-- A participant has its turns, however the others come between them. -/
theorem due_run {due : ρ → Nat} (hact : ∀ p shared, due (act p shared).1 ≤ due p - 1)
    (schedule : Schedule) {participants : List ρ} (shared : σ) {i : Nat} {p : ρ}
    (hp : participants[i]? = some p) :
    ∃ p', (schedule.run act participants shared).1[i]? = some p' ∧
      due p' ≤ due p - schedule.count i := by
  induction schedule generalizing participants shared p with
  | nil => exact ⟨p, hp, Nat.le_refl _⟩
  | cons place schedule ih =>
      simp only [run]
      by_cases hplace : place = i
      · subst hplace
        obtain ⟨hi, -⟩ := List.getElem?_eq_some_iff.mp hp
        have hset : (participants.set place (act p shared).1)[place]? =
            some (act p shared).1 := by simp [hi]
        obtain ⟨p', hp', hdue⟩ := ih (act p shared).2 hset
        have hfirst := hact p shared
        simp only [hp, List.count_cons_self]
        exact ⟨p', hp', by omega⟩
      · rw [List.count_cons_of_ne hplace]
        cases hq : participants[place]? with
        | none => exact ih shared hp
        | some q =>
            apply ih
            rwa [List.getElem?_set_ne hplace]

theorem count_replicate_flatMap (turns : List Nat) (first i : Nat) :
    ((turns.zipIdx first).flatMap fun (count, place) => List.replicate count place).count
        (first + i) = turns[i]?.getD 0 := by
  induction turns generalizing first i with
  | nil => rfl
  | cons count turns ih =>
      rw [List.zipIdx_cons, List.flatMap_cons, List.count_append, List.count_replicate]
      cases i with
      | zero =>
          have hlater : ((turns.zipIdx (first + 1)).flatMap
              fun (count, place) => List.replicate count place).count first = 0 := by
            rw [List.count_eq_zero]
            intro hmem
            obtain ⟨⟨n, place⟩, hplace, hfirst⟩ := List.mem_flatMap.mp hmem
            obtain rfl := (List.mem_replicate.mp hfirst).2
            have hle := List.le_snd_of_mem_zipIdx hplace
            omega
          simp [hlater]
      | succ i =>
          have hlater := ih (first + 1) i
          rw [Nat.add_assoc, Nat.add_comm 1 i] at hlater
          rw [hlater]
          simp

/-- Those who take their turns in order have as many as they are given. -/
theorem count_inOrder (turns : List Nat) (i : Nat) :
    (inOrder turns).count i = turns[i]?.getD 0 := by
  simpa [inOrder] using count_replicate_flatMap turns 0 i

theorem run_append (schedule more : Schedule) (participants : List ρ) (shared : σ) :
    (schedule ++ more).run act participants shared =
      more.run act (schedule.run act participants shared).1
        (schedule.run act participants shared).2 := by
  induction schedule generalizing participants shared with
  | nil => rfl
  | cons place schedule ih =>
      simp only [List.cons_append, run]
      cases participants[place]? with
      | none => exact ih participants shared
      | some p => exact ih _ _

theorem length_run (schedule : Schedule) (participants : List ρ) (shared : σ) :
    (schedule.run act participants shared).1.length = participants.length := by
  apply run_induct (P := fun now _ => now.length = participants.length) _ schedule rfl
  intro place p now shared _ h
  rwa [List.length_set]

theorem run_replicate_of_none {participants : List ρ} {i : Nat} (hnone : participants[i]? = none)
    (n : Nat) (shared : σ) :
    Schedule.run act (List.replicate n i) participants shared = (participants, shared) := by
  induction n with
  | zero => rfl
  | succ n ih =>
      simp only [List.replicate_succ, run, hnone]
      exact ih

section

variable {P : ρ → Prop} (due : ρ → σ → Nat)

/-- Alone, a participant has its turns one after the other, and comes as near to its end. -/
theorem due_run_replicate (hkept : ∀ p shared, P p → P (act p shared).1)
    (hdue : ∀ p shared, P p → due (act p shared).1 (act p shared).2 ≤ due p shared - 1)
    (n : Nat) {participants : List ρ} (shared : σ) {i : Nat} {p : ρ}
    (hp : participants[i]? = some p) (hP : P p) :
    let out := Schedule.run act (List.replicate n i) participants shared
    ∃ p', out.1 = participants.set i p' ∧ due p' out.2 ≤ due p shared - n := by
  induction n generalizing participants shared p with
  | zero =>
      refine ⟨p, ?_, Nat.le_refl _⟩
      obtain ⟨hi, rfl⟩ := List.getElem?_eq_some_iff.mp hp
      exact (List.set_getElem_self hi).symm
  | succ n ih =>
      obtain ⟨hi, -⟩ := List.getElem?_eq_some_iff.mp hp
      have hset : (participants.set i (act p shared).1)[i]? = some (act p shared).1 := by
        simp [hi]
      obtain ⟨p', hout, hle⟩ := ih (act p shared).2 hset (hkept p shared hP)
      have hfirst := hdue p shared hP
      simp only [List.replicate_succ, run, hp]
      refine ⟨p', ?_, by omega⟩
      rw [hout, List.set_set]

theorem due_run_flatMap_replicate (hkept : ∀ p shared, P p → P (act p shared).1)
    (hdue : ∀ p shared, P p → due (act p shared).1 (act p shared).2 ≤ due p shared - 1)
    {ended : ρ → Prop} (hended : ∀ p shared, due p shared = 0 → ended p)
    (turns : List Nat) (first : Nat) {participants : List ρ} (shared : σ)
    (h : ∀ (i : Nat) n p, turns[i]? = some n → participants[first + i]? = some p →
      P p ∧ ∀ shared, due p shared ≤ n) :
    let out := Schedule.run act
      ((turns.zipIdx first).flatMap fun (count, place) => List.replicate count place)
      participants shared
    (∀ i, i < first → out.1[i]? = participants[i]?) ∧
      ∀ (i : Nat) p, i < turns.length → out.1[first + i]? = some p → ended p := by
  induction turns generalizing first participants shared with
  | nil => exact ⟨fun _ _ => rfl, fun i _ hi => absurd hi (Nat.not_lt_zero i)⟩
  | cons n turns ih =>
      simp only [List.zipIdx_cons, List.flatMap_cons, run_append]
      generalize hnow : Schedule.run act (List.replicate n first) participants shared = now
      -- The participant in the first place has its turns, and nobody else is changed by them.
      have hthis : (∀ i, i ≠ first → now.1[i]? = participants[i]?) ∧
          ∀ p, now.1[first]? = some p → ended p := by
        cases hp : participants[first]? with
        | none =>
            rw [run_replicate_of_none hp] at hnow
            subst hnow
            exact ⟨fun _ _ => rfl, fun p hq => by rw [hp] at hq; cases hq⟩
        | some p =>
            obtain ⟨hP, hle⟩ := h 0 n p rfl hp
            obtain ⟨p', hout, hleft⟩ := due_run_replicate due hkept hdue n shared hp hP
            rw [hnow] at hout hleft
            have hzero : due p' now.2 = 0 := by
              have := hle shared
              omega
            rw [hout]
            refine ⟨fun i hi => List.getElem?_set_ne (Ne.symm hi), ?_⟩
            intro q hq
            obtain ⟨hi, -⟩ := List.getElem?_eq_some_iff.mp hp
            obtain rfl : p' = q := by simpa [hi] using hq
            exact hended _ _ hzero
      obtain ⟨hothers, hfirst⟩ := hthis
      have hrest : ∀ (i : Nat) m p, turns[i]? = some m → now.1[first + 1 + i]? = some p →
          P p ∧ ∀ shared, due p shared ≤ m := by
        intro i m p hm hp
        rw [hothers _ (by omega)] at hp
        exact h (i + 1) m p hm (by rwa [Nat.add_assoc, Nat.add_comm 1 i] at hp)
      obtain ⟨hbefore, hends⟩ := ih (first + 1) now.2 hrest
      refine ⟨fun i hi => ?_, fun i p hi hp => ?_⟩
      · rw [hbefore i (by omega), hothers i (by omega)]
      · cases i with
        | zero => exact hfirst p ((hbefore first (Nat.lt_succ_self first)).symm.trans hp)
        | succ i =>
            rw [Nat.add_comm i 1, ← Nat.add_assoc] at hp
            exact hends i p (Nat.lt_of_succ_lt_succ hi) hp

/-- Those who go on in order, with turns enough for what is due, all come to their end. -/
theorem ended_run_inOrder (hkept : ∀ p shared, P p → P (act p shared).1)
    (hdue : ∀ p shared, P p → due (act p shared).1 (act p shared).2 ≤ due p shared - 1)
    {ended : ρ → Prop} (hended : ∀ p shared, due p shared = 0 → ended p)
    (turns : List Nat) {participants : List ρ} (shared : σ)
    (h : ∀ (i : Nat) n p, turns[i]? = some n → participants[i]? = some p →
      P p ∧ ∀ shared, due p shared ≤ n) {i : Nat} {p : ρ} (hi : i < turns.length)
    (hp : ((inOrder turns).run act participants shared).1[i]? = some p) : ended p := by
  have hends := (due_run_flatMap_replicate due hkept hdue hended turns 0 shared
    (by simpa using h)).2 i p hi
  exact hends (by rwa [Nat.zero_add])

end

end Schedule
end GrowArena

import GrowArena.Proofs.Race.Billing
import GrowArena.Proofs.Race.Ending
import GrowArena.Proofs.Race.Writers

/-!
What jobs leave behind: commands, races for memory and races of writers. What every claim and every
step towards its completion keeps is kept by a race of writers, wherever its schedule stops. Books
that steps of attempts and rewinds keep are right in every state that jobs lead to.
-/

namespace GrowArena

variable {σ α : Type}

section

variable {β ν : Type} [Staged β ν α]

/-- The store and the array after the writers have had these turns. -/
def racing [SlabSource σ] [Segment ν α] (values : List (List α)) (schedule : Schedule)
    (state : Store σ × β) : Store σ × β :=
  let writers : List (Writer β) := values.map fun todo => { todo }
  let reader : Reader α := { cursor := (Staged.chain state.2).start }
  (schedule.run Writer.watchedTurn writers (state, reader)).2.1

/-- A race is over when the writers have had their turns and then those that they have alone. -/
theorem racing_of_racePush [SlabSource σ] [Segment ν α] (values : List (List α))
    (schedule : Schedule) (state : Store σ × β) :
    (racePush values schedule state).2 =
      racing values (schedule ++ Schedule.inOrder (values.map (Staged.steps β * ·.length)))
        state := rfl

/-- What claims and steps towards their completion keep is kept by a race, wherever it stands. -/
theorem racing_induct [SlabSource σ] [Segment ν α] {P : Store σ × β → Prop}
    (hclaim : ∀ value state, P state → P (finalState (Staged.claim value state)))
    (hproceed : ∀ pending state, P state → P (state.1, (Staged.proceed pending state.2).2))
    (values : List (List α)) (schedule : Schedule) {state : Store σ × β} (h : P state) :
    P (racing values schedule state) := by
  have hturn : ∀ (w : Writer β) (state : Store σ × β), P state → P (w.turn state).2 := by
    intro w state hstate
    cases hpending : w.pending with
    | some pending =>
        rw [Writer.turn_of_pending hpending]
        exact hproceed pending state hstate
    | none =>
        cases htodo : w.todo with
        | nil =>
            rw [Writer.turn_of_nil hpending htodo]
            exact hstate
        | cons value todo =>
            have hclaimed := hclaim value state hstate
            cases hresult : Staged.claim value state with
            | ok pending state' =>
                rw [hresult] at hclaimed
                rw [Writer.turn_of_ok hpending htodo hresult]
                exact hclaimed
            | error fault state' =>
                rw [hresult] at hclaimed
                rw [Writer.turn_of_error hpending htodo hresult]
                exact hclaimed
  exact Schedule.run_induct
    (P := fun (_ : List (Writer β)) (shared : (Store σ × β) × Reader α) => P shared.1)
    (fun _ w _ shared _ hshared => hturn w shared.1 hshared) schedule h

end

variable [SlabSource σ]

theorem TypedArray.leads_racing (values : List (List α)) (schedule : Schedule)
    (state : Store σ × TypedArray α) : state.1.Leads (racing values schedule state).1 := by
  apply racing_induct (P := fun now => state.1.Leads now.1)
  · intro value now h
    have hclaim := (calls_claim now).leads
    simp only [Staged.claim]
    cases hresult : claim now <;> exact h.trans (by rwa [hresult] at hclaim)
  · exact fun _ _ h => h
  · exact .refl _

theorem PackedArray.leads_racing (values : List (List UInt32)) (schedule : Schedule)
    (state : Store σ × PackedArray) : state.1.Leads (racing values schedule state).1 := by
  apply racing_induct (P := fun now => state.1.Leads now.1)
  · intro word now h
    have hreserve := (calls_reserve (Leb128.encode word).length now).leads
    simp only [Staged.claim]
    cases hresult : reserve (Leb128.encode word).length now <;>
      exact h.trans (by rwa [hresult] at hreserve)
  · exact fun _ _ h => h
  · exact .refl _

namespace Holding

variable [Element α]

/-- The store and the array after writers have had these turns. -/
def racing (values : List (List α)) (schedule : Schedule) :
    Store σ × Holding α → Store σ × Holding α
  | (s, typed kind a) =>
      let (s, a) := GrowArena.racing values schedule (s, a)
      (s, typed kind a)
  | (s, packed a) =>
      let (s, a) := GrowArena.racing (values.map (·.map Element.toWord)) schedule (s, a)
      (s, packed a)

theorem exists_racing_eq (values : List (List α)) (schedule : Schedule)
    (state : Store σ × Holding α) :
    ∃ turns, (racePush values schedule state).2 = racing values turns state := by
  obtain ⟨s, h⟩ := state
  cases h with
  | typed kind a => exact ⟨_, rfl⟩
  | packed a => exact ⟨_, rfl⟩

theorem leads_racing (values : List (List α)) (schedule : Schedule)
    (state : Store σ × Holding α) : state.1.Leads (racing values schedule state).1 := by
  obtain ⟨s, h⟩ := state
  cases h with
  | typed kind a => exact TypedArray.leads_racing values schedule (s, a)
  | packed a => exact PackedArray.leads_racing _ schedule (s, a)

end Holding

namespace Workspace

variable [Element α]

/-- What a job may do to a workspace. -/
inductive Left (w : Workspace σ α) : Workspace σ α → Prop
  | commanded {c : Command α} {result : Except Failure (Answer α)} {w' : Workspace σ α}
      (heffect : Effect w c result w') : Left w w'
  | racedForMemory (requests : List (List Request)) (schedule : Schedule) :
      Left w { w with store := (w.store.raceAllocate requests schedule).2, raced := true }
  | racedForArray {array : String} {h h' : Holding α} {s : Store σ} {values : List (List α)}
      {schedule : Schedule} (hfind : w.arrays.find? array = some h)
      (hrace : Holding.racing values schedule (w.store, h) = (s, h')) (destroyed : List α) :
      Left w ({ w.setArray array s h' with raced := true }.destroy destroyed)
  | missed : Left w w

theorem left_carryOut (job : Job α) (w : Workspace σ α) :
    Left w (finalState (carryOut job w)) := by
  cases job with
  | command c => exact .commanded (effect_perform c w)
  | raceAllocate requests schedule =>
      simp only [carryOut, raceForMemory]
      split <;> exact .racedForMemory requests schedule
  | racePush array values schedule =>
      simp only [carryOut, race]
      cases hfind : w.arrays.find? array with
      | none => exact .missed
      | some h =>
          obtain ⟨turns, hturns⟩ := Holding.exists_racing_eq values schedule (w.store, h)
          dsimp only
          split <;> exact .racedForArray hfind hturns.symm _

/-- What every job keeps true of a quieted workspace is true after every run. -/
theorem run_induct {P : Workspace σ α → Prop} (hquiet : ∀ w, P w → P w.quieted)
    (hleft : ∀ w w', Left w w' → P w → P w') (jobs : List (Job α)) {w : Workspace σ α} (h : P w) :
    P (w.run jobs).2 := by
  induction jobs generalizing w with
  | nil => exact h
  | cons job jobs ih =>
      have hstep : (w.step job).2 = finalState (carryOut job w.quieted) := by
        simp only [step]
        cases carryOut job w.quieted <;> rfl
      have hfirst := hleft _ _ (left_carryOut job w.quieted) (hquiet w h)
      rw [← hstep] at hfirst
      exact ih hfirst

end Workspace

namespace Store.Books

variable {B : List Chunk → List Grant → Store σ → Prop}

/-- All callers come to their ends, and then nothing is held. -/
theorem raceAllocate (hB : Books B) {s : Store σ} (hs : B [] [] s)
    (requests : List (List Request)) (schedule : Schedule) :
    B [] [] (s.raceAllocate requests schedule).2 := by
  have hraced := (Raced.start hs requests).run hB
    (schedule ++ Schedule.inOrder (requests.map (Caller.turnsAlone * ·.length)))
  exact hraced.books_of_idle fun c hc => (ended_raceAllocate requests schedule s c hc).1

/-- Books that rewinds keep as well are right after every run. -/
theorem run [Element α] (hB : Books B) (hrewind : ∀ s, B [] [] s → B [] [] s.rewind)
    (jobs : List (Job α)) {w : Workspace σ α} (h : B [] [] w.store) :
    B [] [] (w.run jobs).2.store := by
  apply Workspace.run_induct (P := fun w => B [] [] w.store) _ _ jobs h
  · exact fun w hw => hB.logged hw #[]
  · intro w w' hleft hw
    cases hleft with
    | @commanded c result w' heffect =>
        by_cases hc : c = .rewind
        · subst hc
          cases heffect with
          | cleared => exact hrewind _ hw
          | nothing => exact hw
          | granted hrequest | denied hrequest => cases hrequest
        · exact hB.leads ((Workspace.calls_of_effect heffect hc).leads) hw
    | racedForMemory requests schedule => exact hB.raceAllocate hw requests schedule
    | @racedForArray array h h' s values schedule hfind hrace =>
        have hleads := Holding.leads_racing values schedule (w.store, h)
        rw [hrace] at hleads
        exact hB.leads hleads hw
    | missed => exact hw

end Store.Books

namespace Workspace

variable [Element α]

/-- Whatever the source tracks, the bill of a new arena is right after every run. -/
theorem billed_run {Owns : σ → List Slab → Prop} (hsource : SlabSource.Tracked Owns) {source : σ}
    (hnew : Owns source []) (blockSize : Nat) (jobs : List (Job α)) :
    (run jobs (ofArena (.ofBlockSize blockSize) source)).2.store.Billed Owns [] [] :=
  (Store.books_billed hsource).run (fun _ h => h.rewind hsource) jobs (.new hnew blockSize)

theorem blockSize_run (source : σ) (blockSize : Nat) (jobs : List (Job α)) :
    (run jobs (ofArena (.ofBlockSize blockSize) source)).2.store.arena.blockSize =
      max 1 blockSize :=
  (Store.books_blockSize (max 1 blockSize)).run (fun _ h => h) jobs rfl

end Workspace

end GrowArena

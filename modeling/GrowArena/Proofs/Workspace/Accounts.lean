import GrowArena.Proofs.Packed.Growth
import GrowArena.Proofs.Race.Rest
import GrowArena.Proofs.Typed.Growth
import GrowArena.Proofs.Workspace.Jobs
import GrowArena.Proofs.Workspace.Tables

/-!
Accounts of arrays: the settings that an array was made with, how many values it has accepted, and
what it has used of the arena. They are kept beside the workspace, job by job, and read nothing of
an array but the results of what is done with it.
-/

namespace GrowArena

variable {σ α : Type}

structure Account where
  growth : Growth
  accepted : Nat := 0
  /-- What was used of the arena when the array was made and when values were pushed onto it. It is
  absent once a push was refused, since parts of a node may have been obtained for it, and once
  writers have raced for the array: a claim is one step here, but writers that find the tail full at
  once may each obtain a node, of which only one is appended. -/
  spent : Option Nat
  deriving DecidableEq, Repr

/-- The arrays' accounts, in the order of the arrays. -/
abbrev Accounts := Table Account

section

variable [SlabSource σ] [Element α]

/-- The account of an array after values are pushed onto it in turn. -/
def Account.push (values : List α) (s : Store σ) (h : Holding α) (account : Account) : Account :=
  match Holding.pushAll values (s, h) with
  | .ok () (s', _) =>
      { account with
        accepted := account.accepted + values.length
        spent := account.spent.map (· + (s'.arena.used - s.arena.used)) }
  | .error refusal _ =>
      { account with
        accepted := account.accepted + (values.length - refusal.values.length)
        spent := none }

/-- The account of an array after writers have raced for it. -/
def Account.race (values : List (List α)) (schedule : Schedule) (s : Store σ) (h : Holding α)
    (account : Account) : Account :=
  let refusals := (Holding.racePush values schedule (s, h)).1.refusals
  { account with
    accepted :=
      account.accepted + (values.flatten.length - (refusals.map (·.values.length)).sum)
    spent := none }

/-- The accounts after a job that is carried out in a workspace. -/
def Accounts.after (accounts : Accounts) (w : Workspace σ α) : Job α → Accounts
  | .command .rewind => []
  | .command (.makeTyped array kind growth) =>
      match TypedArray.create (α := α) kind.footprint growth w.store with
      | .ok _ s =>
          accounts ++ [(array, { growth, spent := some (s.arena.used - w.store.arena.used) })]
      | .error _ _ => accounts
  | .command (.makePacked array growth) =>
      match PackedArray.create growth w.store with
      | .ok _ s =>
          accounts ++ [(array, { growth, spent := some (s.arena.used - w.store.arena.used) })]
      | .error _ _ => accounts
  | .command (.push array values) =>
      match w.arrays.find? array, accounts.find? array with
      | some h, some account => accounts.set array (account.push values w.store h)
      | _, _ => accounts
  | .racePush array values schedule =>
      match w.arrays.find? array, accounts.find? array with
      | some h, some account => accounts.set array (account.race values schedule w.store h)
      | _, _ => accounts
  | .command (.drop array) => accounts.remove array
  | _ => accounts

theorem Accounts.after_of_keepsArrays (accounts : Accounts) (w : Workspace σ α) {c : Command α}
    (h : c.keepsArrays = true) : accounts.after w (.command c) = accounts := by
  cases c <;> first | rfl | cases h

/-- The accounts after jobs that are carried out in turn. -/
def Accounts.afterAll : Accounts → List (Job α) → Workspace σ α → Accounts
  | accounts, [], _ => accounts
  | accounts, job :: jobs, w => (accounts.after w.quieted job).afterAll jobs (w.step job).2

/-- A relation between arrays and their accounts that holds of new arrays and is kept by pushes and
by races. -/
structure Account.Upholds (σ : Type) [SlabSource σ] (R : Holding α → Account → Prop) : Prop where
  makeTyped : ∀ {kind : Kind} {growth : Growth} {s s' : Store σ} {a : TypedArray α},
    TypedArray.create kind.footprint growth s = .ok a s' →
      R (.typed kind a) { growth, spent := some (s'.arena.used - s.arena.used) }
  makePacked : ∀ {growth : Growth} {s s' : Store σ} {a : PackedArray},
    PackedArray.create growth s = .ok a s' →
      R (.packed a) { growth, spent := some (s'.arena.used - s.arena.used) }
  push : ∀ {h : Holding α} {account : Account} (values : List α) (s : Store σ), R h account →
    R (finalState (Holding.pushAll values (s, h))).2 (account.push values s h)
  race : ∀ {h : Holding α} {account : Account} (values : List (List α)) (schedule : Schedule)
    (s : Store σ), R h account →
      R (Holding.racePush values schedule (s, h)).2.2 (account.race values schedule s h)

namespace Workspace

omit [Element α] in
theorem arrays_raceForMemory (requests : List (List Request)) (schedule : Schedule)
    (w : Workspace σ α) :
    (finalState (raceForMemory requests schedule w)).arrays = w.arrays := by
  simp only [raceForMemory]
  split <;> rfl

theorem arrays_race_of_find? {w : Workspace σ α} {array : String} {h : Holding α}
    (hfind : w.arrays.find? array = some h) (values : List (List α)) (schedule : Schedule) :
    (finalState (race array values schedule w)).arrays =
      w.arrays.set array (Holding.racePush values schedule (w.store, h)).2.2 := by
  simp only [race, hfind]
  split <;> rfl

theorem race_of_find?_eq_none {w : Workspace σ α} {array : String}
    (hfind : w.arrays.find? array = none) (values : List (List α)) (schedule : Schedule) :
    finalState (race array values schedule w) = w := by
  simp only [race, hfind]
  rfl

end Workspace

variable {R : Holding α → Account → Prop}

theorem Accounts.related_of_effect (hR : Account.Upholds σ R) {w w' : Workspace σ α}
    {accounts : Accounts} (h : Table.Related R w.arrays accounts) {c : Command α}
    {result : Except Failure (Answer α)} (heffect : Workspace.Effect w c result w') :
    Table.Related R w'.arrays (accounts.after w (.command c)) := by
  have hpush : ∀ {array : String} {values : List α} {holding holding' : Holding α} {s : Store σ},
      w.arrays.find? array = some holding →
        finalState (Holding.pushAll values (w.store, holding)) = (s, holding') →
          Table.Related R (w.arrays.set array holding')
            (accounts.after w (.command (.push array values))) := by
    intro array values holding holding' s hfind hstate
    obtain ⟨account, haccount, hholding⟩ := h.find? hfind
    have hpushed := hR.push values w.store hholding
    rw [hstate] at hpushed
    simp only [Accounts.after, hfind, haccount]
    exact h.set array hpushed
  cases heffect with
  | nothing _ hc _ =>
      rw [Accounts.after_of_keepsArrays accounts w hc]
      exact h
  | granted hrequest _ _ _ harrays _ | denied hrequest _ _ harrays _ =>
      rw [Accounts.after_of_keepsArrays accounts w (Command.keepsArrays_of_request? hrequest),
        harrays]
      exact h
  | madeTyped hcreate =>
      simp only [Accounts.after, hcreate]
      exact h.concat _ (hR.makeTyped hcreate)
  | madePacked hcreate =>
      simp only [Accounts.after, hcreate]
      exact h.concat _ (hR.makePacked hcreate)
  | failedTyped hcreate | failedPacked hcreate =>
      simp only [Accounts.after, hcreate]
      exact h
  | pushed hfind hstate | refused hfind hstate => exact hpush hfind (by rw [hstate]; rfl)
  | missedPush hfind =>
      simp only [Accounts.after, hfind]
      exact h
  | dropped => exact h.remove _
  | @missedDrop array hfind =>
      have hremove := h.remove array
      rwa [Table.remove_of_find?_eq_none hfind] at hremove
  | opened | copied | moved | missedOpen | missedCopy | missedRead => exact h
  | cleared => exact .nil

theorem Accounts.related_after (hR : Account.Upholds σ R) {w : Workspace σ α}
    {accounts : Accounts} (h : Table.Related R w.arrays accounts) (job : Job α) :
    Table.Related R (finalState (Workspace.carryOut job w)).arrays (accounts.after w job) := by
  cases job with
  | command c => exact related_of_effect hR h (Workspace.effect_perform c w)
  | raceAllocate requests schedule =>
      rw [Workspace.carryOut, Workspace.arrays_raceForMemory]
      exact h
  | racePush array values schedule =>
      rw [Workspace.carryOut]
      cases hfind : w.arrays.find? array with
      | none =>
          rw [Workspace.race_of_find?_eq_none hfind]
          simp only [Accounts.after, hfind]
          exact h
      | some holding =>
          obtain ⟨account, haccount, hholding⟩ := h.find? hfind
          rw [Workspace.arrays_race_of_find? hfind]
          simp only [Accounts.after, hfind, haccount]
          exact h.set array (hR.race values schedule w.store hholding)

/-- What new arrays, pushes and races uphold is true of all arrays after every run. -/
theorem Accounts.related_afterAll (hR : Account.Upholds σ R) (jobs : List (Job α))
    {w : Workspace σ α} {accounts : Accounts} (h : Table.Related R w.arrays accounts) :
    Table.Related R (w.run jobs).2.arrays (accounts.afterAll jobs w) := by
  induction jobs generalizing w accounts with
  | nil => exact h
  | cons job jobs ih =>
      have hstep : (w.step job).2 = finalState (Workspace.carryOut job w.quieted) := by
        simp only [Workspace.step]
        cases Workspace.carryOut job w.quieted <;> rfl
      have hfirst := related_after hR (w := w.quieted) h job
      rw [← hstep] at hfirst
      exact ih hfirst

end

end GrowArena

import GrowArena.Arena.Resident

/-!
The same computation in two states that are related: both fail with the same error, or both give
results, which are related in their turn. Computations that go in tandem one after the other go in
tandem as a whole.
-/

namespace GrowArena

variable {ε τ τ' β β' γ γ' : Type}

/-- The same error, or related results; the states that are left behind are related in any case. -/
inductive Tandem (S : τ → τ' → Prop) (A : β → β' → Prop) :
    EStateM.Result ε τ β → EStateM.Result ε τ' β' → Prop
  | ok {b : β} {b' : β'} {s : τ} {s' : τ'} (hb : A b b') (hs : S s s') :
      Tandem S A (.ok b s) (.ok b' s')
  | error {e : ε} {s : τ} {s' : τ'} (hs : S s s') : Tandem S A (.error e s) (.error e s')

namespace Tandem

variable {S : τ → τ' → Prop} {A : β → β' → Prop} {B : γ → γ' → Prop}

theorem imp {T : τ → τ' → Prop} {A' : β → β' → Prop} {r : EStateM.Result ε τ β}
    {r' : EStateM.Result ε τ' β'} (h : Tandem S A r r') (hs : ∀ s s', S s s' → T s s')
    (hb : ∀ b b', A b b' → A' b b') : Tandem T A' r r' := by
  cases h with
  | ok hab hss => exact .ok (hb _ _ hab) (hs _ _ hss)
  | error hss => exact .error (hs _ _ hss)

theorem bind {m : EStateM ε τ β} {m' : EStateM ε τ' β'} {f : β → EStateM ε τ γ}
    {f' : β' → EStateM ε τ' γ'} {s : τ} {s' : τ'} (hm : Tandem S A (m s) (m' s'))
    (hf : ∀ b b' s s', A b b' → S s s' → Tandem S B (f b s) (f' b' s')) :
    Tandem S B ((m >>= f) s) ((m' >>= f') s') := by
  simp only [Bind.bind, EStateM.bind]
  generalize m s = r, m' s' = r' at hm
  cases hm with
  | ok hb hs => exact hf _ _ _ _ hb hs
  | error hs => exact .error hs

/-- Pushing values in turn goes in tandem if every push does. -/
theorem pushEach {σ α β : Type} {S : Store σ × β → Store σ × β → Prop}
    {push : α → ResidentM σ β Unit}
    (hpush : ∀ value state state', S state state' →
      Tandem S Eq (push value state) (push value state'))
    (values : List α) {state state' : Store σ × β} (h : S state state') :
    Tandem S Eq (pushEach push values state) (pushEach push values state') := by
  induction values generalizing state state' with
  | nil => exact .ok rfl h
  | cons value values ih =>
      have hfirst := hpush value state state' h
      simp only [GrowArena.pushEach]
      generalize push value state = r, push value state' = r' at hfirst
      cases hfirst with
      | ok _ hs => exact ih hs
      | error hs => exact .error hs

end Tandem

end GrowArena

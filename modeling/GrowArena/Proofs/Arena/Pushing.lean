import GrowArena.Arena.Resident

/-!
Pushing several values in turn, whatever it is that they are pushed onto. The values before the
first refusal are accepted; what one push keeps true, all of them keep true.
-/

namespace GrowArena

variable {σ α β : Type}

/-- What every push keeps true is kept true by pushing values in turn. -/
theorem pushEach_induct {push : α → ResidentM σ β Unit} {P : Store σ × β → Prop}
    (hpush : ∀ value state, P state → P (finalState (push value state))) (values : List α)
    {state : Store σ × β} (h : P state) : P (finalState (pushEach push values state)) := by
  induction values generalizing state with
  | nil => exact h
  | cons value values ih =>
      have hfirst := hpush value state h
      simp only [pushEach]
      cases hresult : push value state with
      | ok u state' =>
          rw [hresult] at hfirst
          exact ih hfirst
      | error fault state' =>
          rw [hresult] at hfirst
          exact hfirst

/-- What every push that succeeds keeps true is true when all have succeeded. -/
theorem pushEach_ok_induct {push : α → ResidentM σ β Unit} {P : Store σ × β → Prop}
    (hpush : ∀ value state state', P state → push value state = .ok () state' → P state')
    (values : List α) {state state' : Store σ × β} {u : Unit} (h : P state)
    (hok : pushEach push values state = .ok u state') : P state' := by
  induction values generalizing state with
  | nil =>
      obtain ⟨-, rfl⟩ := EStateM.Result.ok.inj hok
      exact h
  | cons value values ih =>
      simp only [pushEach] at hok
      cases hresult : push value state with
      | ok u' now =>
          rw [hresult] at hok
          exact ih (hpush value state now h hresult) hok
      | error fault now => simp [hresult] at hok

variable (push : α → ResidentM σ β Unit)

/-- The values whose pushes succeed when they are pushed in turn, up to the first that is
refused. -/
def accepted : List α → Store σ × β → List α
  | [], _ => []
  | v :: vs, state =>
      match push v state with
      | .ok () state => v :: accepted vs state
      | .error _ _ => []

/-- If a successful push adds its value to a list and a failing one keeps the list, then pushing
values in turn adds those accepted. -/
theorem pushEach_adds {P : β → List α → Prop}
    (hok : ∀ {s s' b b' l v u}, P b l → push v (s, b) = .ok u (s', b') → P b' (l ++ [v]))
    (herror : ∀ {s s' b b' l v fault}, P b l → push v (s, b) = .error fault (s', b') → P b' l)
    (values : List α) {s : Store σ} {b : β} {l : List α} (h : P b l) :
    P (finalState (pushEach push values (s, b))).2 (l ++ accepted push values (s, b)) := by
  induction values generalizing s b l with
  | nil => simpa [pushEach, accepted, finalState] using h
  | cons v vs ih =>
      cases hpush : push v (s, b) with
      | ok u state =>
          obtain ⟨s', b'⟩ := state
          have hrest := @ih s' b' _ (hok h hpush)
          simpa only [pushEach, accepted, hpush, List.append_assoc, List.singleton_append]
            using hrest
      | error fault state =>
          obtain ⟨s', b'⟩ := state
          simpa only [pushEach, accepted, hpush, finalState, List.append_nil] using herror h hpush

theorem accepted_of_pushEach_ok {values : List α} {state state' : Store σ × β} {u : Unit}
    (h : pushEach push values state = .ok u state') : accepted push values state = values := by
  induction values generalizing state with
  | nil => rfl
  | cons v vs ih =>
      simp only [pushEach] at h
      split at h
      · rename_i hpush
        simp [accepted, hpush, ih h]
      · simp at h

/-- A refusal names the values from the refused one on. Those before it were pushed, and pushing the
refused one then failed. -/
theorem exists_of_pushEach_error {values : List α} {state state' : Store σ × β}
    {refusal : Refusal α} (h : pushEach push values state = .error refusal state') :
    ∃ before refused after reached, values = before ++ refused :: after ∧
      refusal.values = refused :: after ∧ pushEach push before state = .ok () reached ∧
        push refused reached = .error refusal.fault state' := by
  induction values generalizing state with
  | nil => simp [pushEach] at h
  | cons v vs ih =>
      simp only [pushEach] at h
      split at h
      · rename_i hpush
        obtain ⟨before, refused, after, reached, rfl, hvalues, hbefore, hrefused⟩ := ih h
        refine ⟨v :: before, refused, after, reached, rfl, hvalues, ?_, hrefused⟩
        simp only [pushEach, hpush, hbefore]
      · rename_i hpush
        obtain ⟨rfl, rfl⟩ : ⟨_, v :: vs⟩ = refusal ∧ _ = state' := by simpa using h
        exact ⟨[], v, vs, state, rfl, rfl, rfl, hpush⟩

/-- Of values that are pushed in turn, those that are not accepted are refused. -/
theorem accepted_append_of_pushEach_error {values : List α} {state state' : Store σ × β}
    {refusal : Refusal α} (h : pushEach push values state = .error refusal state') :
    accepted push values state ++ refusal.values = values := by
  induction values generalizing state with
  | nil => simp [pushEach] at h
  | cons v vs ih =>
      simp only [pushEach] at h
      split at h
      · rename_i hpush
        simp [accepted, hpush, ih h]
      · rename_i hpush
        obtain ⟨rfl, -⟩ : ⟨_, v :: vs⟩ = refusal ∧ _ := by simpa using h
        simp [accepted, hpush]

theorem length_accepted (values : List α) (state : Store σ × β) :
    (accepted push values state).length =
      match pushEach push values state with
      | .ok _ _ => values.length
      | .error refusal _ => values.length - refusal.values.length := by
  cases hresult : pushEach push values state with
  | ok u state' => exact congrArg List.length (accepted_of_pushEach_ok push hresult)
  | error refusal state' =>
      have hlength := congrArg List.length (accepted_append_of_pushEach_error push hresult)
      rw [List.length_append] at hlength
      exact Nat.eq_sub_of_add_eq hlength

end GrowArena

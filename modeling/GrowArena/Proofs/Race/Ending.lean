import GrowArena.Proofs.Race.Callers

/-!
The end of a race for memory. Callers can keep each other from coming to an end, for what one has
found out may be of no use once another has had its turn. Alone, a caller comes to the end of a
request in a bounded number of turns, and as all have that many in the end, nothing is on its way
when a race is over.
-/

namespace GrowArena

variable {σ τ : Type}

namespace Attempt

/-- A chunk that was obtained for a request has room for it. -/
def Provides (r : Request) : Attempt → Prop
  | holding _ chunk => (chunk.place? r).isSome
  | _ => True

/-- A bound on the turns that the attempt takes alone. It goes by whether the head has room, and by
whether what the attempt has found out is still so. -/
def due (r : Request) (a : Arena) : Attempt → Nat
  | looking => if (a.place? r).isSome then 4 else 8
  | facing chunk =>
      if chunk + 1 = a.chunks.size then if (a.place? r).isSome then 3 else 7 else 11
  | placing chunk cursor _ => if (a.chunks[chunk]?.map Chunk.cursor) = some cursor then 2 else 9
  | lacking observed => if a.chunks.size = observed then 6 else 10
  | holding observed _ => if a.chunks.size = observed then 5 else 9
  | counting _ | done _ => 1

theorem due_le (r : Request) (a : Arena) (t : Attempt) : t.due r a ≤ Caller.turnsAlone := by
  cases t <;> simp only [due, Caller.turnsAlone] <;> grind

theorem due_pos (r : Request) (a : Arena) (t : Attempt) : 0 < t.due r a := by
  cases t <;> simp only [due] <;> grind

theorem due_looking_le (r : Request) (a : Arena) : looking.due r a ≤ 8 := by
  simp only [due]
  split <;> omega

variable [SlabSource σ]

theorem provides_step (r : Request) (t : Attempt) (s : Store σ) : (t.step r s).1.Provides r := by
  cases t with
  | lacking observed =>
      simp only [step]
      cases hobtain : Store.obtain r s with
      | error fault s' => trivial
      | ok c s' => exact (Store.chunk_of_obtain hobtain).1
  | looking =>
      simp only [step]
      split
      · trivial
      · split <;> trivial
  | facing chunk =>
      simp only [step]
      split
      · trivial
      · split <;> trivial
  | placing chunk cursor place =>
      simp only [step]
      split <;> trivial
  | holding | counting | done => trivial

theorem due_step_facing (r : Request) (chunk : Nat) (s : Store σ) :
    ((facing chunk).step r s).1.due r ((facing chunk).step r s).2.arena <
      (facing chunk).due r s.arena := by
  have hhead : chunk + 1 = s.arena.chunks.size →
      s.arena.place? r = s.arena.chunks[chunk]?.bind (·.place? r) := by
    intro hsize
    rw [Arena.place?, Arena.head?, Array.back?, ← hsize]
    rfl
  simp only [step]
  cases hc : s.arena.chunks[chunk]? with
  | none =>
      have hle := Array.getElem?_eq_none_iff.mp hc
      have hstale : chunk + 1 ≠ s.arena.chunks.size := by omega
      have hlooking := due_looking_le r s.arena
      simp only [due, hstale, if_false] at hlooking ⊢
      omega
  | some c =>
      rw [hc, Option.bind_some] at hhead
      dsimp only
      cases hplace : c.place? r with
      | some place =>
          -- Nobody comes between, so the cursor stays where it was seen.
          dsimp only [due]
          rw [hc, Option.map_some, if_pos rfl]
          split
          · split <;> omega
          · omega
      | none =>
          -- If it is the head that has no room, the chunk obtained next will be installed.
          dsimp only [due]
          split
          · rename_i hsize
            rw [if_pos hsize.symm, hhead hsize.symm, hplace]
            decide
          · rename_i hsize
            rw [if_neg (Ne.symm hsize)]
            omega

/-- Alone, every step of an attempt brings it nearer to its end, if it is not the last. -/
theorem due_step {r : Request} {t : Attempt} {s : Store σ} (h : t.Provides r) :
    (∃ outcome, (t.step r s).1 = done outcome) ∨
      (t.step r s).1.due r (t.step r s).2.arena < t.due r s.arena := by
  have hlooking := due_looking_le r s.arena
  cases t with
  | done outcome => exact .inl ⟨outcome, rfl⟩
  | counting address => exact .inl ⟨_, rfl⟩
  | looking =>
      simp only [step]
      split
      · exact .inl ⟨_, rfl⟩
      · right
        split
        · rename_i hsize
          have hnone : s.arena.place? r = none := by
            simp [Arena.place?, Arena.head?, Array.eq_empty_of_size_eq_zero hsize]
          simp [due, hnone, hsize]
        · rename_i chunk hsize
          simp only [due, hsize, if_true]
          split <;> omega
  | facing chunk => exact .inr (due_step_facing r chunk s)
  | placing chunk cursor place =>
      right
      simp only [step]
      split
      · rename_i hcursor
        simp only [due, hcursor, if_true]
        omega
      · rename_i hmoved
        simp only [due, hmoved, if_false] at hlooking ⊢
        omega
  | lacking observed =>
      simp only [step]
      cases hobtain : Store.obtain r s with
      | error fault s' => exact .inl ⟨_, rfl⟩
      | ok c s' =>
          right
          simp only [due, (Store.chunk_of_obtain hobtain).2]
          split <;> omega
  | holding observed chunk =>
      right
      simp only [step, Store.settle]
      split
      · rename_i hsize
        have hplace : ((s.arena.install chunk).place? r).isSome := by
          rw [Arena.place?_install]
          exact h
        simp only [due, Store.record, Store.update, hplace, hsize, if_true]
        omega
      · rename_i hstale
        simp only [due, hstale, if_false] at hlooking ⊢
        exact Nat.lt_succ_of_le hlooking

end Attempt

namespace Caller

def Provides (c : Caller) : Prop := ∀ r t, c.current = some (r, t) → t.Provides r

/-- The requests that the caller has not come to the end of. -/
def left (c : Caller) : Nat := c.current.toList.length + c.todo.length

/-- A bound on the turns that the caller takes alone. -/
def due (a : Arena) (c : Caller) : Nat :=
  (c.current.elim 0 fun (r, t) => t.due r a) + turnsAlone * c.todo.length

theorem due_le (c : Caller) (a : Arena) : c.due a ≤ turnsAlone * c.left := by
  cases hcurrent : c.current with
  | none => simp [due, left, hcurrent]
  | some attempt =>
      have hle := attempt.2.due_le attempt.1 a
      simp only [due, left, hcurrent, Option.elim_some, Option.toList_some, List.length_singleton,
        Nat.mul_add]
      omega

theorem ended_of_due {c : Caller} {a : Arena} (h : c.due a = 0) :
    c.current = none ∧ c.todo = [] := by
  obtain ⟨hcurrent, htodo⟩ := Nat.add_eq_zero_iff.mp h
  constructor
  · cases hc : c.current with
    | none => rfl
    | some attempt =>
        rw [hc] at hcurrent
        exact absurd hcurrent (attempt.2.due_pos attempt.1 a).ne'
  · rcases Nat.mul_eq_zero.mp htodo with hnone | hnone
    · cases hnone
    · exact List.eq_nil_of_length_eq_zero hnone

theorem due_conclude (c : Caller) (r : Request) (outcome : Except Fault Nat) (a : Arena) :
    (c.conclude r outcome).due a ≤ turnsAlone * c.todo.length := by
  cases outcome with
  | ok address => exact Nat.le_of_eq (Nat.zero_add _)
  | error fault => exact Nat.zero_le _

theorem left_conclude (c : Caller) (r : Request) (outcome : Except Fault Nat) :
    (c.conclude r outcome).left ≤ c.todo.length := by
  cases outcome with
  | ok address => exact Nat.le_of_eq (Nat.zero_add _)
  | error fault => exact Nat.zero_le _

variable [SlabSource σ]

theorem provides_turn (c : Caller) (s : Store σ) : (c.turn s).1.Provides := by
  have hturns := c.turns_turn s
  generalize c.turn s = next at hturns ⊢
  intro r t hcurrent
  cases hturns with
  | rested hidle =>
      rw [hidle] at hcurrent
      cases hcurrent
  | began =>
      obtain ⟨-, rfl⟩ := Prod.mk.inj (Option.some.inj hcurrent)
      trivial
  | @ended _ _ outcome => cases outcome <;> cases hcurrent
  | went =>
      obtain ⟨rfl, rfl⟩ := Prod.mk.inj (Option.some.inj hcurrent)
      exact Attempt.provides_step ..

theorem left_turn (c : Caller) (s : Store σ) : (c.turn s).1.left ≤ c.left := by
  have hturns := c.turns_turn s
  generalize c.turn s = next at hturns ⊢
  cases hturns with
  | rested => exact Nat.le_refl _
  | began hidle htodo => simp [left, hidle, htodo, Nat.add_comm]
  | @ended r t outcome hcurrent =>
      have hle := left_conclude c r outcome
      simp only [left, hcurrent] at hle ⊢
      omega
  | went hcurrent =>
      simp only [left, hcurrent]
      exact Nat.le_refl _

theorem due_turn {c : Caller} (h : c.Provides) (s : Store σ) :
    (c.turn s).1.due (c.turn s).2.arena ≤ c.due s.arena - 1 := by
  have hturns := c.turns_turn s
  generalize c.turn s = next at hturns ⊢
  cases hturns with
  | rested hidle htodo => simp [due, hidle, htodo]
  | @began r rs hidle htodo =>
      have hle := Attempt.due_looking_le r s.arena
      simp only [due, hidle, htodo, Option.elim_none, Option.elim_some, List.length_cons,
        Nat.mul_add, turnsAlone]
      omega
  | @ended r t outcome hcurrent =>
      have hle := due_conclude c r outcome (t.step r s).2.arena
      have hpos := t.due_pos r s.arena
      simp only [due, hcurrent, Option.elim_some] at hle ⊢
      omega
  | @went r t hcurrent hgoing =>
      have hstep := Attempt.due_step (s := s) (h r t hcurrent)
      have hlt := hstep.resolve_left fun ⟨outcome, hdone⟩ => hgoing outcome hdone
      simp only [due, hcurrent, Option.elim_some]
      omega

end Caller

namespace Store

/-- In a race a caller never has more requests before it than it came with. -/
theorem left_run [SlabSource σ] (requests : List (List Request)) (schedule : Schedule)
    (s : Store σ) {i : Nat} {c : Caller}
    (hc : (schedule.run Caller.turn (requests.map fun todo => { todo }) s).1[i]? = some c) :
    c.Provides ∧ ∃ todo, requests[i]? = some todo ∧ c.left ≤ todo.length := by
  revert i c
  apply Schedule.run_induct (P := fun callers _ => ∀ {i : Nat} {c : Caller}, callers[i]? = some c →
    c.Provides ∧ ∃ todo, requests[i]? = some todo ∧ c.left ≤ todo.length)
  · intro place p callers shared hplace h i c hc
    by_cases hi : place = i
    · subst hi
      obtain ⟨hlt, -⟩ := List.getElem?_eq_some_iff.mp hplace
      obtain rfl : (p.turn shared).1 = c := by simpa [hlt] using hc
      obtain ⟨-, todo, htodo, hle⟩ := h hplace
      exact ⟨p.provides_turn shared, todo, htodo, (p.left_turn shared).trans hle⟩
    · rw [List.getElem?_set_ne hi] at hc
      exact h hc
  · intro i c hc
    rw [List.getElem?_map] at hc
    obtain ⟨todo, htodo, rfl⟩ := Option.map_eq_some_iff.mp hc
    exact ⟨nofun, todo, htodo, Nat.le_of_eq (Nat.zero_add _)⟩

/-- However a race began, all callers come to the end of their requests. -/
theorem ended_raceAllocate [SlabSource σ] (requests : List (List Request)) (schedule : Schedule)
    (s : Store σ) :
    ∀ c ∈ (s.raceAllocate requests schedule).1, c.current = none ∧ c.todo = [] := by
  intro c hc
  obtain ⟨i, hlast⟩ := List.mem_iff_getElem?.mp hc
  have hi : i < requests.length := by
    obtain ⟨hi, -⟩ := List.getElem?_eq_some_iff.mp hlast
    rwa [raceAllocate, Schedule.length_run, List.length_map] at hi
  have henough : ∀ (i : Nat) n p, (requests.map (Caller.turnsAlone * ·.length))[i]? = some n →
      (schedule.run Caller.turn (requests.map fun todo => { todo }) s).1[i]? = some p →
        p.Provides ∧ ∀ s : Store σ, p.due s.arena ≤ n := by
    intro i n p hn hp
    obtain ⟨hprovides, todo, htodo, hle⟩ := left_run requests schedule s hp
    rw [List.getElem?_map, htodo] at hn
    obtain rfl := Option.some.inj hn
    exact ⟨hprovides, fun s => (p.due_le s.arena).trans (Nat.mul_le_mul_left _ hle)⟩
  rw [raceAllocate, Schedule.run_append] at hlast
  exact Schedule.ended_run_inOrder (fun (c : Caller) (s : Store σ) => c.due s.arena)
    (fun c s _ => c.provides_turn s) (fun _ s h => Caller.due_turn h s)
    (fun _ _ => Caller.ended_of_due) _ _ henough (by rwa [List.length_map]) hlast

/-- A race ends, and then the books of the arena are right with nothing on its way. -/
theorem consistent_raceAllocate {Owns : τ → List Slab → Prop} [SlabSource τ]
    (hsource : SlabSource.Unordered Owns) {s : Store (Metered τ)} (hkept : s.Kept)
    (horderly : s.Orderly fun m => Owns m.source) (requests : List (List Request))
    (schedule : Schedule) :
    let race := s.raceAllocate requests schedule
    (∀ c ∈ race.1, c.current = none ∧ c.todo = []) ∧
      race.2.Consistent s.arena.grants race.1 :=
  ⟨ended_raceAllocate requests schedule s,
    ((racing_start hkept horderly hsource requests).run hsource _).consistent hsource⟩

end Store

end GrowArena

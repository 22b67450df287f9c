import GrowArena.Proofs.Race.Attempts
import GrowArena.Proofs.Race.Schedule

/-!
Books that every step of an attempt keeps. They are about a store together with the chunks that are
held and the ranges that are not counted, so that they are right between any two steps. An
allocation without other callers is a few such steps; a race is many, and its callers' holdings are
those of the attempts they are in.
-/

namespace GrowArena

variable {σ : Type} [SlabSource σ]

namespace Store

/-- Every step of an attempt keeps these books, whatever else is held and uncounted. -/
structure Books (B : List Chunk → List Grant → Store σ → Prop) : Prop where
  perm : ∀ {held held' : List Chunk} {uncounted uncounted' : List Grant} {s : Store σ},
    held.Perm held' → uncounted.Perm uncounted' → B held uncounted s → B held' uncounted' s
  moves : ∀ {r : Request} {s s' : Store σ} {t t' : Attempt}, Attempt.Moves r s t t' s' →
    ∀ held uncounted, B (t.held ++ held) (t.uncounted r ++ uncounted) s →
      B (t'.held ++ held) (t'.uncounted r ++ uncounted) s'

namespace Books

variable {B : List Chunk → List Grant → Store σ → Prop} {held : List Chunk}
  {uncounted : List Grant} {s : Store σ}

theorem logged (hB : Books B) (h : B held uncounted s) (log : Array Event) :
    B held uncounted { s with log } := by
  have hmoves : Attempt.Moves ⟨0, 1⟩ s .looking (.done (.error .empty)) { s with log } :=
    .failed rfl rfl log
  exact hB.moves hmoves held uncounted h

theorem taken (hB : Books B) (h : B held uncounted s) {r : Request} {p : Placement}
    (halign : r.alignment ≠ 0) (hplace : s.arena.place? r = some p) :
    B held uncounted (s.update (·.take p r)) := by
  have hplaced : Attempt.Moves r s (.placing (s.arena.chunks.size - 1) 0 p) (.counting p.address)
      (s.update (·.moveCursor (s.arena.chunks.size - 1) p.cursor)) :=
    .placed halign (Arena.offers_of_place? hplace)
  exact hB.moves .counted held uncounted (hB.moves hplaced held uncounted h)

/-- An allocation without other callers is a few steps of an attempt. -/
theorem allocate (hB : Books B) (h : B held uncounted s) (r : Request) :
    B held uncounted (finalState (allocate r s)) := by
  have hout := allocation_allocate r s
  generalize Store.allocate r s = result at hout ⊢
  cases hout with
  | unaligned | excessive => exact h
  | refused => exact hB.logged h _
  | served halign hplace => exact hB.taken h halign hplace
  | @extended start source p halign hnone hoverflow hacquire hplace =>
      let c := r.chunk s.arena.blockSize start
      have hbytes : c.bytes ≤ slabMax := Request.le_of_overflow?_eq_none hoverflow
      have hobtained : Attempt.Moves r s (.lacking 0) (.holding 0 c) _ :=
        .obtained rfl hacquire hbytes
      have hinstalled : B held uncounted _ :=
        hB.moves (.installed rfl) held uncounted (hB.moves hobtained held uncounted h)
      exact hB.taken hinstalled halign hplace

theorem leads (hB : Books B) {s' : Store σ} (h : s.Leads s') (hs : B [] [] s) : B [] [] s' :=
  h.induct (P := B [] []) (fun _ log hs => hB.logged hs log) (fun r _ hs => hB.allocate hs r) hs

end Books

theorem books_blockSize (blockSize : Nat) :
    Books fun _ _ (s : Store σ) => s.arena.blockSize = blockSize where
  perm _ _ h := h
  moves hmoves _ _ h := by cases hmoves <;> exact h

/-- Between two rewinds, what is used only grows. -/
theorem books_used_le (used : Nat) : Books fun _ _ (s : Store σ) => used ≤ s.arena.used where
  perm _ _ h := h
  moves hmoves _ _ h := by
    cases hmoves with
    | counted => exact Nat.le_add_right_of_le h
    | looked | failed | placed | obtained | installed | returned => exact h

theorem Leads.used_le {s s' : Store σ} (h : s.Leads s') : s.arena.used ≤ s'.arena.used :=
  (books_used_le s.arena.used).leads h (Nat.le_refl _)

end Store

namespace Caller

/-- The chunk that the caller has obtained and neither installed nor given back. -/
def held (c : Caller) : List Chunk := c.current.elim [] fun (_, t) => t.held

/-- The range that the caller has taken and not counted. -/
def uncounted (c : Caller) : List Grant := c.current.elim [] fun (r, t) => t.uncounted r

theorem held_of_idle {c : Caller} (hidle : c.current = none) : c.held = [] := by
  rw [held, hidle]
  rfl

theorem uncounted_of_idle {c : Caller} (hidle : c.current = none) : c.uncounted = [] := by
  rw [uncounted, hidle]
  rfl

def Fits (c : Caller) (a : Arena) : Prop := ∀ r t, c.current = some (r, t) → t.Fits r a

theorem Fits.of_advances {c : Caller} {a a' : Arena} (h : c.Fits a) (hadvances : a.Advances a') :
    c.Fits a' :=
  fun r t hcurrent => (h r t hcurrent).of_advances hadvances

/-- What a turn may do: nothing, take up a request, come to its end, or do a step in between. -/
inductive Turns (c : Caller) (s : Store σ) : Caller × Store σ → Prop
  | rested (hidle : c.current = none) (htodo : c.todo = []) : Turns c s (c, s)
  | began {r : Request} {rs : List Request} (hidle : c.current = none) (htodo : c.todo = r :: rs) :
      Turns c s ({ c with todo := rs, current := some (r, .looking) }, s)
  | ended {r : Request} {t : Attempt} {outcome : Except Fault Nat}
      (hcurrent : c.current = some (r, t)) (hdone : (t.step r s).1 = .done outcome) :
      Turns c s (c.conclude r outcome, (t.step r s).2)
  | went {r : Request} {t : Attempt} (hcurrent : c.current = some (r, t))
      (hgoing : ∀ outcome, (t.step r s).1 ≠ .done outcome) :
      Turns c s ({ c with current := some (r, (t.step r s).1) }, (t.step r s).2)

theorem turns_turn (c : Caller) (s : Store σ) : c.Turns s (c.turn s) := by
  unfold turn
  split
  · rename_i hidle
    split
    · rename_i htodo
      exact .rested hidle htodo
    · rename_i htodo
      exact .began hidle htodo
  · rename_i r t hcurrent
    split
    · rename_i outcome s' heq
      have hdone : (t.step r s).1 = .done outcome := by rw [heq]
      have hended := Turns.ended hcurrent hdone
      rwa [heq] at hended
    · rename_i t' s' hgoing heq
      have hwent := Turns.went (s := s) hcurrent (by rwa [heq])
      rwa [heq] at hwent

theorem held_conclude (c : Caller) (r : Request) (outcome : Except Fault Nat) :
    (c.conclude r outcome).held = [] := by
  cases outcome <;> rfl

theorem uncounted_conclude (c : Caller) (r : Request) (outcome : Except Fault Nat) :
    (c.conclude r outcome).uncounted = [] := by
  cases outcome <;> rfl

theorem granted_conclude (c : Caller) (r : Request) (outcome : Except Fault Nat) :
    (c.conclude r outcome).granted = (Attempt.done outcome).gained r ++ c.granted := by
  cases outcome <;> rfl

theorem fits_conclude (c : Caller) (r : Request) (outcome : Except Fault Nat) (a : Arena) :
    (c.conclude r outcome).Fits a := by
  intro r' t h
  cases outcome <;> cases h

/-- What a turn does to the books, whatever others hold, to what others have found out, and to the
grants. -/
structure Turned (B : List Chunk → List Grant → Store σ → Prop) (c : Caller) (s : Store σ)
    (c' : Caller) (s' : Store σ) : Prop where
  books : ∀ held uncounted, B (c.held ++ held) (c.uncounted ++ uncounted) s →
    B (c'.held ++ held) (c'.uncounted ++ uncounted) s'
  advances : s.arena.Advances s'.arena
  fits : c'.Fits s'.arena
  gained : ∃ gained, c'.granted = gained ++ c.granted ∧
    s'.arena.grants = gained ++ s.arena.grants

theorem turned_turn {B : List Chunk → List Grant → Store σ → Prop} (hB : Store.Books B)
    {c : Caller} {s : Store σ} (hfits : c.Fits s.arena) :
    Turned B c s (c.turn s).1 (c.turn s).2 := by
  have hturns := turns_turn c s
  generalize c.turn s = next at hturns ⊢
  cases hturns with
  | rested hidle => exact ⟨fun _ _ h => h, .refl _, hfits, [], rfl, rfl⟩
  | began hidle =>
      refine ⟨?_, .refl _, ?_, [], rfl, rfl⟩
      · intro others ranges h
        rwa [held_of_idle hidle, uncounted_of_idle hidle] at h
      · intro r t hcurrent
        obtain ⟨-, rfl⟩ := Prod.mk.inj (Option.some.inj hcurrent)
        trivial
  | @ended r t outcome hcurrent hdone =>
      have hmoves := Attempt.moves_step (hfits r t hcurrent)
      rw [hdone] at hmoves
      refine ⟨?_, hmoves.advances, fits_conclude c r outcome _, _, granted_conclude c r outcome,
        hmoves.grants_eq⟩
      intro others ranges h
      rw [held_conclude, uncounted_conclude]
      simp only [held, uncounted, hcurrent] at h
      exact hB.moves hmoves others ranges h
  | @went r t hcurrent hgoing =>
      have hmoves := Attempt.moves_step (hfits r t hcurrent)
      refine ⟨?_, hmoves.advances, ?_, [], rfl, ?_⟩
      · intro others ranges h
        simp only [held, uncounted, hcurrent] at h
        exact hB.moves hmoves others ranges h
      · intro r' t' hcurrent'
        obtain ⟨rfl, rfl⟩ := Prod.mk.inj (Option.some.inj hcurrent')
        exact hmoves.fits.resolve_right fun ⟨outcome, hdone⟩ => hgoing outcome hdone
      · have hgrants := hmoves.grants_eq
        rwa [Attempt.gained_of_going hgoing] at hgrants

end Caller

namespace Store

/-- The callers, and what was granted before they came, account for all that is in the arena. -/
structure Raced (B : List Chunk → List Grant → Store σ → Prop) (former : List Grant)
    (callers : List Caller) (s : Store σ) : Prop where
  books : B (callers.flatMap Caller.held) (callers.flatMap Caller.uncounted) s
  fits : ∀ c ∈ callers, c.Fits s.arena
  grants_perm : s.arena.grants.Perm (callers.flatMap Caller.granted ++ former)

namespace Raced

variable {B : List Chunk → List Grant → Store σ → Prop} {former : List Grant}
  {callers : List Caller} {s : Store σ}

omit [SlabSource σ] in
theorem start (h : B [] [] s) (requests : List (List Request)) :
    s.Raced B s.arena.grants (requests.map fun todo => { todo }) := by
  have hnone {β : Type} (f : Caller → List β) (hf : ∀ todo, f { todo } = []) :
      (requests.map fun todo => ({ todo } : Caller)).flatMap f = [] := by
    simp [List.flatMap_map, hf]
  refine ⟨?_, ?_, ?_⟩
  · rwa [hnone _ fun _ => rfl, hnone _ fun _ => rfl]
  · intro c hc r t hcurrent
    obtain ⟨todo, -, rfl⟩ := List.mem_map.mp hc
    cases hcurrent
  · rw [hnone _ fun _ => rfl, List.nil_append]

theorem turn (hB : Books B) (h : s.Raced B former callers) {i : Nat} {c : Caller}
    (hc : callers[i]? = some c) :
    (c.turn s).2.Raced B former (callers.set i (c.turn s).1) := by
  obtain ⟨before, after, rfl, hset⟩ := Schedule.exists_split_set hc
  have hturned := Caller.turned_turn hB (h.fits c (List.mem_of_getElem? hc))
  -- The caller whose turn it is goes first: what the others hold is not changed by its turn.
  have hmiddle {β : Type} (d : Caller) (f : Caller → List β) :
      ((before ++ d :: after).flatMap f).Perm (f d ++ (before ++ after).flatMap f) :=
    List.perm_middle.flatMap_right f
  rw [hset]
  constructor
  · have hfirst := hB.perm (hmiddle c _) (hmiddle c _) h.books
    exact hB.perm (hmiddle _ _).symm (hmiddle _ _).symm (hturned.books _ _ hfirst)
  · intro d hd
    rw [List.mem_append, List.mem_cons] at hd
    rcases hd with hbefore | rfl | hafter
    · exact (h.fits d (List.mem_append_left _ hbefore)).of_advances hturned.advances
    · exact hturned.fits
    · have hmem : d ∈ before ++ c :: after :=
        List.mem_append_right _ (List.mem_cons_of_mem _ hafter)
      exact (h.fits d hmem).of_advances hturned.advances
  · obtain ⟨gained, hgranted, hgrants⟩ := hturned.gained
    have hfirst := h.grants_perm.trans ((hmiddle c Caller.granted).append_right _)
    rw [hgrants]
    refine List.Perm.trans ?_ ((hmiddle _ Caller.granted).symm.append_right _)
    rw [hgranted, List.append_assoc, List.append_assoc]
    exact List.Perm.append_left gained (by simpa using hfirst)

theorem run (hB : Books B) (schedule : Schedule) (h : s.Raced B former callers) :
    (schedule.run Caller.turn callers s).2.Raced B former
      (schedule.run Caller.turn callers s).1 :=
  Schedule.run_induct (P := fun callers s => Raced B former callers s)
    (fun _ _ _ _ hc hraced => hraced.turn hB hc) schedule h

omit [SlabSource σ] in
/-- Where no request is on its way, the books are those of the arena alone. -/
theorem books_of_idle (h : s.Raced B former callers) (hidle : ∀ c ∈ callers, c.current = none) :
    B [] [] s := by
  have hheld : callers.flatMap Caller.held = [] :=
    List.flatMap_eq_nil_iff.mpr fun c hc => Caller.held_of_idle (hidle c hc)
  have huncounted : callers.flatMap Caller.uncounted = [] :=
    List.flatMap_eq_nil_iff.mpr fun c hc => Caller.uncounted_of_idle (hidle c hc)
  have hbooks := h.books
  rwa [hheld, huncounted] at hbooks

end Raced

end Store

end GrowArena

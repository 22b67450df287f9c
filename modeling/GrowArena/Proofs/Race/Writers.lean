import GrowArena.Proofs.Race.Board
import GrowArena.Proofs.Race.Schedule
import Mathlib.Algebra.BigOperators.Group.Finset.Piecewise
import Mathlib.Algebra.Ring.Nat

/-!
Writers that take turns, with a reader beside them. Whatever the schedule, what they do to the array
is what threads do that make a sequence of moves. After their last turns nothing is in flight, and
the values that the writers did not have to give up have all been claimed, those of one writer in
the order in which it had them.
-/

namespace GrowArena

variable {σ β ν α : Type} [Staged β ν α]

/-- The values that a thread has among claims. -/
def valuesOf (thread : Nat) (claims : List (Nat × α)) : List α :=
  (claims.filter (·.1 == thread)).map Prod.snd

theorem valuesOf_concat_self (thread : Nat) (claims : List (Nat × α)) (v : α) :
    valuesOf thread (claims ++ [(thread, v)]) = valuesOf thread claims ++ [v] := by
  simp [valuesOf]

theorem valuesOf_concat_of_ne {thread other : Nat} (h : other ≠ thread) (claims : List (Nat × α))
    (v : α) : valuesOf other (claims ++ [(thread, v)]) = valuesOf other claims := by
  simp [valuesOf, Ne.symm h]

theorem length_valuesOf_cons (thread : Nat) (claim : Nat × α) (claims : List (Nat × α)) :
    (valuesOf thread (claim :: claims)).length =
      (if claim.1 = thread then 1 else 0) + (valuesOf thread claims).length := by
  by_cases hthread : claim.1 = thread
  · simp [valuesOf, hthread, Nat.add_comm]
  · simp [valuesOf, hthread]

/-- If none but the first threads have claims, these have all of them. -/
theorem sum_length_valuesOf {claims : List (Nat × α)} {n : Nat}
    (h : ∀ thread, n ≤ thread → valuesOf thread claims = []) :
    ((List.range n).map fun i => (valuesOf i claims).length).sum = claims.length := by
  induction claims with
  | nil => simp [valuesOf]
  | cons claim claims ih =>
      have hcons : ∀ thread, n ≤ thread →
          (if claim.1 = thread then 1 else 0) + (valuesOf thread claims).length = 0 := by
        intro thread hthread
        rw [← length_valuesOf_cons, h thread hthread]
        rfl
      have hthis : claim.1 < n := by
        by_contra hthread
        have hnone := hcons claim.1 (Nat.le_of_not_lt hthread)
        simp at hnone
      have hrest := ih fun thread hthread =>
        List.eq_nil_of_length_eq_zero (Nat.eq_zero_of_add_eq_zero_left (hcons thread hthread))
      have hone : ((List.range n).map fun i => if claim.1 = i then 1 else 0).sum = 1 := by
        rw [← List.sum_toFinset _ List.nodup_range, Finset.sum_ite_eq,
          if_pos (List.mem_toFinset.mpr (List.mem_range.mpr hthis))]
      simp only [length_valuesOf_cons]
      rw [List.sum_map_add, hrest, hone, List.length_cons, Nat.add_comm]

/-- The writers of a race claimed places for these values, behind the ones that the array had: those
of a writer in the order in which it had them, and all of them if none was given up. A reader saw
nothing else. -/
structure PushRace.Accounts (race : PushRace α) (former : List α) (values : List (List α))
    (claims : List (Nat × α)) : Prop where
  contents_eq : race.contents = former ++ claims.map Prod.snd
  seen_subset : race.seen ⊆ former ++ claims.map Prod.snd
  valuesOf_prefix : ∀ thread, valuesOf thread claims <+: values[thread]?.getD []
  valuesOf_eq : race.refusals = [] → ∀ thread, valuesOf thread claims = values[thread]?.getD []

/-- No push takes more steps than the turns that are allowed for it. For what is pending of a push
there is a bound on the steps that come after the next one. -/
structure Staged.Paced (σ β : Type) {ν α : Type} [Staged β ν α] [SlabSource σ]
    (left : Staged.Pending β → Nat) : Prop where
  steps_pos : 0 < Staged.steps β
  claim_lt : ∀ {v : α} {state state' : Store σ × β} {p : Staged.Pending β},
    Staged.claim v state = .ok p state' → left p + 1 < Staged.steps β
  proceed_lt : ∀ {a : β} {p q : Staged.Pending β}, (Staged.proceed p a).1 = some q → left q < left p

namespace Writer

/-- What the writer has not claimed a place for. -/
def unclaimed (w : Writer β) : List α :=
  match w.refusal with
  | some refusal => refusal.values
  | none => w.todo

/-- A bound on the turns that the writer needs. -/
def due (left : Staged.Pending β → Nat) (w : Writer β) : Nat :=
  (w.pending.map fun p => left p + 1).getD 0 + Staged.steps β * w.todo.length

/-- What writers at their ends have not claimed a place for they have given up. -/
theorem sum_refusals {writers : List (Writer β)} (h : ∀ w ∈ writers, w.todo = []) :
    ((writers.filterMap refusal).map (·.values.length)).sum =
      (writers.map (·.unclaimed.length)).sum := by
  induction writers with
  | nil => rfl
  | cons w writers ih =>
      have htodo := h w List.mem_cons_self
      have hrest := ih fun w hw => h w (List.mem_cons_of_mem _ hw)
      rw [List.map_cons, List.sum_cons, ← hrest]
      cases hrefusal : w.refusal with
      | none => simp [unclaimed, hrefusal, htodo]
      | some refusal => simp [unclaimed, hrefusal]

variable [SlabSource σ] {left : Staged.Pending β → Nat}

theorem turn_of_pending {w : Writer β} {p : Staged.Pending β} (hpending : w.pending = some p)
    (state : Store σ × β) :
    w.turn state = ({ w with pending := (Staged.proceed p state.2).1 },
      (state.1, (Staged.proceed p state.2).2)) := by
  simp [turn, hpending]

theorem turn_of_nil {w : Writer β} (hpending : w.pending = none) (htodo : w.todo = [])
    (state : Store σ × β) : w.turn state = (w, state) := by
  simp [turn, hpending, htodo]

theorem turn_of_ok {w : Writer β} {v : α} {todo : List α} {p : Staged.Pending β}
    {state state' : Store σ × β} (hpending : w.pending = none) (htodo : w.todo = v :: todo)
    (hclaim : Staged.claim v state = .ok p state') :
    w.turn state = ({ w with todo, pending := some p }, state') := by
  simp [turn, hpending, htodo, hclaim]

theorem turn_of_error {w : Writer β} {v : α} {todo : List α} {fault : Fault}
    {state state' : Store σ × β} (hpending : w.pending = none) (htodo : w.todo = v :: todo)
    (hclaim : Staged.claim v state = .error fault state') :
    w.turn state = ({ w with todo := [], refusal := some ⟨fault, v :: todo⟩ }, state') := by
  simp [turn, hpending, htodo, hclaim]

theorem due_turn (hpaced : Staged.Paced σ β left) (w : Writer β) (state : Store σ × β) :
    (w.turn state).1.due left ≤ w.due left - 1 := by
  cases hpending : w.pending with
  | some p =>
      rw [turn_of_pending hpending]
      cases hproceed : (Staged.proceed p state.2).1 with
      | none => simp [due, hpending]
      | some q =>
          have hlt := hpaced.proceed_lt hproceed
          simp only [due, hpending, Option.map_some, Option.getD_some]
          omega
  | none =>
      cases htodo : w.todo with
      | nil =>
          rw [turn_of_nil hpending htodo]
          simp [due, hpending, htodo]
      | cons v todo =>
          cases hclaim : Staged.claim v state with
          | ok p state' =>
              have hlt := hpaced.claim_lt hclaim
              rw [turn_of_ok hpending htodo hclaim]
              simp only [due, hpending, htodo, Option.map_some, Option.getD_some, Option.map_none,
                Option.getD_none, List.length_cons, Nat.mul_add]
              omega
          | error fault state' =>
              rw [turn_of_error hpending htodo hclaim]
              simp [due, hpending]

theorem done_of_due (hpaced : Staged.Paced σ β left) {w : Writer β} (h : w.due left = 0) :
    w.pending = none ∧ w.todo = [] := by
  have hsteps := hpaced.steps_pos
  obtain ⟨hpending, htodo⟩ := Nat.add_eq_zero_iff.mp h
  refine ⟨?_, ?_⟩
  · cases hp : w.pending with
    | none => rfl
    | some p => simp [hp] at hpending
  · rcases Nat.mul_eq_zero.mp htodo with hzero | hzero
    · omega
    · exact List.eq_nil_of_length_eq_zero hzero

end Writer

namespace Race

/-- The thread does what the writer does that began with these values. -/
structure Follows (r : Race σ β) (claims : List (Nat × α)) (thread : Nat) (values : List α)
    (w : Writer β) : Prop where
  pending_eq : (r.flights thread).map Prod.snd = w.pending
  values_eq : values = valuesOf thread claims ++ w.unclaimed
  todo_eq : w.refusal.isSome = true → w.todo = []

/-- The threads do what the writers do, and no others do anything: they have made these claims since
the first ones. -/
structure Mirrors (r : Race σ β) (first claims : List (Nat × α)) (values : List (List α))
    (writers : List (Writer β)) : Prop where
  claims_eq : r.claims = first ++ claims
  length_eq : writers.length = values.length
  follows : ∀ (i : Nat) l w, values[i]? = some l → writers[i]? = some w → r.Follows claims i l w
  idle : ∀ thread, values.length ≤ thread → r.flights thread = none ∧ valuesOf thread claims = []

variable {r r' : Race σ β} {first claims claims' : List (Nat × α)} {values : List (List α)}
  {writers : List (Writer β)}

theorem Mirrors.set (h : r.Mirrors first claims values writers) {i : Nat} {l : List α}
    {w : Writer β} (hl : values[i]? = some l) (hclaims : r'.claims = first ++ claims')
    (hi : r'.Follows claims' i l w) (hother : ∀ k, k ≠ i →
      r'.flights k = r.flights k ∧ valuesOf k claims' = valuesOf k claims) :
    r'.Mirrors first claims' values (writers.set i w) where
  claims_eq := hclaims
  length_eq := by rw [List.length_set, h.length_eq]
  follows k m v hm hv := by
    by_cases hk : k = i
    · subst hk
      obtain rfl : l = m := Option.some.inj (hl.symm.trans hm)
      obtain rfl : w = v := by
        obtain ⟨hlt, heq⟩ := List.getElem?_eq_some_iff.mp hv
        simpa using heq
      exact hi
    · have hold := h.follows k m v hm (by rwa [List.getElem?_set_ne (Ne.symm hk)] at hv)
      obtain ⟨hflights, hvalues⟩ := hother k hk
      exact ⟨by rw [hflights, hold.pending_eq], by rw [hvalues, ← hold.values_eq], hold.todo_eq⟩
  idle k hk := by
    obtain ⟨hi, -⟩ := List.getElem?_eq_some_iff.mp hl
    obtain ⟨hflights, hvalues⟩ := hother k (by omega)
    rw [hflights, hvalues]
    exact h.idle k hk

/-- When the writers have come to their end, nothing is in flight, and what a thread has not claimed
its writer has given up. -/
theorem Mirrors.ended (h : r.Mirrors first claims values writers)
    (hdone : ∀ (i : Nat) l, values[i]? = some l →
      ∃ w, writers[i]? = some w ∧ w.pending = none ∧ w.todo = []) (thread : Nat) :
    r.flights thread = none ∧ ∃ rest, values[thread]?.getD [] = valuesOf thread claims ++ rest ∧
      (writers.filterMap Writer.refusal = [] → rest = []) := by
  cases hl : values[thread]? with
  | none =>
      obtain ⟨hflight, hnone⟩ := h.idle thread (List.getElem?_eq_none_iff.mp hl)
      exact ⟨hflight, [], by simp [hnone], fun _ => rfl⟩
  | some l =>
      obtain ⟨w, hw, hpending, htodo⟩ := hdone thread l hl
      obtain ⟨hflight, hvalues, -⟩ := h.follows thread l w hl hw
      rw [hpending] at hflight
      refine ⟨Option.map_eq_none_iff.mp hflight, w.unclaimed, hvalues, ?_⟩
      intro hrefusals
      have hnone := List.filterMap_eq_nil_iff.mp hrefusals w (List.mem_of_getElem? hw)
      simp [Writer.unclaimed, hnone, htodo]

/-- Each value that was given to a writer was claimed a place for or given up. -/
theorem Mirrors.length_claims (h : r.Mirrors first claims values writers)
    (hdone : ∀ (i : Nat) l, values[i]? = some l →
      ∃ w, writers[i]? = some w ∧ w.pending = none ∧ w.todo = []) :
    claims.length + ((writers.filterMap Writer.refusal).map (·.values.length)).sum =
      values.flatten.length := by
  have hclaimed := sum_length_valuesOf fun thread hthread => (h.idle thread hthread).2
  have hunclaimed : ((writers.filterMap Writer.refusal).map (·.values.length)).sum =
      (writers.map (·.unclaimed.length)).sum := by
    apply Writer.sum_refusals
    intro w hw
    obtain ⟨i, hi⟩ := List.getElem?_of_mem hw
    obtain ⟨hlt, -⟩ := List.getElem?_eq_some_iff.mp hi
    obtain ⟨w', hw', -, htodo⟩ :=
      hdone i _ (List.getElem?_eq_getElem (h.length_eq ▸ hlt : i < values.length))
    obtain rfl := Option.some.inj (hi.symm.trans hw')
    exact htodo
  have hall : values.map List.length = (List.range values.length).map fun i =>
      (valuesOf i claims).length + (writers[i]?.map (·.unclaimed.length)).getD 0 := by
    apply List.ext_getElem
    · simp
    · intro i hi hi'
      rw [List.length_map] at hi
      obtain ⟨w, hw, -⟩ := hdone i _ (List.getElem?_eq_getElem hi)
      obtain ⟨-, hvalues, -⟩ := h.follows i _ w (List.getElem?_eq_getElem hi) hw
      simp only [List.getElem_map, List.getElem_range, hw, Option.map_some, Option.getD_some]
      rw [← List.length_append, ← hvalues]
  have hwriters : ((List.range values.length).map fun i =>
      (writers[i]?.map (·.unclaimed.length)).getD 0) = writers.map (·.unclaimed.length) := by
    apply List.ext_getElem
    · simp [h.length_eq]
    · intro i hi hi'
      rw [List.length_map] at hi'
      simp [List.getElem?_eq_getElem hi']
  rw [List.length_flatten, hall, List.sum_map_add, hclaimed, hwriters, hunclaimed]

variable [SlabSource σ]

theorem run_append (moves more : List (Move σ α)) (r : Race σ β) :
    r.run (moves ++ more) = (r.run moves).run more :=
  List.foldl_append

theorem run_proceed {i : Nat} {v : α} {p : Staged.Pending β} (hflight : r.flights i = some (v, p)) :
    r.run [.proceed i] =
      { r with
        array := (Staged.proceed p r.array).2
        flights := Function.update r.flights i ((Staged.proceed p r.array).1.map (v, ·)) } := by
  simp [run, step, hflight]

theorem run_claim_ok {i : Nat} {v : α} {p : Staged.Pending β} {state : Store σ × β}
    (hidle : r.flights i = none) (hclaim : Staged.claim v (r.store, r.array) = .ok p state) :
    r.run [.claim i v] =
      { store := state.1, array := state.2
        flights := Function.update r.flights i (some (v, p))
        claims := r.claims ++ [(i, v)] } := by
  simp [run, step, hidle, hclaim]

theorem run_claim_error {i : Nat} {v : α} {fault : Fault} {state : Store σ × β}
    (hidle : r.flights i = none)
    (hclaim : Staged.claim v (r.store, r.array) = .error fault state) :
    r.run [.claim i v] = { r with store := state.1, array := state.2 } := by
  simp [run, step, hidle, hclaim]

/-- A turn of a writer is a move of its thread, or none. -/
theorem exists_moves_turn (h : r.Mirrors first claims values writers) {i : Nat} {w : Writer β}
    (hw : writers[i]? = some w) :
    ∃ moves claims', (r.run moves).Mirrors first claims' values
        (writers.set i (w.turn (r.store, r.array)).1) ∧
      ((r.run moves).store, (r.run moves).array) = (w.turn (r.store, r.array)).2 := by
  obtain ⟨l, hl⟩ : ∃ l, values[i]? = some l := by
    obtain ⟨hi, -⟩ := List.getElem?_eq_some_iff.mp hw
    exact ⟨_, List.getElem?_eq_getElem (h.length_eq ▸ hi)⟩
  obtain ⟨hflight, hvalues, htodo⟩ := h.follows i l w hl hw
  cases hpending : w.pending with
  | some p =>
      obtain ⟨v, hv⟩ : ∃ v, r.flights i = some (v, p) := by
        rw [hpending] at hflight
        obtain ⟨⟨v, _⟩, hv, rfl⟩ := Option.map_eq_some_iff.mp hflight
        exact ⟨v, hv⟩
      refine ⟨[.proceed i], claims, ?_⟩
      rw [run_proceed hv, Writer.turn_of_pending hpending]
      refine ⟨h.set hl h.claims_eq ⟨?_, hvalues, htodo⟩ ?_, rfl⟩
      · simp [Option.map_map, Function.comp_def]
      · exact fun k hk => ⟨Function.update_of_ne hk .., rfl⟩
  | none =>
      have hidle : r.flights i = none := by
        rw [hpending] at hflight
        exact Option.map_eq_none_iff.mp hflight
      cases hnext : w.todo with
      | nil =>
          refine ⟨[], claims, ?_⟩
          rw [Writer.turn_of_nil hpending hnext]
          exact ⟨h.set hl h.claims_eq ⟨hflight, hvalues, htodo⟩ fun _ _ => ⟨rfl, rfl⟩, rfl⟩
      | cons v todo =>
          have hrefusal : w.refusal = none := by
            cases hr : w.refusal with
            | none => rfl
            | some refusal => simp [htodo (by simp [hr])] at hnext
          have hunclaimed : l = valuesOf i claims ++ v :: todo := by
            simpa [Writer.unclaimed, hrefusal, hnext] using hvalues
          cases hclaim : Staged.claim v (r.store, r.array) with
          | ok p state =>
              refine ⟨[.claim i v], claims ++ [(i, v)], ?_⟩
              rw [run_claim_ok hidle hclaim, Writer.turn_of_ok hpending hnext hclaim]
              refine ⟨h.set hl ?_ ⟨?_, ?_, ?_⟩ ?_, rfl⟩
              · rw [h.claims_eq, List.append_assoc]
              · simp
              · rw [valuesOf_concat_self, List.append_assoc]
                simpa [Writer.unclaimed, hrefusal] using hunclaimed
              · simp [hrefusal]
              · intro k hk
                exact ⟨Function.update_of_ne hk .., valuesOf_concat_of_ne hk claims v⟩
          | error fault state =>
              refine ⟨[.claim i v], claims, ?_⟩
              rw [run_claim_error hidle hclaim, Writer.turn_of_error hpending hnext hclaim]
              refine ⟨h.set hl h.claims_eq ⟨?_, ?_, ?_⟩ fun _ _ => ⟨rfl, rfl⟩, rfl⟩
              · rw [hpending] at hflight
                exact hflight.trans hpending.symm
              · exact hunclaimed
              · exact fun _ => rfl

theorem claims_prefix_run (moves : List (Move σ α)) (r : Race σ β) :
    r.claims <+: (r.run moves).claims := by
  induction moves generalizing r with
  | nil => exact List.prefix_refl _
  | cons move moves ih =>
      refine List.IsPrefix.trans ?_ (ih (r.step move))
      cases move with
      | elsewhere store => exact List.prefix_refl _
      | claim thread v =>
          simp only [step]
          cases r.flights thread with
          | some flight => exact List.prefix_refl _
          | none =>
              cases Staged.claim v (r.store, r.array) with
              | ok p state => exact List.prefix_append ..
              | error fault state => exact List.prefix_refl _
      | proceed thread =>
          simp only [step]
          cases r.flights thread <;> exact List.prefix_refl _

end Race

variable [Segment ν α]

theorem Reader.sees_turn {c : Chain ν} {parts : List (List α)} (h : c.Shows parts) {l : List α}
    (hl : parts.flatten ⊆ l) {reader : Reader α} (hcursor : c.LegibleIn l reader.cursor)
    (hseen : reader.seen ⊆ l) :
    c.LegibleIn l (reader.turn c).cursor ∧ (reader.turn c).seen ⊆ l := by
  obtain ⟨hvalue, hnext⟩ := Chain.legibleIn_next c h hl hcursor
  unfold turn
  split
  · rename_i v cursor heq
    rw [heq] at hvalue hnext
    exact ⟨hnext, List.cons_subset.mpr ⟨hvalue v rfl, hseen⟩⟩
  · exact ⟨Chain.legibleIn_start c h hl, hseen⟩

namespace Race

variable [SlabSource σ] {L : Layout ν α (Staged.Pending β)} {r : Race σ β}
  {board : Board α (Staged.Pending β)} {left : Staged.Pending β → Nat}

/-- What the writers have come to is what some moves lead to, and the reader has seen only values
that were claimed. -/
def Watched (r : Race σ β) (values : List (List α)) (writers : List (Writer β))
    (shared : (Store σ × β) × Reader α) : Prop :=
  ∃ moves claims, (r.run moves).Mirrors r.claims claims values writers ∧
    ((r.run moves).store, (r.run moves).array) = shared.1 ∧
    (Staged.chain shared.1.2).LegibleIn ((r.run moves).claims.map Prod.snd) shared.2.cursor ∧
    shared.2.seen ⊆ (r.run moves).claims.map Prod.snd

omit [Segment ν α] [SlabSource σ] in
theorem Lies.fronts_subset (h : r.Lies L board) :
    board.fronts.flatten ⊆ r.claims.map Prod.snd :=
  h.map_value ▸ board.fronts_sublist.subset

theorem Watched.turn (hL : L.Kept σ β) (hlies : r.Lies L board) {values : List (List α)}
    {writers : List (Writer β)} {shared : (Store σ × β) × Reader α}
    (h : r.Watched values writers shared) {i : Nat} {w : Writer β} (hw : writers[i]? = some w) :
    r.Watched values (writers.set i (w.watchedTurn shared).1) (w.watchedTurn shared).2 := by
  obtain ⟨state, reader⟩ := shared
  obtain ⟨moves, claims, hmirrors, rfl, hcursor, hseen⟩ := h
  obtain ⟨more, claims', hmirrors', hstate⟩ := exists_moves_turn hmirrors hw
  obtain ⟨-, board₁, hlies₁⟩ := lies_run hL moves hlies
  obtain ⟨hext, board₂, hlies₂⟩ := lies_run hL more hlies₁
  have hsub : (r.run moves).claims.map Prod.snd ⊆
      ((r.run moves).run more).claims.map Prod.snd :=
    List.map_subset _ (claims_prefix_run more _).subset
  obtain ⟨hlegible, hsees⟩ := Reader.sees_turn (hlies₂.lies.shows hL.shows) hlies₂.fronts_subset
    ((hcursor.of_extends hext).mono hsub) (List.Subset.trans hseen hsub)
  have hshared : (w.watchedTurn (((r.run moves).store, (r.run moves).array), reader)).2 =
      ((((r.run moves).run more).store, ((r.run moves).run more).array),
        reader.turn (Staged.chain ((r.run moves).run more).array)) := by
    simp only [Writer.watchedTurn, ← hstate]
  rw [hshared]
  refine ⟨moves ++ more, claims', ?_, ?_, ?_, ?_⟩
  all_goals rw [run_append]
  · exact hmirrors'
  · exact hlegible
  · exact hsees

theorem Watched.start (hL : L.Kept σ β) (hlies : r.Lies L board) (hsettled : r.Settled)
    (values : List (List α)) :
    r.Watched values (values.map fun todo => { todo })
      ((r.store, r.array), { cursor := (Staged.chain r.array).start }) := by
  refine ⟨[], [], ⟨?_, ?_, ?_, ?_⟩, rfl, ?_, ?_⟩
  · exact (List.append_nil _).symm
  · rw [List.length_map]
  · intro i l w hl hw
    rw [List.getElem?_map, hl] at hw
    obtain rfl := Option.some.inj hw
    exact ⟨congrArg (Option.map Prod.snd) (hsettled i), rfl, nofun⟩
  · exact fun thread _ => ⟨hsettled thread, rfl⟩
  · exact Chain.legibleIn_start _ (hlies.lies.shows hL.shows) hlies.fronts_subset
  · exact List.nil_subset _

/-- With so many turns of their own, all writers come to their end, however the schedule began. -/
theorem exists_done_of_paced (hpaced : Staged.Paced σ β left) (values : List (List α))
    (schedule : Schedule) (shared : (Store σ × β) × Reader α) {i : Nat} {l : List α}
    (hl : values[i]? = some l) :
    ∃ w, ((schedule ++ Schedule.inOrder (values.map (Staged.steps β * ·.length))).run
        Writer.watchedTurn (values.map fun todo => { todo }) shared).1[i]? = some w ∧
      w.pending = none ∧ w.todo = [] := by
  have hstart : (values.map fun todo => ({ todo } : Writer β))[i]? = some { todo := l } := by
    rw [List.getElem?_map, hl]
    rfl
  have hturn : ∀ (w : Writer β) (shared : (Store σ × β) × Reader α),
      (w.watchedTurn shared).1.due left ≤ w.due left - 1 :=
    fun w shared => Writer.due_turn hpaced w shared.1
  obtain ⟨w, hw, hdue⟩ := Schedule.due_run hturn
    (schedule ++ Schedule.inOrder (values.map (Staged.steps β * ·.length))) shared hstart
  refine ⟨w, hw, Writer.done_of_due hpaced ?_⟩
  have hcount : (Schedule.inOrder (values.map (Staged.steps β * ·.length))).count i =
      Staged.steps β * l.length := by
    rw [Schedule.count_inOrder, List.getElem?_map, hl]
    rfl
  have hfirst : ({ todo := l } : Writer β).due left = Staged.steps β * l.length := by
    simp [Writer.due]
  rw [List.count_append, hcount, hfirst] at hdue
  omega

/-- Wherever a race of writers stands, what they have come to is what some moves lead to. -/
theorem watched_run (hL : L.Kept σ β) (hlies : r.Lies L board) (hsettled : r.Settled)
    (values : List (List α)) (schedule : Schedule) :
    let race := schedule.run Writer.watchedTurn (values.map fun todo => { todo })
      ((r.store, r.array), { cursor := (Staged.chain r.array).start })
    r.Watched values race.1 race.2 :=
  Schedule.run_induct (P := r.Watched values)
    (fun _ _ _ _ hw h => Watched.turn hL hlies h hw) schedule
    (Watched.start hL hlies hsettled values)

/-- After a race of writers all have come to their end. What they did to the array, threads can do
that make some moves. -/
theorem racePush_mirrored (hL : L.Kept σ β) (hpaced : Staged.Paced σ β left)
    (hlies : r.Lies L board) (hsettled : r.Settled) (values : List (List α))
    (schedule : Schedule) :
    let out := racePush values schedule (r.store, r.array)
    ∃ moves claims writers, (r.run moves).Mirrors r.claims claims values writers ∧
      (∀ (i : Nat) l, values[i]? = some l →
        ∃ w, writers[i]? = some w ∧ w.pending = none ∧ w.todo = []) ∧
      ((r.run moves).store, (r.run moves).array) = out.2 ∧
      out.1.contents = (Staged.chain out.2.2).toList ∧
      out.1.seen ⊆ (r.run moves).claims.map Prod.snd ∧
      out.1.refusals = writers.filterMap Writer.refusal := by
  intro out
  have hwatched := watched_run hL hlies hsettled values
    (schedule ++ Schedule.inOrder (values.map (Staged.steps β * ·.length)))
  have hdone := fun i l => exists_done_of_paced hpaced values schedule
    ((r.store, r.array), { cursor := (Staged.chain r.array).start }) (i := i) (l := l)
  simp only [out, racePush]
  generalize (schedule ++ Schedule.inOrder _).run _ _ _ = final at hwatched hdone ⊢
  obtain ⟨writers, state, reader⟩ := final
  obtain ⟨moves, claims, hmirrors, hstate, -, hseen⟩ := hwatched
  exact ⟨moves, claims, writers, hmirrors, hdone, hstate, trivial, hseen, rfl⟩

/-- After a race of writers nothing is in flight. What they did to the array, threads can do that
make some moves. -/
theorem racePush_settles (hL : L.Kept σ β) (hpaced : Staged.Paced σ β left)
    (hlies : r.Lies L board) (hsettled : r.Settled) (values : List (List α))
    (schedule : Schedule) :
    let out := racePush values schedule (r.store, r.array)
    ∃ moves claims, (r.run moves).Settled ∧ ((r.run moves).store, (r.run moves).array) = out.2 ∧
      (r.run moves).claims = r.claims ++ claims ∧
      out.1.Accounts (r.claims.map Prod.snd) values claims := by
  intro out
  obtain ⟨moves, claims, writers, hmirrors, hdone, hstate, hcontents, hseen, hrefusals⟩ :=
    racePush_mirrored hL hpaced hlies hsettled values schedule
  have hend := hmirrors.ended hdone
  have hdown : (r.run moves).Settled := fun thread => (hend thread).1
  have hclaims := congrArg (List.map Prod.snd) hmirrors.claims_eq
  rw [List.map_append] at hclaims
  refine ⟨moves, claims, hdown, hstate, hmirrors.claims_eq, ?_, ?_, ?_, ?_⟩
  · obtain ⟨-, board', hlies'⟩ := lies_run hL moves hlies
    have hall := hlies'.fronts_of_settled hdown
    rw [← hclaims, ← hall, ← Chain.toList_of_shows (hlies'.lies.shows hL.shows), hcontents,
      ← hstate]
  · exact hclaims ▸ hseen
  · intro thread
    obtain ⟨-, rest, hrest, -⟩ := hend thread
    exact ⟨rest, hrest.symm⟩
  · intro hnone thread
    obtain ⟨-, rest, hrest, hnil⟩ := hend thread
    rw [hrest, hnil (hrefusals ▸ hnone), List.append_nil]

/-- After a race of writers nothing is in flight, and every value was either claimed a place for or
given up. -/
theorem racePush_counts (hL : L.Kept σ β) (hpaced : Staged.Paced σ β left)
    (hlies : r.Lies L board) (hsettled : r.Settled) (values : List (List α))
    (schedule : Schedule) :
    let out := racePush values schedule (r.store, r.array)
    ∃ moves claims, (r.run moves).Settled ∧ ((r.run moves).store, (r.run moves).array) = out.2 ∧
      (r.run moves).claims = r.claims ++ claims ∧
      claims.length + (out.1.refusals.map (·.values.length)).sum = values.flatten.length := by
  intro out
  obtain ⟨moves, claims, writers, hmirrors, hdone, hstate, -, -, hrefusals⟩ :=
    racePush_mirrored hL hpaced hlies hsettled values schedule
  refine ⟨moves, claims, fun thread => (hmirrors.ended hdone thread).1, hstate,
    hmirrors.claims_eq, ?_⟩
  rw [hrefusals]
  exact hmirrors.length_claims hdone

end Race

end GrowArena

import GrowArena.Proofs.Arena.Beside
import GrowArena.Proofs.Race.Writers
import GrowArena.Race.Allocate

/-!
Races over two stores that are the same but for their addresses, under the same schedule: turn by
turn the callers come equally far with the same requests, and the writers do the same to the same
array.
-/

namespace GrowArena

open List

variable {d : Int} {α : Type}

/-- Equally far with a request, with everything that has an address shifted. -/
inductive Attempt.Shifted (d : Int) : Attempt → Attempt → Prop
  | looking : Shifted d looking looking
  | facing (chunk : Nat) : Shifted d (facing chunk) (facing chunk)
  | placing (chunk cursor : Nat) {p p' : Placement} (hp : p.Shifted d p') :
      Shifted d (placing chunk cursor p) (placing chunk cursor p')
  | lacking (observed : Nat) : Shifted d (lacking observed) (lacking observed)
  | holding (observed : Nat) {c c' : Chunk} (hc : c.Shifted d c') :
      Shifted d (holding observed c) (holding observed c')
  | counting {address address' : Nat} (h : Shift d address address') :
      Shifted d (counting address) (counting address')
  | granted {address address' : Nat} (h : Shift d address address') :
      Shifted d (done (.ok address)) (done (.ok address'))
  | failed (fault : Fault) : Shifted d (done (.error fault)) (done (.error fault))

/-- With the same requests still to make, and the same fault if any. -/
structure Caller.Shifted (d : Int) (c c' : Caller) : Prop where
  todo_eq : c'.todo = c.todo
  todo_dvd : ∀ r ∈ c.todo, (r.alignment : Int) ∣ d
  current : Option.Rel
    (fun x x' => x'.1 = x.1 ∧ (x.1.alignment : Int) ∣ d ∧ x.2.Shifted d x'.2)
    c.current c'.current
  granted : Forall₂ (Grant.Shifted d) c.granted c'.granted
  fault_eq : c'.fault = c.fault

theorem Attempt.Shifted.step {attempt attempt' : Attempt} (h : attempt.Shifted d attempt')
    {r : Request} (hr : (r.alignment : Int) ∣ d) {s s' : Store LinearHeap} (hs : s.Shifted d s') :
    (attempt.step r s).1.Shifted d (attempt'.step r s').1 ∧
      (attempt.step r s).2.Shifted d (attempt'.step r s').2 := by
  cases h with
  | looking =>
      simp only [Attempt.step, hs.arena.size_eq]
      split
      · exact ⟨.failed _, hs⟩
      · split
        · exact ⟨.lacking _, hs⟩
        · exact ⟨.facing _, hs⟩
  | facing chunk =>
      have hchunk := hs.arena.chunk? chunk
      simp only [Attempt.step]
      generalize s.arena.chunks[chunk]? = c?, s'.arena.chunks[chunk]? = c'? at hchunk
      cases hchunk with
      | none => exact ⟨.looking, hs⟩
      | @some c c' hc =>
          have hplace := hc.place? hr
          dsimp only
          generalize c.place? r = p?, c'.place? r = p'? at hplace
          cases hplace with
          | none => exact ⟨.lacking _, hs⟩
          | some hp =>
              rw [hc.cursor_eq]
              exact ⟨.placing _ _ hp, hs⟩
  | placing chunk cursor hp =>
      have hchunk := hs.arena.chunk? chunk
      have hcursor : s'.arena.chunks[chunk]?.map Chunk.cursor =
          s.arena.chunks[chunk]?.map Chunk.cursor := by
        generalize s.arena.chunks[chunk]? = c?, s'.arena.chunks[chunk]? = c'? at hchunk
        cases hchunk with
        | none => rfl
        | some hc => exact congrArg some hc.cursor_eq
      simp only [Attempt.step, hcursor]
      split
      · rw [hp.cursor_eq]
        exact ⟨.counting hp.address, ⟨hs.source, hs.arena.moveCursor _ _, hs.log_eq⟩⟩
      · exact ⟨.looking, hs⟩
  | lacking observed =>
      have hobtained := hs.obtain r
      simp only [Attempt.step]
      generalize Store.obtain r s = result, Store.obtain r s' = result' at hobtained
      cases hobtained with
      | ok hc hs => exact ⟨.holding _ hc, hs⟩
      | error hs => exact ⟨.failed _, hs⟩
  | holding observed hc => exact ⟨.looking, hs.settle hc observed⟩
  | counting h =>
      exact ⟨.granted h, ⟨hs.source, hs.arena.credit ⟨h, rfl, hr⟩, hs.log_eq⟩⟩
  | granted h => exact ⟨.granted h, hs⟩
  | failed fault => exact ⟨.failed fault, hs⟩

theorem Caller.Shifted.turn {c c' : Caller} (h : c.Shifted d c') {s s' : Store LinearHeap}
    (hs : s.Shifted d s') :
    (c.turn s).1.Shifted d (c'.turn s').1 ∧ (c.turn s).2.Shifted d (c'.turn s').2 := by
  obtain ⟨todo, current, granted, fault⟩ := c
  obtain ⟨todo', current', granted', fault'⟩ := c'
  obtain ⟨rfl, htodo, hcurrent, hgranted, rfl⟩ := h
  cases hcurrent with
  | none =>
      cases todo' with
      | nil => exact ⟨⟨rfl, htodo, .none, hgranted, rfl⟩, hs⟩
      | cons r rs =>
          obtain ⟨hr, hrs⟩ := List.forall_mem_cons.mp htodo
          exact ⟨⟨rfl, hrs, .some ⟨rfl, hr, .looking⟩, hgranted, rfl⟩, hs⟩
  | @some x x' hx =>
      obtain ⟨r, attempt⟩ := x
      obtain ⟨r', attempt'⟩ := x'
      obtain ⟨rfl, hr, hattempt⟩ := hx
      have hstep := hattempt.step hr hs
      simp only [Caller.turn]
      generalize attempt.step r' s = next, attempt'.step r' s' = next' at hstep
      obtain ⟨attempt, s⟩ := next
      obtain ⟨attempt', s'⟩ := next'
      obtain ⟨hattempt, hs⟩ := hstep
      cases hattempt with
      | granted h => exact ⟨⟨rfl, htodo, .none, .cons ⟨h, rfl, hr⟩ hgranted, rfl⟩, hs⟩
      | failed => exact ⟨⟨rfl, nofun, .none, hgranted, rfl⟩, hs⟩
      | _ =>
          refine ⟨⟨rfl, htodo, .some ⟨rfl, hr, ?_⟩, hgranted, rfl⟩, hs⟩
          constructor <;> assumption

theorem Store.Shifted.raceAllocate {s s' : Store LinearHeap} (h : s.Shifted d s')
    {requests : List (List Request)}
    (hrequests : ∀ rs ∈ requests, ∀ r ∈ rs, (r.alignment : Int) ∣ d) (schedule : Schedule) :
    Forall₂ (Caller.Shifted d) (s.raceAllocate requests schedule).1
        (s'.raceAllocate requests schedule).1 ∧
      (s.raceAllocate requests schedule).2.Shifted d (s'.raceAllocate requests schedule).2 := by
  refine Schedule.related_run (fun c c' s s' hc hs => hc.turn hs) _ ?_ h
  refine forall₂_same.mpr fun c hc => ?_
  obtain ⟨rs, hrs, rfl⟩ := List.mem_map.mp hc
  exact ⟨rfl, hrequests rs hrs, .none, .nil, rfl⟩

theorem Caller.fault_eq_of_shifted {callers callers' : List Caller}
    (h : Forall₂ (Caller.Shifted d) callers callers') :
    callers'.findSome? Caller.fault = callers.findSome? Caller.fault := by
  have hfaults : callers'.map Caller.fault = callers.map Caller.fault :=
    map_eq_of_forall₂ h fun _ _ hc => hc.fault_eq
  have hfirst := congrArg (List.findSome? id) hfaults
  rwa [List.findSome?_map, List.findSome?_map] at hfirst

/-- Grants that are shifted are as well aligned. -/
theorem Grant.all_aligned_eq_of_shifted {grants grants' : List Grant}
    (h : Forall₂ (Grant.Shifted d) grants grants') :
    grants'.all (decide ·.Aligned) = grants.all (decide ·.Aligned) := by
  have haligned : grants'.map (decide ·.Aligned) = grants.map (decide ·.Aligned) := by
    refine map_eq_of_forall₂ h fun g g' hg => decide_eq_decide.mpr ?_
    rw [Grant.Aligned, Grant.Aligned, hg.request_eq, hg.address.mod_eq hg.alignment_dvd]
  have hall := congrArg (List.all · id) haligned
  rwa [List.all_map, List.all_map] at hall

/-- Grants that are shifted lie apart if they lay apart. -/
theorem Grant.disjoint_iff_of_shifted {grants grants' : List Grant}
    (h : Forall₂ (Grant.Shifted d) grants grants') :
    grants'.Pairwise Grant.Disjoint ↔ grants.Pairwise Grant.Disjoint := by
  refine pairwise_iff_of_forall₂ h fun g g' k k' hg hk => ?_
  have haddress := hg.address
  have haddress' := hk.address
  simp only [Grant.Disjoint, Grant.stop, hg.request_eq, hk.request_eq, Shift] at *
  omega

section

variable {β ν : Type} [Staged β ν α] {Fits : β → Prop}

/-- The same reader of the same array. -/
structure Watching (d : Int) (Fits : β → Prop)
    (shared shared' : (Store LinearHeap × β) × Reader α) : Prop where
  beside : Beside d Fits shared.1 shared'.1
  reader_eq : shared'.2 = shared.2

variable
  (hclaim : ∀ value state state', Beside d Fits state state' →
    Tandem (Beside d Fits) Eq (Staged.claim value state) (Staged.claim value state'))
  (hproceed : ∀ pending a, Fits a → Fits (Staged.proceed pending a).2)

include hclaim hproceed

theorem Beside.turn (w : Writer β) {state state' : Store LinearHeap × β}
    (h : Beside d Fits state state') :
    (w.turn state').1 = (w.turn state).1 ∧ Beside d Fits (w.turn state).2 (w.turn state').2 := by
  cases hpending : w.pending with
  | some pending =>
      obtain ⟨hs, hfits⟩ := h
      rw [Writer.turn_of_pending hpending, Writer.turn_of_pending hpending]
      exact ⟨rfl, ⟨hs, hproceed pending _ hfits⟩⟩
  | none =>
      cases htodo : w.todo with
      | nil =>
          rw [Writer.turn_of_nil hpending htodo, Writer.turn_of_nil hpending htodo]
          exact ⟨rfl, h⟩
      | cons value todo =>
          have hclaimed := hclaim value state state' h
          generalize hresult : Staged.claim value state = r,
            hresult' : Staged.claim value state' = r' at hclaimed
          cases hclaimed with
          | ok hb hstate =>
              subst hb
              rw [Writer.turn_of_ok hpending htodo hresult,
                Writer.turn_of_ok hpending htodo hresult']
              exact ⟨rfl, hstate⟩
          | error hstate =>
              rw [Writer.turn_of_error hpending htodo hresult,
                Writer.turn_of_error hpending htodo hresult']
              exact ⟨rfl, hstate⟩

/-- Writers and reader do the same, so that there is the same to say of the race. -/
theorem Beside.racePush [Segment ν α] (values : List (List α)) (schedule : Schedule)
    {state state' : Store LinearHeap × β} (h : Beside d Fits state state') :
    (racePush values schedule state').1 = (racePush values schedule state).1 ∧
      Beside d Fits (racePush values schedule state).2 (racePush values schedule state').2 := by
  have hturn : ∀ (w w' : Writer β) (shared shared' : (Store LinearHeap × β) × Reader α), w = w' →
      Watching d Fits shared shared' →
      (w.watchedTurn shared).1 = (w'.watchedTurn shared').1 ∧
        Watching d Fits (w.watchedTurn shared).2 (w'.watchedTurn shared').2 := by
    rintro w _ ⟨state, reader⟩ ⟨state', reader'⟩ rfl ⟨hstate, rfl⟩
    obtain ⟨hw, hnext⟩ := hstate.turn hclaim hproceed w
    refine ⟨hw.symm, hnext, ?_⟩
    simp only [Writer.watchedTurn, hnext.eq]
  have hwriters : Forall₂ Eq (values.map fun todo => ({ todo } : Writer β))
      (values.map fun todo => ({ todo } : Writer β)) := forall₂_same.mpr fun _ _ => rfl
  have hstart : Watching d Fits (state, ({ cursor := (Staged.chain state.2).start } : Reader α))
      (state', { cursor := (Staged.chain state'.2).start }) := ⟨h, by rw [h.eq]⟩
  obtain ⟨hends, hstate, hreader⟩ := Schedule.related_run hturn
    (schedule ++ Schedule.inOrder (values.map (Staged.steps β * ·.length))) hwriters hstart
  rw [forall₂_eq_eq_eq] at hends
  refine ⟨?_, hstate⟩
  simp only [GrowArena.racePush, ← hends, hstate.eq, hreader]

end

theorem TypedArray.besideRacePush {state state' : Store LinearHeap × TypedArray α}
    (h : Beside d (Fits d) state state') (values : List (List α)) (schedule : Schedule) :
    (racePush values schedule state').1 = (racePush values schedule state).1 ∧
      Beside d (Fits d) (racePush values schedule state).2
        (racePush values schedule state').2 := by
  refine h.racePush ?_ (fun _ _ hfits => hfits) values schedule
  intro value state state' hstate
  have hclaimed := tandem_claim hstate
  simp only [Staged.claim]
  generalize claim state = r, claim state' = r' at hclaimed
  cases hclaimed with
  | ok ht hnext => exact .ok (by rw [ht]) hnext
  | error hnext => exact .error hnext

theorem PackedArray.besideRacePush {state state' : Store LinearHeap × PackedArray}
    (h : Beside d Fits state state') (values : List (List UInt32)) (schedule : Schedule) :
    (racePush values schedule state').1 = (racePush values schedule state).1 ∧
      Beside d Fits (racePush values schedule state).2 (racePush values schedule state').2 := by
  refine h.racePush ?_ (fun _ _ _ => trivial) values schedule
  intro word state state' hstate
  have hreserved := tandem_reserve (Leb128.encode word).length hstate
  simp only [Staged.claim]
  generalize reserve _ state = r, reserve _ state' = r' at hreserved
  cases hreserved with
  | ok hspot hnext => exact .ok (by rw [hspot]) hnext
  | error hnext => exact .error hnext

end GrowArena

import GrowArena.Proofs.Race.Books
import GrowArena.Proofs.Workspace.Memory

/-!
Callers that race for the memory of one arena. The books of the arena with all that the callers hold
are kept by every turn, whoever has it, so they are right in every state of a race. Where no request
is on its way, they are the books of the arena alone.
-/

namespace GrowArena

variable {τ α : Type}

namespace Store

variable {Owns : τ → List Slab → Prop} [SlabSource τ] {former : List Grant} {callers : List Caller}
  {s : Store (Metered τ)}

theorem books_underway (hsource : SlabSource.Unordered Owns) : Books (Underway Owns) where
  perm hheld huncounted h := h.of_perm hsource hheld huncounted
  moves hmoves held uncounted h := hmoves.underway hsource held uncounted h

/-- The callers, and what was granted before they came, account for all that is in the arena. -/
abbrev Racing (Owns : τ → List Slab → Prop) (former : List Grant) (callers : List Caller)
    (s : Store (Metered τ)) : Prop :=
  s.Raced (Underway Owns) former callers

theorem Racing.run (hsource : SlabSource.Unordered Owns) (schedule : Schedule)
    (h : s.Racing Owns former callers) :
    (schedule.run Caller.turn callers s).2.Racing Owns former
      (schedule.run Caller.turn callers s).1 :=
  Raced.run (books_underway hsource) schedule h

/-- What is right in every state of a race of callers. -/
structure Consistent (former : List Grant) (callers : List Caller) (s : Store (Metered τ)) :
    Prop where
  used_le : s.arena.used ≤ s.arena.allocated
  /-- Every slab obtained is held by a caller, in the chain, or given back. -/
  obtained_perm : s.source.obtained.Perm ((callers.flatMap Caller.held).map Chunk.slab ++
    s.arena.chunks.toList.map Chunk.slab ++ s.source.returned)
  apart : ((callers.flatMap Caller.held).map Chunk.slab ++
    s.arena.chunks.toList.map Chunk.slab).Pairwise Slab.Apart
  borrows : ∀ c ∈ callers, ∀ chunk, c.held = [] → (c.turn s).1.held = [chunk] →
    Borrowed chunk s (c.turn s).2
  /-- A caller that comes too late with a chunk gives it back and goes on. -/
  gives_back : ∀ c ∈ callers, ∀ r observed chunk, c.current = some (r, .holding observed chunk) →
    s.arena.chunks.size ≠ observed →
      (c.turn s).1 = { c with current := some (r, .looking) } ∧ Borrowed chunk (c.turn s).2 s
  settled : (∀ c ∈ callers, c.current = none) →
    s.arena.allocated = (s.arena.chunks.toList.map fun c => Chunk.header + c.capacity).sum ∧
      s.arena.used = ((callers.flatMap Caller.granted ++ former).map (·.request.bytes)).sum ∧
      (callers.flatMap Caller.granted ++ former).Pairwise Grant.Disjoint

theorem Racing.hasOut_of_mem (hsource : SlabSource.Unordered Owns)
    (h : s.Racing Owns former callers) {c : Caller} (hc : c ∈ callers) :
    ∃ others, s.HasOut Owns (c.held.map Chunk.slab ++ others) := by
  obtain ⟨before, after, rfl⟩ := List.append_of_mem hc
  have hmiddle : ((before ++ c :: after).flatMap Caller.held).Perm
      (c.held ++ (before ++ after).flatMap Caller.held) :=
    List.perm_middle.flatMap_right Caller.held
  refine ⟨s.out ((before ++ after).flatMap Caller.held), ?_⟩
  have hout := h.books.hasOut.of_perm hsource ((hmiddle.append_right _).map Chunk.slab)
  simpa [out] using hout

theorem Racing.borrowed_turn (hsource : SlabSource.Unordered Owns)
    (h : s.Racing Owns former callers) {c : Caller} (hc : c ∈ callers) {chunk : Chunk}
    (hnone : c.held = []) (hheld : (c.turn s).1.held = [chunk]) :
    Borrowed chunk s (c.turn s).2 := by
  have hturns := c.turns_turn s
  generalize c.turn s = next at hturns hheld ⊢
  cases hturns with
  | rested => simp [hnone] at hheld
  | began => cases hheld
  | ended => simp [Caller.held_conclude] at hheld
  | @went r t hcurrent =>
      have hmoves := Attempt.moves_step (h.fits c hc r t hcurrent)
      obtain ⟨others, hout⟩ := h.hasOut_of_mem hsource hc
      simp only [Caller.held, hcurrent, Option.elim_some] at hnone hheld
      generalize t.step r s = next at hmoves hheld ⊢
      obtain ⟨t', s'⟩ := next
      cases hmoves with
      | looked hsame => simp [← hsame, hnone] at hheld
      | failed | placed | installed | returned | counted => simp [Attempt.held] at hheld
      | obtained hcursor hacquire =>
          obtain rfl := List.singleton_injective hheld
          exact hout.borrowed_obtained hsource hacquire

theorem Racing.gives_back_turn (hsource : SlabSource.Unordered Owns)
    (h : s.Racing Owns former callers) {c : Caller} (hc : c ∈ callers) {r : Request}
    {observed : Nat} {chunk : Chunk} (hcurrent : c.current = some (r, .holding observed chunk))
    (hstale : s.arena.chunks.size ≠ observed) :
    (c.turn s).1 = { c with current := some (r, .looking) } ∧ Borrowed chunk (c.turn s).2 s := by
  obtain ⟨others, hout⟩ := h.hasOut_of_mem hsource hc
  simp only [Caller.held, hcurrent] at hout
  simp only [Caller.turn, hcurrent, Attempt.step, settle, if_neg hstale]
  exact ⟨trivial, hout.borrowed_returned hsource⟩

theorem Racing.consistent (hsource : SlabSource.Unordered Owns) (h : s.Racing Owns former callers) :
    s.Consistent former callers where
  used_le := h.books.used_le
  obtained_perm := by
    have hobtained := h.books.hasOut.obtained_perm
    rwa [out, List.map_append] at hobtained
  apart := by
    have hapart := h.books.hasOut.apart
    rwa [out, List.map_append] at hapart
  borrows c hc chunk hnone hheld := h.borrowed_turn hsource hc hnone hheld
  gives_back c hc r observed chunk hcurrent hstale :=
    h.gives_back_turn hsource hc hcurrent hstale
  settled hidle := by
    obtain ⟨⟨a, hsound, -, -, hgrants⟩, hused, hout⟩ := h.books_of_idle hidle
    refine ⟨?_, ?_, ?_⟩
    · rw [hout.allocated_eq, out, List.nil_append, slabBytes, List.map_map]
      rfl
    · rw [hused]
      exact (h.grants_perm.map _).sum_nat
    · have hperm := hgrants.trans h.grants_perm
      exact (hperm.pairwise_iff Grant.Disjoint.symm).mp hsound.disjoint

theorem racing_start {s : Store (Metered τ)} (hkept : s.Kept)
    (horderly : s.Orderly fun m => Owns m.source) (hsource : SlabSource.Unordered Owns)
    (requests : List (List Request)) :
    s.Racing Owns s.arena.grants (requests.map fun todo => { todo }) := by
  have howns : Owns s.source.source (s.out []) := by
    refine hsource.perm ?_ horderly.owns
    exact (List.reverse_perm _).map _
  have hout : s.HasOut Owns (s.out []) := by
    refine ⟨?_, hkept.obtained_perm, List.pairwise_map.mpr horderly.sound.apart, howns⟩
    rw [hkept.counted.allocated_eq, slabBytes, out, List.map_map]
    rfl
  have hbooks : s.Underway Owns [] [] :=
    ⟨⟨s.arena, horderly.sound, hkept.counted, rfl, .refl _⟩, hkept.counted.used_eq, hout⟩
  exact Raced.start hbooks requests

end Store

open Workspace in
/-- Whatever commands came before, a race of callers for memory keeps an arena consistent at every
moment: the schedule may stop anywhere. -/
theorem races_for_memory_stay_consistent {Owns : τ → List Slab → Prop} [SlabSource τ] [Element α]
    (hsource : SlabSource.Unordered Owns) {source : τ} (hnew : Owns source []) (blockSize : Nat)
    (commands : List (Command α)) (requests : List (List Request)) (schedule : Schedule) :
    let before := (runCommands commands (ofArena (.ofBlockSize blockSize)
      ({ source } : Metered τ))).store
    let race := schedule.run Caller.turn (requests.map fun todo => { todo }) before
    race.2.Consistent before.arena.grants race.1 := by
  intro before race
  have hkept : before.Kept ∧ before.Orderly fun m => Owns m.source := by
    apply store_induct (P := fun s => s.Kept ∧ s.Orderly fun m => Owns m.source)
    · exact fun s log hs => ⟨⟨hs.1.counted, hs.1.obtained_perm⟩, hs.2.sound, hs.2.owns⟩
    · exact fun r s hs =>
        ⟨hs.1.allocate r, hs.2.allocate (Metered.unordered hsource).toExclusive r⟩
    · exact fun s hs => ⟨hs.1.rewind, hs.2.rewind (Metered.unordered hsource).toExclusive⟩
    · exact ⟨⟨Arena.counted_emptied (.ofBlockSize blockSize), .nil⟩,
        Arena.sound_emptied (.ofBlockSize blockSize), hnew⟩
  have hstart := Store.racing_start hkept.1 hkept.2 hsource requests
  exact (hstart.run hsource schedule).consistent hsource

/-- Two callers find no room at once and both obtain a chunk; the second comes too late with it. -/
theorem race_of_two_stays_consistent :
    let requests : List (List Request) := [[⟨8, 1⟩], [⟨8, 1⟩]]
    let turns := [0, 1, 0, 1, 0, 1, 0, 1, 0, 0, 0, 0, 1, 1, 1, 1]
    let before := (Workspace.runCommands ([] : List (Command Value)) (.ofArena (.ofBlockSize 64)
      ({ source := {} } : Metered LinearHeap))).store
    let race := Schedule.run Caller.turn turns (requests.map fun todo => { todo }) before
    LinearHeap.Below {} [] ∧ race.2.source.returned.length = 1 ∧
      (∀ c ∈ race.1, c.current = none ∧ c.granted.length = 1) ∧
        race.2.Consistent before.arena.grants race.1 := by
  intro requests turns before race
  have hnew : LinearHeap.Below {} [] := fun _ h => nomatch h
  refine ⟨hnew, by decide +kernel, by decide +kernel, ?_⟩
  exact races_for_memory_stay_consistent LinearHeap.unordered hnew 64 [] requests turns

end GrowArena

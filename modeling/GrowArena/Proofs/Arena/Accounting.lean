import GrowArena.Proofs.Arena.Ranges
import Mathlib.Algebra.Ring.Nat

/-!
The books of an arena. What is used is the sum of the ranges handed out, what is allocated the sum
of the chunks, and the padding is what lies between the two: it moves cursors without being used. A
`Metered` source notes what it hands out and takes back, so that the books can be compared with it.
-/

namespace GrowArena

/-- Any source, with a note of all slabs that it ever handed out and took back, newest first. -/
structure Metered (τ : Type) where
  source : τ
  obtained : List Slab := []
  returned : List Slab := []

instance {τ : Type} [SlabSource τ] : SlabSource (Metered τ) where
  acquire m bytes :=
    match SlabSource.acquire m.source bytes with
    | some (start, source) =>
        some (start, { m with source, obtained := ⟨start, bytes⟩ :: m.obtained })
    | none => none
  release m slab :=
    { m with source := SlabSource.release m.source slab, returned := slab :: m.returned }

namespace Metered

variable {τ : Type} [SlabSource τ]

theorem obtained_of_acquire {m m' : Metered τ} {bytes start : Nat}
    (h : SlabSource.acquire m bytes = some (start, m')) :
    m'.obtained = ⟨start, bytes⟩ :: m.obtained ∧ m'.returned = m.returned := by
  simp only [SlabSource.acquire] at h
  split at h
  · obtain ⟨rfl, rfl⟩ : _ = start ∧ _ = m' := by simpa using h
    exact ⟨rfl, rfl⟩
  · simp at h

/-- To note what a source does changes nothing about what it owns. -/
theorem unordered {Owns : τ → List Slab → Prop} (h : SlabSource.Unordered Owns) :
    SlabSource.Unordered fun m : Metered τ => Owns m.source where
  acquire := by
    intro m m' out bytes start howns hacquire
    simp only [SlabSource.acquire] at hacquire
    split at hacquire
    · rename_i source hsource
      obtain ⟨rfl, rfl⟩ : _ = start ∧ _ = m' := by simpa using hacquire
      exact h.acquire howns hsource
    · simp at hacquire
  release howns := h.release howns
  perm hperm howns := h.perm hperm howns

theorem release_chunks (chunks : List Chunk) (m : Metered τ) :
    let m' := chunks.foldr (fun c source => SlabSource.release source c.slab) m
    m'.obtained = m.obtained ∧ m'.returned = chunks.map Chunk.slab ++ m.returned := by
  induction chunks with
  | nil => exact ⟨rfl, rfl⟩
  | cons c chunks ih => exact ⟨ih.1, congrArg (c.slab :: ·) ih.2⟩

end Metered

def slabBytes (slabs : List Slab) : Nat := (slabs.map Slab.bytes).sum

namespace Arena

/-- Used and allocated are sums over ranges and chunks, and the cursors cover what is used. -/
structure Counted (a : Arena) : Prop where
  used_eq : a.used = (a.grants.map (·.request.bytes)).sum
  allocated_eq : a.allocated = (a.chunks.toList.map Chunk.bytes).sum
  used_le : a.used ≤ (a.chunks.toList.map Chunk.cursor).sum
  cursor_le : a.CursorsWithin

theorem counted_emptied (a : Arena) : a.emptied.Counted where
  used_eq := rfl
  allocated_eq := rfl
  used_le := Nat.le_refl _
  cursor_le c hc := by cases hc

theorem Counted.takeAt {a : Arena} (h : a.Counted) {i : Nat} {r : Request} {p : Placement}
    (hoffer : a.Offers i r p) : (a.takeAt i p r).Counted := by
  obtain ⟨before, c, after, hchunks, hc, htaken⟩ := exists_of_offers hoffer
  obtain ⟨hstart, hstop, -⟩ := Chunk.bounds_of_place? hc
  constructor
  · simp [Arena.takeAt, moveCursor, credit, h.used_eq, Nat.add_comm]
  · have hsum := h.allocated_eq
    rw [hchunks] at hsum
    rw [htaken]
    simpa [Arena.takeAt, moveCursor, credit, Chunk.bytes] using hsum
  · rw [htaken]
    have hused := h.used_le
    rw [hchunks] at hused
    simp only [List.map_append, List.map_cons, List.sum_append, List.sum_cons] at hused ⊢
    simp only [Arena.takeAt, moveCursor, credit]
    omega
  · exact h.cursor_le.takeAt hoffer

theorem Counted.extended {a : Arena} (h : a.Counted) {c : Chunk} (hcursor : c.cursor = 0) :
    (a.extended c).Counted := by
  constructor
  · exact h.used_eq
  · simp [h.allocated_eq]
  · simpa [hcursor] using h.used_le
  · exact h.cursor_le.extended hcursor

/-- The cursors leave room in the chunks for their headers. -/
theorem CursorsWithin.sum_cursor_add_headers_le {a : Arena} (h : a.CursorsWithin) :
    (a.chunks.toList.map Chunk.cursor).sum + Chunk.header * a.chunks.size ≤
      (a.chunks.toList.map Chunk.bytes).sum := by
  rw [CursorsWithin] at h
  rw [← Array.length_toList]
  generalize a.chunks.toList = chunks at h ⊢
  induction chunks with
  | nil => exact Nat.le_refl _
  | cons c chunks ih =>
      have hc := h c List.mem_cons_self
      have hrest := ih fun d hd => h d (List.mem_cons_of_mem _ hd)
      simp only [List.map_cons, List.sum_cons, List.length_cons, Chunk.bytes, Nat.mul_add]
        at hrest ⊢
      omega

/-- What is used fits into the chunks beside their headers. -/
theorem Counted.used_add_headers_le {a : Arena} (h : a.Counted) :
    a.used + Chunk.header * a.chunks.size ≤ a.allocated := by
  rw [h.allocated_eq]
  exact Nat.le_trans (Nat.add_le_add_right h.used_le _) h.cursor_le.sum_cursor_add_headers_le

end Arena

namespace Store

variable {τ : Type} [SlabSource τ]

/-- The books are right, and the slabs of the chunks are those that are still to be given back. -/
structure Kept (s : Store (Metered τ)) : Prop where
  counted : s.arena.Counted
  obtained_perm :
    s.source.obtained.Perm (s.arena.chunks.toList.map Chunk.slab ++ s.source.returned)

/-- A successful allocation adds its range and its bytes to the arena, and a failed one leaves the
arena as it is. -/
def Charges {σ : Type} [SlabSource σ] (r : Request) (s : Store σ) : Prop :=
  match allocate r s with
  | .ok address s' =>
      s'.arena.used = s.arena.used + r.bytes ∧ s'.arena.grants = ⟨address, r⟩ :: s.arena.grants
  | .error _ s' => s'.arena = s.arena

theorem charges {σ : Type} [SlabSource σ] (r : Request) (s : Store σ) : s.Charges r := by
  have h := allocation_allocate r s
  rw [Charges]
  generalize allocate r s = result at h ⊢
  cases h <;> first | rfl | exact ⟨rfl, rfl⟩

theorem counted_allocate {σ : Type} [SlabSource σ] {s : Store σ} (hs : s.arena.Counted)
    (r : Request) : (finalState (allocate r s)).arena.Counted := by
  have h := allocation_allocate r s
  generalize allocate r s = result at h ⊢
  cases h with
  | unaligned | excessive | refused => exact hs
  | served _ hplace => exact hs.takeAt (Arena.offers_of_place? hplace)
  | @extended start _ _ _ _ _ _ hplace =>
      have hextended : (s.arena.extended (r.chunk s.arena.blockSize start)).Counted :=
        hs.extended rfl
      exact hextended.takeAt (Arena.offers_of_place? hplace)

theorem Kept.allocate {s : Store (Metered τ)} (hs : s.Kept) (r : Request) :
    (finalState (allocate r s)).Kept := by
  refine ⟨counted_allocate hs.counted r, ?_⟩
  have h := allocation_allocate r s
  generalize Store.allocate r s = result at h ⊢
  cases h with
  | unaligned | excessive | refused => exact hs.obtained_perm
  | served halign hplace =>
      have hperm := hs.obtained_perm
      rw [← slab_take hplace] at hperm
      exact hperm
  | @extended start source p halign hnone hoverflow hacquire hplace =>
      obtain ⟨hobtained, hreturned⟩ := Metered.obtained_of_acquire hacquire
      simp only [finalState]
      rw [slab_take hplace, hobtained, hreturned, Arena.toList_chunks_extended, List.map_append,
        List.append_assoc]
      exact (hs.obtained_perm.cons _).trans List.perm_middle.symm

/-- Rewinding returns the slabs of all chunks, and each once. -/
theorem returned_rewind (s : Store (Metered τ)) :
    s.rewind.source.obtained = s.source.obtained ∧
      s.rewind.source.returned = s.arena.chunks.toList.map Chunk.slab ++ s.source.returned := by
  have hrelease := Metered.release_chunks s.arena.chunks.toList s.source
  rw [Array.foldr_toList] at hrelease
  exact hrelease

theorem Kept.rewind {s : Store (Metered τ)} (hs : s.Kept) : s.rewind.Kept where
  counted := Arena.counted_emptied s.arena
  obtained_perm := by
    obtain ⟨hobtained, hreturned⟩ := returned_rewind s
    rw [hobtained, hreturned]
    exact hs.obtained_perm

/-- The counters are right to the byte, by the ranges that allocations have returned since the arena
was last empty, and agree with what the source has out. -/
structure Balanced (s : Store (Metered τ)) (ranges : List Grant) : Prop where
  traced : s.Traced ranges
  used_eq : s.arena.used = (ranges.map (·.request.bytes)).sum
  charges : ∀ r, s.Charges r
  allocated_eq : s.arena.allocated =
    (s.arena.chunks.toList.map fun c => Chunk.header + c.capacity).sum
  obtained_eq :
    slabBytes s.source.obtained = slabBytes s.source.returned + s.arena.allocated
  used_le : s.arena.used + Chunk.header * s.arena.chunks.size ≤ s.arena.allocated

/-- One store is the other after its memory was given back: every slab that was out once, as it was
obtained. Giving back again changes nothing. -/
structure Cleared (s s' : Store (Metered τ)) : Prop where
  returned_eq :
    s'.source.returned = s.arena.chunks.toList.map Chunk.slab ++ s.source.returned
  obtained_eq : s'.source.obtained = s.source.obtained
  obtained_perm : s'.source.obtained.Perm s'.source.returned
  arena_eq : s'.arena = { blockSize := s.arena.blockSize }
  rewind_eq : s'.rewind = s'

theorem Kept.balanced {s : Store (Metered τ)} (hs : s.Kept) {ranges : List Grant}
    (htraced : s.Traced ranges) : s.Balanced ranges where
  traced := htraced
  used_eq := by
    rw [hs.counted.used_eq, htraced.grants_eq, List.map_reverse, List.sum_reverse]
  charges r := s.charges r
  allocated_eq := hs.counted.allocated_eq
  obtained_eq := by
    have hsum := (hs.obtained_perm.map Slab.bytes).sum_nat
    rw [List.map_append, List.sum_append, List.map_map] at hsum
    rw [hs.counted.allocated_eq, Nat.add_comm]
    exact hsum
  used_le := hs.counted.used_add_headers_le

theorem Kept.cleared {s : Store (Metered τ)} (hs : s.Kept) : s.Cleared s.rewind := by
  obtain ⟨hobtained, hreturned⟩ := returned_rewind s
  exact ⟨hreturned, hobtained, hs.rewind.obtained_perm, rfl, rfl⟩

end Store

end GrowArena

import GrowArena.Arena.Resident

/-!
What one allocation does. It is turned down and changes no more than the log, or it is served from
the head, or it is served from a chunk that was obtained for it and is the head from then on; in
particular the loop of `Store.serve` goes round at most twice.
-/

namespace GrowArena

variable {σ : Type} [SlabSource σ]

/-- The chunk that is made for the request when its slab begins at `start`. -/
def Request.chunk (r : Request) (blockSize start : Nat) : Chunk where
  start := start
  capacity := r.chunkCapacity blockSize

namespace Arena

/-- The arena once a chunk is obtained and installed. -/
def extended (a : Arena) (c : Chunk) : Arena :=
  { a.install c with allocated := a.allocated + c.bytes }

@[simp]
theorem toList_chunks_extended (a : Arena) (c : Chunk) :
    (a.extended c).chunks.toList = a.chunks.toList ++ [c] :=
  Array.toList_push ..

@[simp]
theorem used_extended (a : Arena) (c : Chunk) : (a.extended c).used = a.used := rfl

@[simp]
theorem allocated_extended (a : Arena) (c : Chunk) :
    (a.extended c).allocated = a.allocated + c.bytes := rfl

@[simp]
theorem used_take (a : Arena) (p : Placement) (r : Request) :
    (a.take p r).used = a.used + r.bytes := rfl

@[simp]
theorem allocated_take (a : Arena) (p : Placement) (r : Request) :
    (a.take p r).allocated = a.allocated := rfl

@[simp]
theorem grants_take (a : Arena) (p : Placement) (r : Request) :
    (a.take p r).grants = ⟨p.address, r⟩ :: a.grants := rfl

end Arena

namespace Store

/-- The outcomes of an allocation. -/
inductive Allocation (r : Request) (s : Store σ) : EStateM.Result Fault (Store σ) Nat → Prop
  | unaligned (halign : r.alignment = 0) : Allocation r s (.error (.invalidAlignment 0) s)
  | served {p : Placement} (halign : r.alignment ≠ 0) (hplace : s.arena.place? r = some p) :
      Allocation r s (.ok p.address (s.update (·.take p r)))
  | excessive {fault : Fault} (halign : r.alignment ≠ 0) (hnone : s.arena.place? r = none)
      (hoverflow : r.overflow? s.arena.blockSize = some fault) : Allocation r s (.error fault s)
  | refused (halign : r.alignment ≠ 0) (hnone : s.arena.place? r = none)
      (hoverflow : r.overflow? s.arena.blockSize = none)
      (hacquire : SlabSource.acquire s.source (r.chunk s.arena.blockSize 0).bytes = none) :
      Allocation r s
        (.error (.outOfMemory r.bytes r.alignment s.arena.used s.arena.allocated)
          (s.record (.chunkRefused r.bytes (r.chunk s.arena.blockSize 0).bytes)))
  | extended {start : Nat} {source : σ} {p : Placement} (halign : r.alignment ≠ 0)
      (hnone : s.arena.place? r = none) (hoverflow : r.overflow? s.arena.blockSize = none)
      (hacquire : SlabSource.acquire s.source (r.chunk s.arena.blockSize start).bytes =
        some (start, source))
      (hplace : (s.arena.extended (r.chunk s.arena.blockSize start)).place? r = some p) :
      Allocation r s
        (.ok p.address
          { source
            arena := (s.arena.extended (r.chunk s.arena.blockSize start)).take p r
            log := s.log.push (.chunkInstalled (r.chunk s.arena.blockSize start).bytes) })

theorem serve_of_some {r : Request} {s : Store σ} {p : Placement}
    (h : s.arena.place? r = some p) : serve r s = .ok p.address (s.update (·.take p r)) := by
  rw [serve]
  split
  · simp_all
  · simp_all

theorem serve_of_none {r : Request} {s : Store σ} (h : s.arena.place? r = none) :
    serve r s = match extend r s with
      | .ok _ s' => serve r s'
      | .error fault s' => .error fault s' := by
  rw [serve]
  split
  · simp_all
  · split <;> rename_i heq <;> rw [heq]

/-- Without other callers, an obtained chunk is always installed. -/
theorem extend_of_acquire {r : Request} {s : Store σ} {start : Nat} {source : σ}
    (hoverflow : r.overflow? s.arena.blockSize = none)
    (hacquire : SlabSource.acquire s.source (r.chunk s.arena.blockSize start).bytes =
      some (start, source)) :
    extend r s = .ok ()
      { source
        arena := s.arena.extended (r.chunk s.arena.blockSize start)
        log := s.log.push (.chunkInstalled (r.chunk s.arena.blockSize start).bytes) } := by
  have hobtain : obtain r s = .ok (r.chunk s.arena.blockSize start)
      { s with
        source
        arena := { s.arena with
          allocated := s.arena.allocated + (r.chunk s.arena.blockSize start).bytes } } := by
    simp only [obtain, hoverflow]
    simp only [Chunk.bytes, Request.chunk] at hacquire ⊢
    rw [hacquire]
  simp only [extend, hobtain, settle, if_true]
  rfl

theorem allocation_allocate (r : Request) (s : Store σ) : Allocation r s (allocate r s) := by
  unfold allocate
  split
  · rename_i halign
    exact .unaligned halign
  rename_i halign
  cases hplace : s.arena.place? r with
  | some p =>
      rw [serve_of_some hplace]
      exact .served halign hplace
  | none =>
      rw [serve_of_none hplace]
      cases hoverflow : r.overflow? s.arena.blockSize with
      | some fault =>
          have hextend : extend r s = .error fault s := by
            simp only [extend, obtain, hoverflow]
          rw [hextend]
          exact .excessive halign hplace hoverflow
      | none =>
          cases hacquire :
              SlabSource.acquire s.source (r.chunk s.arena.blockSize 0).bytes with
          | none =>
              have hextend : extend r s =
                  .error (.outOfMemory r.bytes r.alignment s.arena.used s.arena.allocated)
                    (s.record (.chunkRefused r.bytes (r.chunk s.arena.blockSize 0).bytes)) := by
                simp only [extend, obtain, hoverflow]
                simp only [Chunk.bytes, Request.chunk] at hacquire ⊢
                rw [hacquire]
              rw [hextend]
              exact .refused halign hplace hoverflow hacquire
          | some found =>
              obtain ⟨start, source⟩ := found
              have hchunk : SlabSource.acquire s.source (r.chunk s.arena.blockSize start).bytes =
                  some (start, source) := hacquire
              have hextend := extend_of_acquire hoverflow hchunk
              obtain ⟨p, hnext⟩ := Option.isSome_iff_exists.mp (place?_of_extend hextend)
              rw [hextend]
              dsimp only
              rw [serve_of_some hnext]
              exact .extended halign hplace hoverflow hchunk hnext

end Store

end GrowArena

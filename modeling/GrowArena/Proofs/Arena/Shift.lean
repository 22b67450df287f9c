import GrowArena.Proofs.Arena.Allocation
import GrowArena.Proofs.Arena.Parts
import GrowArena.Proofs.Paired
import GrowArena.Proofs.Tandem

/-!
Two arenas that are the same but for their addresses, which differ by one and the same distance. As
long as the distance is a multiple of the alignments asked for, no request tells them apart: it
costs the same padding in both, so both serve it, obtain a chunk for it or turn it down. Their heaps
stay as far apart as long as the distance is a multiple of the grain to which slabs are aligned.
-/

namespace GrowArena

open List

variable {d : Int}

/-- The second address lies `d` further on than the first. -/
def Shift (d : Int) (address address' : Nat) : Prop := (address' : Int) = address + d

namespace Shift

variable {address address' : Nat}

theorem add (h : Shift d address address') (bytes : Nat) :
    Shift d (address + bytes) (address' + bytes) := by
  unfold Shift at h ⊢
  omega

theorem mod_eq (h : Shift d address address') {alignment : Nat} (hd : (alignment : Int) ∣ d) :
    address' % alignment = address % alignment := by
  obtain ⟨k, rfl⟩ := hd
  have hmod : ((address' % alignment : Nat) : Int) = (address % alignment : Nat) := by
    rw [Int.natCast_emod, Int.natCast_emod, h, Int.add_mul_emod_self_left]
  exact_mod_cast hmod

theorem padding_eq (h : Shift d address address') {alignment : Nat} (hd : (alignment : Int) ∣ d) :
    padding address' alignment = padding address alignment := by
  simp only [padding, h.mod_eq hd]

end Shift

/-- The same request at addresses that differ by `d`, a multiple of its alignment. -/
structure Grant.Shifted (d : Int) (g g' : Grant) : Prop where
  address : Shift d g.address g'.address
  request_eq : g'.request = g.request
  alignment_dvd : (g.request.alignment : Int) ∣ d

structure Placement.Shifted (d : Int) (p p' : Placement) : Prop where
  address : Shift d p.address p'.address
  cursor_eq : p'.cursor = p.cursor

structure Chunk.Shifted (d : Int) (c c' : Chunk) : Prop where
  start : Shift d c.start c'.start
  capacity_eq : c'.capacity = c.capacity
  cursor_eq : c'.cursor = c.cursor

/-- The same chunks and grants but for their addresses, and the same counters. -/
structure Arena.Shifted (d : Int) (a a' : Arena) : Prop where
  blockSize_eq : a'.blockSize = a.blockSize
  chunks : Forall₂ (Chunk.Shifted d) a.chunks.toList a'.chunks.toList
  used_eq : a'.used = a.used
  allocated_eq : a'.allocated = a.allocated
  grants : Forall₂ (Grant.Shifted d) a.grants a'.grants

/-- As many bytes out under the same limit. The next slabs lie `d` apart, and so will all others,
for `d` is a multiple of the grain. -/
structure LinearHeap.Shifted (d : Int) (h h' : LinearHeap) : Prop where
  grain_dvd : (grain : Int) ∣ d
  next : Shift d (roundUp h.cursor) (roundUp h'.cursor)
  live_eq : h'.live = h.live
  limit_eq : h'.limit = h.limit

structure Store.Shifted (d : Int) (s s' : Store LinearHeap) : Prop where
  source : s.source.Shifted d s'.source
  arena : s.arena.Shifted d s'.arena
  log_eq : s'.log = s.log

namespace Chunk.Shifted

variable {c c' : Chunk}

theorem bytes_eq (h : c.Shifted d c') : c'.bytes = c.bytes := by
  rw [Chunk.bytes, Chunk.bytes, h.capacity_eq]

theorem moved (h : c.Shifted d c') (cursor : Nat) :
    Shifted d { c with cursor } { c' with cursor } :=
  ⟨h.start, h.capacity_eq, rfl⟩

theorem offset_eq (h : c.Shifted d c') {alignment : Nat} (hd : (alignment : Int) ∣ d) :
    c'.offset alignment = c.offset alignment := by
  have hpadding := ((h.start.add header).add c.cursor).padding_eq hd
  simp only [offset, data, h.cursor_eq, hpadding]

theorem place? (h : c.Shifted d c') {r : Request} (hd : (r.alignment : Int) ∣ d) :
    Option.Rel (Placement.Shifted d) (c.place? r) (c'.place? r) := by
  have hpadding := ((h.start.add header).add c.cursor).padding_eq hd
  have hstop : c'.stop? r = c.stop? r := by
    simp only [stop?, data, h.cursor_eq, hpadding]
  simp only [Chunk.place?, hstop, h.capacity_eq]
  cases c.stop? r with
  | none => exact .none
  | some stop =>
      dsimp only
      split
      · refine .some ⟨?_, rfl⟩
        rw [h.offset_eq hd]
        exact (h.start.add header).add (c.offset r.alignment)
      · exact .none

end Chunk.Shifted

namespace Arena.Shifted

variable {a a' : Arena}

theorem size_eq (h : a.Shifted d a') : a'.chunks.size = a.chunks.size :=
  h.chunks.length_eq.symm

theorem shape_eq (h : a.Shifted d a') : a'.shape = a.shape := by
  simp only [shape, h.blockSize_eq, h.used_eq, h.allocated_eq, h.size_eq]

theorem chunk? (h : a.Shifted d a') (i : Nat) :
    Option.Rel (Chunk.Shifted d) a.chunks[i]? a'.chunks[i]? := by
  simpa only [Array.getElem?_toList] using rel_getElem? h.chunks i

theorem place? (h : a.Shifted d a') {r : Request} (hd : (r.alignment : Int) ∣ d) :
    Option.Rel (Placement.Shifted d) (a.place? r) (a'.place? r) := by
  have hhead := h.chunk? (a.chunks.size - 1)
  simp only [Arena.place?, head?, Array.back?_eq_getElem?, h.size_eq]
  generalize a.chunks[a.chunks.size - 1]? = c?, a'.chunks[a.chunks.size - 1]? = c'? at hhead
  cases hhead with
  | none => exact .none
  | some hc => exact hc.place? hd

theorem moveCursor (h : a.Shifted d a') (i cursor : Nat) :
    (a.moveCursor i cursor).Shifted d (a'.moveCursor i cursor) := by
  refine ⟨h.blockSize_eq, ?_, h.used_eq, h.allocated_eq, h.grants⟩
  simp only [Arena.moveCursor, Array.toList_modify]
  exact forall₂_modify h.chunks (fun _ _ hc => hc.moved cursor) i

theorem credit (h : a.Shifted d a') {g g' : Grant} (hg : g.Shifted d g') :
    (a.credit g).Shifted d (a'.credit g') := by
  refine ⟨h.blockSize_eq, h.chunks, ?_, h.allocated_eq, .cons hg h.grants⟩
  rw [Arena.credit, Arena.credit, hg.request_eq, h.used_eq]

theorem take (h : a.Shifted d a') {p p' : Placement} (hp : p.Shifted d p') {r : Request}
    (hd : (r.alignment : Int) ∣ d) : (a.take p r).Shifted d (a'.take p' r) := by
  rw [Arena.take, Arena.take, h.size_eq, hp.cursor_eq]
  exact (h.moveCursor _ _).credit ⟨hp.address, rfl, hd⟩

theorem install (h : a.Shifted d a') {c c' : Chunk} (hc : c.Shifted d c') :
    (a.install c).Shifted d (a'.install c') := by
  refine ⟨h.blockSize_eq, ?_, h.used_eq, h.allocated_eq, h.grants⟩
  simp only [Arena.install, Array.toList_push]
  exact forall₂_concat h.chunks hc

end Arena.Shifted

namespace LinearHeap.Shifted

variable {h h' : LinearHeap}

theorem release (hh : h.Shifted d h') {slab slab' : Slab} (hbytes : slab'.bytes = slab.bytes) :
    Shifted d (SlabSource.release h slab) (SlabSource.release h' slab') := by
  refine ⟨hh.grain_dvd, hh.next, ?_, hh.limit_eq⟩
  simp only [SlabSource.release, LinearHeap.release, hh.live_eq, hbytes]

/-- Rounding the end of a slab up moves it no further than the slab itself was moved. -/
theorem acquire (hh : h.Shifted d h') (bytes : Nat) :
    Option.Rel (fun x x' => Shift d x.1 x'.1 ∧ Shifted d x.2 x'.2)
      (SlabSource.acquire h bytes) (SlabSource.acquire h' bytes) := by
  simp only [SlabSource.acquire, LinearHeap.acquire, hh.live_eq, hh.limit_eq]
  split
  · refine .some ⟨hh.next, ⟨hh.grain_dvd, ?_, rfl, rfl⟩⟩
    have hdvd := hh.grain_dvd
    have hnext := hh.next
    simp only [Shift, roundUp, grain] at hdvd hnext ⊢
    omega
  · exact .none

end LinearHeap.Shifted

namespace Store

variable {s s' : Store LinearHeap}

namespace Shifted

theorem record (h : s.Shifted d s') (e : Event) : (s.record e).Shifted d (s'.record e) :=
  ⟨h.source, h.arena, congrArg (Array.push · e) h.log_eq⟩

theorem update (h : s.Shifted d s') {f f' : Arena → Arena}
    (hf : (f s.arena).Shifted d (f' s'.arena)) : (s.update f).Shifted d (s'.update f') :=
  ⟨h.source, hf, h.log_eq⟩

/-- The chunks that are given back take the same bytes in both. -/
theorem rewind (h : s.Shifted d s') : s.rewind.Shifted d s'.rewind := by
  have hreleased : LinearHeap.Shifted d
      (s.arena.chunks.toList.foldr (fun c heap => SlabSource.release heap c.slab) s.source)
      (s'.arena.chunks.toList.foldr (fun c heap => SlabSource.release heap c.slab) s'.source) :=
    rel_foldr (fun _ _ hc _ _ hheap => hheap.release hc.bytes_eq) h.source h.arena.chunks
  refine ⟨?_, ⟨h.arena.blockSize_eq, .nil, rfl, rfl, .nil⟩, ?_⟩
  · simpa only [Store.rewind, Array.foldr_toList] using hreleased
  · have hempty : s'.arena.chunks.isEmpty = s.arena.chunks.isEmpty := by
      simp only [Array.isEmpty, h.arena.size_eq]
    simp only [Store.rewind, hempty, h.arena.size_eq, h.arena.used_eq, h.arena.allocated_eq,
      h.log_eq]

theorem obtain (h : s.Shifted d s') (r : Request) :
    Tandem (Shifted d) (Chunk.Shifted d) (obtain r s) (obtain r s') := by
  have hacquire := h.source.acquire (Chunk.header + r.chunkCapacity s.arena.blockSize)
  simp only [Store.obtain, h.arena.blockSize_eq, h.arena.used_eq, h.arena.allocated_eq]
  cases r.overflow? s.arena.blockSize with
  | some fault => exact .error h
  | none =>
      dsimp only
      generalize SlabSource.acquire s.source _ = found, SlabSource.acquire s'.source _ = found'
        at hacquire
      cases hacquire with
      | none => exact .error (h.record _)
      | some hfound =>
          exact .ok ⟨hfound.1, rfl, rfl⟩
            ⟨hfound.2, ⟨rfl, h.arena.chunks, rfl, rfl, h.arena.grants⟩, h.log_eq⟩

theorem settle (h : s.Shifted d s') {c c' : Chunk} (hc : c.Shifted d c') (observed : Nat) :
    (settle observed c s).Shifted d (settle observed c' s') := by
  simp only [Store.settle, h.arena.size_eq]
  split
  · rw [hc.bytes_eq]
    exact (h.update (h.arena.install hc)).record _
  · refine ⟨h.source.release hc.bytes_eq, ?_, h.log_eq⟩
    refine ⟨h.arena.blockSize_eq, h.arena.chunks, h.arena.used_eq, ?_, h.arena.grants⟩
    rw [h.arena.allocated_eq, hc.bytes_eq]

theorem extend (h : s.Shifted d s') (r : Request) :
    Tandem (Shifted d) Eq (extend r s) (extend r s') := by
  have hobtained := h.obtain r
  simp only [Store.extend, h.arena.size_eq]
  generalize Store.obtain r s = result, Store.obtain r s' = result' at hobtained
  cases hobtained with
  | ok hc hs => exact .ok rfl (hs.settle hc _)
  | error hs => exact .error hs

theorem served (h : s.Shifted d s') {r : Request} (hr : (r.alignment : Int) ∣ d)
    (hplace : (s.arena.place? r).isSome) :
    Tandem (Shifted d) (Shift d) (serve r s) (serve r s') := by
  have hplaced := h.arena.place? hr
  generalize hp : s.arena.place? r = p?, hp' : s'.arena.place? r = p'? at hplaced hplace
  cases hplaced with
  | none => cases hplace
  | some hshift =>
      rw [serve_of_some hp, serve_of_some hp']
      exact .ok hshift.address (h.update (h.arena.take hshift hr))

theorem serve (h : s.Shifted d s') {r : Request} (hr : (r.alignment : Int) ∣ d) :
    Tandem (Shifted d) (Shift d) (serve r s) (serve r s') := by
  by_cases hplace : (s.arena.place? r).isSome
  · exact h.served hr hplace
  have hplaced := h.arena.place? hr
  generalize hp : s.arena.place? r = p?, hp' : s'.arena.place? r = p'? at hplaced hplace
  cases hplaced with
  | some => exact absurd rfl hplace
  | none =>
      have hextended := h.extend r
      rw [serve_of_none hp, serve_of_none hp']
      generalize hfirst : Store.extend r s = result, Store.extend r s' = result' at hextended
      cases hextended with
      -- No third look is needed: the chunk that a request brings has room for it.
      | ok _ hs => exact hs.served hr (place?_of_extend hfirst)
      | error hs => exact .error hs

/-- An allocation has the same outcome in both but for the address. -/
theorem allocate (h : s.Shifted d s') {r : Request} (hr : (r.alignment : Int) ∣ d) :
    Tandem (Shifted d) (Shift d) (allocate r s) (allocate r s') := by
  unfold Store.allocate
  split
  · exact .error h
  · exact h.serve hr

theorem allocateAll (h : s.Shifted d s') {rs : List Request}
    (hrs : ∀ r ∈ rs, (r.alignment : Int) ∣ d) :
    Tandem (Shifted d) Eq (allocateAll rs s) (allocateAll rs s') := by
  induction rs generalizing s s' with
  | nil => exact .ok rfl h
  | cons r rs ih =>
      obtain ⟨hr, hrest⟩ := List.forall_mem_cons.mp hrs
      refine (h.allocate hr).bind ?_
      intro _ _ s₁ s₁' _ hs
      exact ih hs hrest

end Shifted

end Store

end GrowArena

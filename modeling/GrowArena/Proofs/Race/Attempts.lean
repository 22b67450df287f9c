import GrowArena.Proofs.Arena.Accounting
import GrowArena.Race.Allocate

/-!
Requests on their way, step by step. A chunk counts as allocated before it is in the chain, and may
go back without ever having been there; bytes are behind the cursor of their chunk before they count
as used. So the books of an arena are off by what the attempts hold. `Store.Underway` has the books
with everything that is held, and every step of an attempt keeps them.
-/

namespace GrowArena

variable {σ τ : Type} [SlabSource σ]

namespace Arena

theorem Advances.of_chunks_eq {a a' : Arena} (h : a'.chunks = a.chunks) : a.Advances a' :=
  fun _ c hc => ⟨c.cursor, Nat.le_refl _, h ▸ hc⟩

theorem advances_moveCursor {a : Arena} {i : Nat} {r : Request} {p : Placement}
    (hoffer : a.Offers i r p) : a.Advances (a.moveCursor i p.cursor) :=
  (advances_takeAt hoffer).trans (.of_chunks_eq rfl)

theorem slab_moveCursor {a : Arena} {i : Nat} {r : Request} {p : Placement}
    (hoffer : a.Offers i r p) :
    (a.moveCursor i p.cursor).chunks.toList.map Chunk.slab = a.chunks.toList.map Chunk.slab :=
  slab_takeAt hoffer

end Arena

namespace Attempt

/-- The chunk that was obtained and is neither installed nor given back. -/
def held : Attempt → List Chunk
  | holding _ chunk => [chunk]
  | _ => []

/-- The range that was taken and does not count as used. -/
def uncounted (r : Request) : Attempt → List Grant
  | counting address => [⟨address, r⟩]
  | _ => []

def gained (r : Request) : Attempt → List Grant
  | done (.ok address) => [⟨address, r⟩]
  | _ => []

theorem gained_of_going {t : Attempt} (h : ∀ outcome, t ≠ done outcome) (r : Request) :
    t.gained r = [] := by
  cases t with
  | done outcome => exact absurd rfl (h outcome)
  | _ => rfl

/-- What was found out on the way here. It stays true when others go on, even if it is not of use
any more: a place was free while the cursor of the chunk stood where it was seen. -/
def Fits (r : Request) (a : Arena) : Attempt → Prop
  | facing _ => r.alignment ≠ 0
  | placing chunk cursor place =>
      r.alignment ≠ 0 ∧ ∃ c, a.chunks[chunk]? = some c ∧ { c with cursor }.place? r = some place
  | holding _ chunk => chunk.cursor = 0
  | done _ => False
  | looking | lacking _ | counting _ => True

theorem Fits.of_advances {r : Request} {a a' : Arena} {t : Attempt} (h : t.Fits r a)
    (hadvances : a.Advances a') : t.Fits r a' := by
  cases t with
  | placing chunk cursor place =>
      obtain ⟨halign, c, hc, hplace⟩ := h
      obtain ⟨later, -, hlater⟩ := hadvances chunk c hc
      exact ⟨halign, _, hlater, hplace⟩
  | looking | facing | lacking | holding | counting | done => exact h

inductive Moves (r : Request) (s : Store σ) : Attempt → Attempt → Store σ → Prop
  | looked {t t' : Attempt} (hheld : t.held = t'.held) (huncounted : t.uncounted r = t'.uncounted r)
      (hfits : t'.Fits r s.arena) : Moves r s t t' s
  | failed {t : Attempt} {fault : Fault} (hheld : t.held = []) (huncounted : t.uncounted r = [])
      (log : Array Event) : Moves r s t (done (.error fault)) { s with log }
  | placed {chunk cursor : Nat} {p : Placement} (halign : r.alignment ≠ 0)
      (hoffer : s.arena.Offers chunk r p) :
      Moves r s (placing chunk cursor p) (counting p.address)
        (s.update (·.moveCursor chunk p.cursor))
  | obtained {observed : Nat} {c : Chunk} {source : σ} (hcursor : c.cursor = 0)
      (hacquire : SlabSource.acquire s.source c.bytes = some (c.start, source))
      (hbytes : c.bytes ≤ slabMax) :
      Moves r s (lacking observed) (holding observed c)
        { s with source, arena := { s.arena with allocated := s.arena.allocated + c.bytes } }
  | installed {observed : Nat} {c : Chunk} (hcursor : c.cursor = 0) :
      Moves r s (holding observed c) looking
        ((s.update (·.install c)).record (.chunkInstalled c.bytes))
  | returned {observed : Nat} {c : Chunk} (hstale : s.arena.chunks.size ≠ observed) :
      Moves r s (holding observed c) looking
        { s with
          source := SlabSource.release s.source c.slab
          arena := { s.arena with allocated := s.arena.allocated - c.bytes } }
  | counted {address : Nat} :
      Moves r s (counting address) (done (.ok address)) (s.update (·.credit ⟨address, r⟩))

theorem moves_step {r : Request} {s : Store σ} {t : Attempt} (hfits : t.Fits r s.arena) :
    Moves r s t (t.step r s).1 (t.step r s).2 := by
  cases t with
  | done outcome => exact hfits.elim
  | counting address => exact .counted
  | looking =>
      simp only [step]
      split
      · exact .failed rfl rfl s.log
      · rename_i halign
        split
        · exact .looked rfl rfl trivial
        · exact .looked rfl rfl halign
  | facing chunk =>
      simp only [step]
      split
      · exact .looked rfl rfl trivial
      · rename_i c hc
        split
        · rename_i place hplace
          exact .looked rfl rfl ⟨hfits, c, hc, hplace⟩
        · exact .looked rfl rfl trivial
  | placing chunk cursor place =>
      obtain ⟨halign, c, hc, hplace⟩ := hfits
      simp only [step, hc, Option.map_some, Option.some.injEq]
      split
      · -- The cursor stands where it stood, so the place that was seen then is there now.
        rename_i hcursor
        exact .placed halign ⟨c, hc, by rwa [← hcursor] at hplace⟩
      · exact .looked rfl rfl trivial
  | lacking observed =>
      simp only [step, Store.obtain]
      cases hoverflow : r.overflow? s.arena.blockSize with
      | some fault => exact .failed rfl rfl s.log
      | none =>
          have hbytes := Request.le_of_overflow?_eq_none hoverflow
          dsimp only
          cases hacquire :
              SlabSource.acquire s.source (Chunk.header + r.chunkCapacity s.arena.blockSize) with
          | none => exact .failed rfl rfl _
          | some found =>
              exact .obtained (c := { start := found.1, capacity := _ }) rfl hacquire hbytes
  | holding observed chunk =>
      simp only [step, Store.settle]
      split
      · exact .installed hfits
      · rename_i hstale
        exact .returned hstale

/-- After a step what was found out is true of the arena of that moment, unless this is the end. -/
theorem Moves.fits {r : Request} {s s' : Store σ} {t t' : Attempt} (h : Moves r s t t' s') :
    t'.Fits r s'.arena ∨ ∃ outcome, t' = done outcome := by
  cases h with
  | looked _ _ hfits => exact .inl hfits
  | failed | counted => exact .inr ⟨_, rfl⟩
  | placed | installed | returned => exact .inl trivial
  | obtained hcursor => exact .inl hcursor

theorem Moves.advances {r : Request} {s s' : Store σ} {t t' : Attempt} (h : Moves r s t t' s') :
    s.arena.Advances s'.arena := by
  cases h with
  | looked | failed => exact .refl _
  | placed _ hoffer => exact Arena.advances_moveCursor hoffer
  | installed => exact Arena.advances_extended s.arena _
  | obtained | returned | counted => exact .of_chunks_eq rfl

theorem Moves.grants_eq {r : Request} {s s' : Store σ} {t t' : Attempt} (h : Moves r s t t' s') :
    s'.arena.grants = t'.gained r ++ s.arena.grants := by
  cases h with
  | looked _ _ hfits =>
      rw [gained_of_going fun outcome hdone => by subst hdone; exact hfits.elim]
      rfl
  | failed | placed | obtained | installed | returned | counted => rfl

end Attempt

/-- The bytes of the slabs that are out. -/
def Metered.outstanding (m : Metered τ) : Nat := slabBytes m.obtained - slabBytes m.returned

namespace Store

/-- These slabs were obtained and not given back: they count as allocated and lie apart. -/
structure HasOut (Owns : τ → List Slab → Prop) (out : List Slab) (s : Store (Metered τ)) :
    Prop where
  allocated_eq : s.arena.allocated = slabBytes out
  obtained_perm : s.source.obtained.Perm (out ++ s.source.returned)
  apart : out.Pairwise Slab.Apart
  owns : Owns s.source.source out

namespace HasOut

variable {Owns : τ → List Slab → Prop} {out out' : List Slab} {s : Store (Metered τ)}

theorem outstanding_eq (h : s.HasOut Owns out) : s.source.outstanding = slabBytes out := by
  have hsum := (h.obtained_perm.map Slab.bytes).sum_nat
  rw [List.map_append, List.sum_append] at hsum
  simp only [Metered.outstanding, slabBytes] at hsum ⊢
  omega

variable [SlabSource τ]

theorem of_perm (hsource : SlabSource.Unordered Owns) (h : s.HasOut Owns out)
    (hout : out.Perm out') : s.HasOut Owns out' where
  allocated_eq := h.allocated_eq.trans (hout.map Slab.bytes).sum_nat
  obtained_perm := h.obtained_perm.trans (hout.append_right _)
  apart := (hout.pairwise_iff Or.symm).mp h.apart
  owns := hsource.perm hout h.owns

theorem obtained (hsource : SlabSource.Unordered Owns) (h : s.HasOut Owns out) {c : Chunk}
    {source : Metered τ}
    (hacquire : SlabSource.acquire s.source c.bytes = some (c.start, source)) :
    HasOut Owns (c.slab :: out)
      { s with source, arena := { s.arena with allocated := s.arena.allocated + c.bytes } } := by
  obtain ⟨hnew, hreturned⟩ := Metered.obtained_of_acquire hacquire
  obtain ⟨hfresh, howns⟩ := (Metered.unordered hsource).acquire h.owns hacquire
  constructor
  · simp only [h.allocated_eq]
    exact Nat.add_comm ..
  · rw [hnew, hreturned]
    exact h.obtained_perm.cons _
  · exact List.pairwise_cons.mpr ⟨fun slab hslab => (hfresh slab hslab).symm, h.apart⟩
  · exact howns

theorem returned (hsource : SlabSource.Unordered Owns) {c : Chunk}
    (h : s.HasOut Owns (c.slab :: out)) :
    HasOut Owns out
      { s with
        source := SlabSource.release s.source c.slab
        arena := { s.arena with allocated := s.arena.allocated - c.bytes } } where
  allocated_eq := by
    simp only [h.allocated_eq, slabBytes, List.map_cons, List.sum_cons]
    exact Nat.add_sub_cancel_left ..
  obtained_perm := h.obtained_perm.trans List.perm_middle.symm
  apart := h.apart.of_cons
  owns := hsource.release h.owns

end HasOut

/-- One store is the other with one more slab out, whose chunk is not in the chain. -/
structure Borrowed (c : Chunk) (s s' : Store (Metered τ)) : Prop where
  arena_eq : s'.arena = { s.arena with allocated := s.arena.allocated + c.bytes }
  outstanding_eq : s'.source.outstanding = s.source.outstanding + c.bytes
  log_eq : s'.log = s.log

namespace HasOut

variable {Owns : τ → List Slab → Prop} [SlabSource τ] {out : List Slab} {s : Store (Metered τ)}
  {c : Chunk}

theorem borrowed_obtained (hsource : SlabSource.Unordered Owns) (h : s.HasOut Owns out)
    {source : Metered τ}
    (hacquire : SlabSource.acquire s.source c.bytes = some (c.start, source)) :
    Borrowed c s
      { s with source, arena := { s.arena with allocated := s.arena.allocated + c.bytes } } where
  arena_eq := rfl
  outstanding_eq := by
    rw [(h.obtained hsource hacquire).outstanding_eq, h.outstanding_eq]
    exact Nat.add_comm ..
  log_eq := rfl

theorem borrowed_returned (hsource : SlabSource.Unordered Owns)
    (h : s.HasOut Owns (c.slab :: out)) :
    Borrowed c
      { s with
        source := SlabSource.release s.source c.slab
        arena := { s.arena with allocated := s.arena.allocated - c.bytes } } s where
  arena_eq := by
    have hle : c.bytes ≤ s.arena.allocated := by
      rw [h.allocated_eq]
      exact Nat.le_add_right ..
    simp only [Nat.sub_add_cancel hle]
  outstanding_eq := by
    rw [(h.returned hsource).outstanding_eq, h.outstanding_eq]
    exact Nat.add_comm ..
  log_eq := rfl

end HasOut

/-- The slabs of the chunks that are held, and those of the chain. -/
def out (held : List Chunk) (s : Store σ) : List Slab :=
  (held ++ s.arena.chunks.toList).map Chunk.slab

/-- The books of a store, with chunks that are held and not installed, and ranges that are taken and
not counted. Once the ranges are counted, the arena is a full one. -/
structure Underway (Owns : τ → List Slab → Prop) (held : List Chunk) (uncounted : List Grant)
    (s : Store (Metered τ)) : Prop where
  full : ∃ a : Arena, a.Sound ∧ a.Counted ∧ a.chunks = s.arena.chunks ∧
    a.grants.Perm (uncounted ++ s.arena.grants)
  used_eq : s.arena.used = (s.arena.grants.map (·.request.bytes)).sum
  hasOut : s.HasOut Owns (s.out held)

namespace Underway

variable {Owns : τ → List Slab → Prop} {held held' : List Chunk} {uncounted uncounted' : List Grant}
  {s : Store (Metered τ)} {r : Request} {c : Chunk}

theorem used_le (h : s.Underway Owns held uncounted) : s.arena.used ≤ s.arena.allocated := by
  obtain ⟨a, -, hcounted, hchunks, hgrants⟩ := h.full
  have hfull := hcounted.used_add_headers_le
  rw [hcounted.used_eq, hcounted.allocated_eq, hchunks,
    (hgrants.map (·.request.bytes)).sum_nat] at hfull
  have hbytes : (s.arena.chunks.toList.map (Slab.bytes ∘ Chunk.slab)).sum =
      (s.arena.chunks.toList.map Chunk.bytes).sum := rfl
  rw [h.used_eq, h.hasOut.allocated_eq]
  simp only [slabBytes, out, List.map_append, List.sum_append, List.map_map] at hfull ⊢
  omega

theorem placed (h : s.Underway Owns held uncounted) {i : Nat} {p : Placement}
    (halign : r.alignment ≠ 0) (hoffer : s.arena.Offers i r p) :
    (s.update (·.moveCursor i p.cursor)).Underway Owns held (⟨p.address, r⟩ :: uncounted) := by
  obtain ⟨a, hsound, hcounted, hchunks, hgrants⟩ := h.full
  have hfull : a.Offers i r p := by rwa [Arena.Offers, hchunks]
  refine ⟨⟨a.takeAt i p r, hsound.takeAt hfull halign, hcounted.takeAt hfull, ?_, ?_⟩, h.used_eq,
    ?_⟩
  · exact congrArg (fun chunks => chunks.modify i ({ · with cursor := p.cursor })) hchunks
  · exact hgrants.cons _
  · have hout : (s.update (·.moveCursor i p.cursor)).out held = s.out held := by
      simp only [out, List.map_append, update]
      rw [Arena.slab_moveCursor hoffer]
    rw [hout]
    exact ⟨h.hasOut.allocated_eq, h.hasOut.obtained_perm, h.hasOut.apart, h.hasOut.owns⟩

theorem counted {address : Nat} (h : s.Underway Owns held (⟨address, r⟩ :: uncounted)) :
    (s.update (·.credit ⟨address, r⟩)).Underway Owns held uncounted := by
  obtain ⟨a, hsound, hcounted, hchunks, hgrants⟩ := h.full
  refine ⟨⟨a, hsound, hcounted, hchunks, hgrants.trans List.perm_middle.symm⟩, ?_, ?_⟩
  · simp only [update, Arena.credit, h.used_eq, List.map_cons, List.sum_cons]
    exact Nat.add_comm ..
  · exact ⟨h.hasOut.allocated_eq, h.hasOut.obtained_perm, h.hasOut.apart, h.hasOut.owns⟩

variable [SlabSource τ]

theorem of_perm (hsource : SlabSource.Unordered Owns) (h : s.Underway Owns held uncounted)
    (hheld : held.Perm held') (huncounted : uncounted.Perm uncounted') :
    s.Underway Owns held' uncounted' := by
  obtain ⟨a, hsound, hcounted, hchunks, hgrants⟩ := h.full
  refine ⟨⟨a, hsound, hcounted, hchunks, hgrants.trans (huncounted.append_right _)⟩, h.used_eq, ?_⟩
  exact h.hasOut.of_perm hsource ((hheld.append_right _).map _)

/-- A chunk that is installed was out before, and lies apart from the others. -/
theorem installed (hsource : SlabSource.Unordered Owns) (h : s.Underway Owns (c :: held) uncounted)
    (hcursor : c.cursor = 0) (e : Event) :
    ((s.update (·.install c)).record e).Underway Owns held uncounted := by
  obtain ⟨a, hsound, hcounted, hchunks, hgrants⟩ := h.full
  have hapart : ∀ d ∈ a.chunks.toList, d.slab.Apart c.slab := by
    intro d hd
    have hmem : d.slab ∈ s.out held :=
      List.mem_map_of_mem (List.mem_append_right _ (hchunks ▸ hd))
    exact ((List.pairwise_cons.mp h.hasOut.apart).1 _ hmem).symm
  have hout : (s.out (c :: held)).Perm (((s.update (·.install c)).record e).out held) := by
    simp only [out, record, update, Arena.install, Array.toList_push]
    refine List.Perm.map _ ?_
    rw [← List.append_assoc]
    exact (List.perm_append_singleton ..).symm
  refine ⟨⟨a.extended c, hsound.extended hcursor hapart, hcounted.extended hcursor, ?_, hgrants⟩,
    h.used_eq, ?_⟩
  · exact congrArg (·.push c) hchunks
  · obtain ⟨hallocated, hobtained, hpairs, howns⟩ := h.hasOut.of_perm hsource hout
    exact ⟨hallocated, hobtained, hpairs, howns⟩

end Underway

end Store

/-- Every step of an attempt keeps the books, whatever else is held and uncounted. -/
theorem Attempt.Moves.underway {Owns : τ → List Slab → Prop} [SlabSource τ]
    (hsource : SlabSource.Unordered Owns) {r : Request} {s s' : Store (Metered τ)}
    {t t' : Attempt} (hmoves : Moves r s t t' s') (held : List Chunk) (uncounted : List Grant)
    (h : s.Underway Owns (t.held ++ held) (t.uncounted r ++ uncounted)) :
    s'.Underway Owns (t'.held ++ held) (t'.uncounted r ++ uncounted) := by
  cases hmoves with
  | looked hheld huncounted => rwa [← hheld, ← huncounted]
  | failed hheld huncounted log =>
      rw [hheld, huncounted] at h
      obtain ⟨hfull, hused, hallocated, hobtained, hapart, howns⟩ := h
      exact ⟨hfull, hused, hallocated, hobtained, hapart, howns⟩
  | placed halign hoffer => exact h.placed halign hoffer
  | obtained hcursor hacquire => exact ⟨h.full, h.used_eq, h.hasOut.obtained hsource hacquire⟩
  | installed hcursor => exact h.installed hsource hcursor _
  | returned => exact ⟨h.full, h.used_eq, h.hasOut.returned hsource⟩
  | counted => exact h.counted

end GrowArena

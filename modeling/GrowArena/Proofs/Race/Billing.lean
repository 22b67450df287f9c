import GrowArena.Proofs.Race.Books

/-!
The books of an arena whatever its source is like: used is what was handed out, allocated is what
the slabs amount to that are out, and no slab is larger than a source can be asked for. What a
source knows of its slabs is carried along; that they lie apart is not needed.
-/

namespace GrowArena

variable {σ τ : Type}

/-- A source that keeps track of the slabs that are out: `Owns` lists them, in any order, for a
state of the source. -/
structure SlabSource.Tracked [SlabSource σ] (Owns : σ → List Slab → Prop) : Prop where
  acquire : ∀ {source source' : σ} {out : List Slab} {bytes start : Nat}, Owns source out →
    SlabSource.acquire source bytes = some (start, source') → Owns source' (⟨start, bytes⟩ :: out)
  release : ∀ {source : σ} {slab : Slab} {out : List Slab}, Owns source (slab :: out) →
    Owns (SlabSource.release source slab) out
  perm : ∀ {source : σ} {out out' : List Slab}, out.Perm out' → Owns source out → Owns source out'

theorem slabBytes_cons (slab : Slab) (out : List Slab) :
    slabBytes (slab :: out) = slab.bytes + slabBytes out := rfl

theorem slabBytes_append (out out' : List Slab) :
    slabBytes (out ++ out') = slabBytes out + slabBytes out' := by
  simp [slabBytes]

theorem slabBytes_perm {out out' : List Slab} (h : out.Perm out') :
    slabBytes out = slabBytes out' :=
  (h.map Slab.bytes).sum_nat

namespace SlabSource

/-- There need be nothing to know of the slabs. -/
theorem tracked_true [SlabSource σ] : Tracked fun (_ : σ) _ => True where
  acquire _ _ := trivial
  release _ := trivial
  perm _ _ := trivial

end SlabSource

namespace Metered

/-- What was obtained is out or was returned. -/
def Lists (m : Metered τ) (out : List Slab) : Prop := m.obtained.Perm (out ++ m.returned)

theorem tracked_lists [SlabSource τ] : SlabSource.Tracked (Lists (τ := τ)) where
  acquire := by
    intro m m' out bytes start hlists hacquire
    obtain ⟨hobtained, hreturned⟩ := obtained_of_acquire hacquire
    simp only [Lists, hobtained, hreturned]
    exact hlists.cons _
  release hlists := hlists.trans List.perm_middle.symm
  perm hperm hlists := hlists.trans (hperm.append_right _)

theorem Lists.slabBytes_eq {m : Metered τ} {out : List Slab} (h : m.Lists out) :
    slabBytes m.obtained = slabBytes out + slabBytes m.returned := by
  rw [slabBytes_perm h, slabBytes_append]

end Metered

namespace LinearHeap

/-- What is live are these slabs, under the limit that there always was. -/
def Carries (limit : Nat) (h : LinearHeap) (out : List Slab) : Prop :=
  h.live = slabBytes out ∧ h.limit = limit

theorem tracked_carries (limit : Nat) : SlabSource.Tracked (Carries limit) where
  acquire := by
    intro h h' out bytes start hcarries hacquire
    obtain ⟨-, rfl, rfl⟩ : _ ∧ roundUp h.cursor = start ∧ _ = h' := by
      simpa [SlabSource.acquire, acquire] using hacquire
    refine ⟨?_, hcarries.2⟩
    rw [slabBytes_cons, hcarries.1]
    exact Nat.add_comm ..
  release := by
    intro h slab out hcarries
    refine ⟨?_, hcarries.2⟩
    simp only [SlabSource.release, release, hcarries.1, slabBytes_cons]
    exact Nat.add_sub_cancel_left ..
  perm hperm hcarries := ⟨hcarries.1.trans (slabBytes_perm hperm), hcarries.2⟩

end LinearHeap

namespace Store

/-- The bill of a store, with chunks that are held and not installed, and ranges that are taken and
not counted. -/
structure Billed (Owns : σ → List Slab → Prop) (held : List Chunk) (uncounted : List Grant)
    (s : Store σ) : Prop where
  cursor_le : s.arena.CursorsWithin
  used_eq : s.arena.used = (s.arena.grants.map (·.request.bytes)).sum
  used_le : (uncounted.map (·.request.bytes)).sum + s.arena.used ≤
    (s.arena.chunks.toList.map Chunk.cursor).sum
  allocated_eq : s.arena.allocated = slabBytes (s.out held)
  bytes_le : ∀ slab ∈ s.out held, slab.bytes ≤ slabMax
  owns : Owns s.source (s.out held)

namespace Billed

variable {Owns : σ → List Slab → Prop} {held : List Chunk} {uncounted : List Grant} {s : Store σ}
  {r : Request} {c : Chunk}

theorem placed (h : s.Billed Owns held uncounted) {i : Nat} {p : Placement}
    (hoffer : s.arena.Offers i r p) :
    (s.update (·.moveCursor i p.cursor)).Billed Owns held (⟨p.address, r⟩ :: uncounted) := by
  have hout : (s.update (·.moveCursor i p.cursor)).out held = s.out held := by
    simp only [out, List.map_append, update]
    rw [Arena.slab_moveCursor hoffer]
  refine ⟨h.cursor_le.takeAt hoffer, h.used_eq, ?_, ?_, ?_, ?_⟩
  · obtain ⟨before, c, after, hchunks, hc, htaken⟩ := Arena.exists_of_offers hoffer
    obtain ⟨hstart, hstop, -⟩ := Chunk.bounds_of_place? hc
    have hcursors : (s.arena.moveCursor i p.cursor).chunks.toList =
      before ++ { c with cursor := p.cursor } :: after := htaken
    have hused := h.used_le
    simp only [update, hcursors]
    simp only [hchunks, List.map_append, List.map_cons, List.sum_append, List.sum_cons,
      Arena.moveCursor] at hused ⊢
    omega
  · rw [hout]
    exact h.allocated_eq
  · rw [hout]
    exact h.bytes_le
  · rw [hout]
    exact h.owns

theorem counted {address : Nat} (h : s.Billed Owns held (⟨address, r⟩ :: uncounted)) :
    (s.update (·.credit ⟨address, r⟩)).Billed Owns held uncounted := by
  refine ⟨h.cursor_le, ?_, ?_, h.allocated_eq, h.bytes_le, h.owns⟩
  · simp only [update, Arena.credit, h.used_eq, List.map_cons, List.sum_cons]
    exact Nat.add_comm ..
  · have hused := h.used_le
    simp only [update, Arena.credit, List.map_cons, List.sum_cons] at hused ⊢
    omega

theorem new {source : σ} (hnew : Owns source []) (blockSize : Nat) :
    Billed Owns [] [] { source, arena := .ofBlockSize blockSize } :=
  ⟨nofun, rfl, Nat.le_refl _, rfl, nofun, hnew⟩

/-- Used and uncounted bytes fit into what is allocated, beside the headers. -/
theorem used_add_headers_le (h : s.Billed Owns held uncounted) :
    (uncounted.map (·.request.bytes)).sum + s.arena.used + Chunk.header * s.arena.chunks.size ≤
      s.arena.allocated := by
  have hbytes : slabBytes (s.arena.chunks.toList.map Chunk.slab) =
      (s.arena.chunks.toList.map Chunk.bytes).sum := by
    rw [slabBytes, List.map_map]
    rfl
  have hheaders := h.cursor_le.sum_cursor_add_headers_le
  have hused := h.used_le
  rw [h.allocated_eq, out, List.map_append, slabBytes_append, hbytes]
  omega

/-- The capacity of a chunk is a number of 64 bits. -/
theorem capacity_le (h : s.Billed Owns held uncounted)
    (hc : c ∈ s.arena.chunks.toList) : c.capacity ≤ wordMax := by
  have hbytes := h.bytes_le c.slab (List.mem_map_of_mem (List.mem_append_right _ hc))
  simp only [Chunk.slab, Chunk.bytes, Chunk.header, slabMax, wordMax] at hbytes ⊢
  omega

variable [SlabSource σ] (hsource : SlabSource.Tracked Owns)

include hsource

theorem of_perm {held' : List Chunk} {uncounted' : List Grant} (h : s.Billed Owns held uncounted)
    (hheld : held.Perm held') (huncounted : uncounted.Perm uncounted') :
    s.Billed Owns held' uncounted' := by
  have hout : (s.out held).Perm (s.out held') := (hheld.append_right _).map Chunk.slab
  refine ⟨h.cursor_le, h.used_eq, ?_, ?_, ?_, hsource.perm hout h.owns⟩
  · rw [← (huncounted.map (·.request.bytes)).sum_nat]
    exact h.used_le
  · rw [← slabBytes_perm hout]
    exact h.allocated_eq
  · exact fun slab hslab => h.bytes_le slab (hout.mem_iff.mpr hslab)

theorem obtained (h : s.Billed Owns held uncounted) {source : σ}
    (hacquire : SlabSource.acquire s.source c.bytes = some (c.start, source))
    (hbytes : c.bytes ≤ slabMax) :
    Billed Owns (c :: held) uncounted
      { s with source, arena := { s.arena with allocated := s.arena.allocated + c.bytes } } := by
  refine ⟨h.cursor_le, h.used_eq, h.used_le, ?_, ?_, hsource.acquire h.owns hacquire⟩
  · simp only [h.allocated_eq]
    exact Nat.add_comm ..
  · exact List.forall_mem_cons.mpr ⟨hbytes, h.bytes_le⟩

theorem installed (h : s.Billed Owns (c :: held) uncounted) (hcursor : c.cursor = 0) (e : Event) :
    ((s.update (·.install c)).record e).Billed Owns held uncounted := by
  have hout : (s.out (c :: held)).Perm (((s.update (·.install c)).record e).out held) := by
    simp only [out, record, update, Arena.install, Array.toList_push]
    refine List.Perm.map _ ?_
    rw [← List.append_assoc]
    exact (List.perm_append_singleton ..).symm
  refine ⟨?_, h.used_eq, ?_, ?_, ?_, hsource.perm hout h.owns⟩
  · have hcursors := h.cursor_le.extended hcursor
    exact hcursors
  · have hused := h.used_le
    simpa [update, record, Arena.install, hcursor] using hused
  · rw [← slabBytes_perm hout]
    exact h.allocated_eq
  · exact fun slab hslab => h.bytes_le slab (hout.mem_iff.mpr hslab)

theorem returned (h : s.Billed Owns (c :: held) uncounted) :
    Billed Owns held uncounted
      { s with
        source := SlabSource.release s.source c.slab
        arena := { s.arena with allocated := s.arena.allocated - c.bytes } } := by
  refine ⟨h.cursor_le, h.used_eq, h.used_le, ?_, ?_, hsource.release h.owns⟩
  · have hout : slabBytes (s.out (c :: held)) = c.bytes + slabBytes (s.out held) := rfl
    simp only [h.allocated_eq, hout]
    exact Nat.add_sub_cancel_left ..
  · exact (List.forall_mem_cons.mp h.bytes_le).2

end Billed

variable [SlabSource σ]

/-- Whatever a source tracks, the bill is kept. -/
theorem books_billed {Owns : σ → List Slab → Prop} (hsource : SlabSource.Tracked Owns) :
    Books (Billed Owns) where
  perm hheld huncounted h := h.of_perm hsource hheld huncounted
  moves hmoves held uncounted h := by
    cases hmoves with
    | looked hheld huncounted => rwa [← hheld, ← huncounted]
    | failed hheld huncounted log =>
        rw [hheld, huncounted] at h
        exact ⟨h.cursor_le, h.used_eq, h.used_le, h.allocated_eq, h.bytes_le, h.owns⟩
    | placed _ hoffer => exact h.placed hoffer
    | obtained _ hacquire hbytes => exact h.obtained hsource hacquire hbytes
    | installed hcursor => exact h.installed hsource hcursor _
    | returned => exact h.returned hsource
    | counted => exact h.counted

theorem owns_of_release_all {Owns : σ → List Slab → Prop} (hsource : SlabSource.Tracked Owns)
    (chunks : List Chunk) {source : σ} {out : List Slab}
    (h : Owns source (chunks.map Chunk.slab ++ out)) :
    Owns (chunks.foldr (fun c source => SlabSource.release source c.slab) source) out := by
  induction chunks generalizing out with
  | nil => exact h
  | cons c chunks ih =>
      have hlast : Owns source (chunks.map Chunk.slab ++ c.slab :: out) :=
        hsource.perm List.perm_middle.symm h
      exact hsource.release (ih hlast)

namespace Billed

variable {Owns : σ → List Slab → Prop} {held : List Chunk} {uncounted : List Grant} {s : Store σ}

/-- A rewind gives every slab back. -/
theorem rewind (hsource : SlabSource.Tracked Owns) (h : s.Billed Owns [] []) :
    s.rewind.Billed Owns [] [] := by
  refine ⟨nofun, rfl, Nat.le_refl _, rfl, nofun, ?_⟩
  have howns : Owns s.source (s.arena.chunks.toList.map Chunk.slab ++ []) := by
    rw [List.append_nil]
    exact h.owns
  have hreleased := owns_of_release_all hsource s.arena.chunks.toList howns
  rw [Array.foldr_toList] at hreleased
  exact hreleased

end Billed

end Store

end GrowArena

import GrowArena.Proofs.Arena.Calls
import Mathlib.Data.List.Induction
import Mathlib.Logic.ExistsUnique

/-!
Where the ranges lie that an arena hands out. A range is aligned and lies below the cursor of its
chunk, and the next one begins at or above that cursor; chunks are apart because their slabs are.
That slabs in use are apart is asked of the source. Addresses are exact numbers: a range lies within
a slab, so it does not pass the end of the address space unless the slab does.
-/

namespace GrowArena

/-- No byte belongs to both, and neither lies within the other. -/
def Slab.Apart (s t : Slab) : Prop := s.start + s.bytes ≤ t.start ∨ t.start + t.bytes ≤ s.start

theorem Grant.Disjoint.symm {g h : Grant} (hdisjoint : g.Disjoint h) : h.Disjoint g := by
  simp only [Disjoint] at hdisjoint ⊢
  omega

/-- A source that hands out no slab that overlaps one that is still out. `Owns` lists for a state
of the source the slabs that are out, newest first; they need to be given back in this order
only. -/
structure SlabSource.Exclusive {σ : Type} [SlabSource σ] (Owns : σ → List Slab → Prop) : Prop where
  acquire : ∀ {source source' : σ} {out : List Slab} {bytes start : Nat}, Owns source out →
    SlabSource.acquire source bytes = some (start, source') →
      (∀ slab ∈ out, slab.Apart ⟨start, bytes⟩) ∧ Owns source' (⟨start, bytes⟩ :: out)
  release : ∀ {source : σ} {slab : Slab} {out : List Slab}, Owns source (slab :: out) →
    Owns (SlabSource.release source slab) out

/-- An exclusive source that takes slabs back in any order: it does not matter which of the slabs
that are out was handed out last. -/
structure SlabSource.Unordered {σ : Type} [SlabSource σ] (Owns : σ → List Slab → Prop) : Prop
    extends SlabSource.Exclusive Owns where
  perm : ∀ {source : σ} {out out' : List Slab}, out.Perm out' → Owns source out → Owns source out'

namespace LinearHeap

def Below (h : LinearHeap) (out : List Slab) : Prop :=
  ∀ slab ∈ out, slab.start + slab.bytes ≤ h.cursor

theorem le_roundUp (address : Nat) : address ≤ roundUp address := by
  simp only [roundUp, grain]
  omega

theorem exclusive : SlabSource.Exclusive Below where
  acquire := by
    intro h h' out bytes start hout hacquire
    obtain ⟨-, rfl, rfl⟩ : _ ∧ roundUp h.cursor = start ∧ _ = h' := by
      simpa [SlabSource.acquire, acquire] using hacquire
    have hle := le_roundUp h.cursor
    refine ⟨fun slab hslab => .inl (Nat.le_trans (hout slab hslab) hle), ?_⟩
    intro slab hslab
    rcases List.mem_cons.mp hslab with rfl | hold
    · exact Nat.le_refl _
    · exact Nat.le_trans (hout slab hold) (Nat.le_trans hle (Nat.le_add_right _ _))
  release hout slab hslab := hout slab (List.mem_cons_of_mem _ hslab)

theorem unordered : SlabSource.Unordered Below where
  toExclusive := exclusive
  perm hperm hout slab hslab := hout slab (hperm.mem_iff.mpr hslab)

end LinearHeap

theorem padding_aligns (address : Nat) {boundary : Nat} (h : boundary ≠ 0) :
    (address + padding address boundary) % boundary = 0 := by
  unfold padding
  split
  · have hone : boundary = 1 := by omega
    rw [hone, Nat.mod_one]
  · split
    · rename_i haligned
      exact haligned
    · have hlt := Nat.mod_lt address (Nat.pos_of_ne_zero h)
      have hdiv := Nat.div_add_mod address boundary
      have hsum : address + (boundary - address % boundary) =
          boundary * (address / boundary + 1) := by
        rw [Nat.mul_add, Nat.mul_one]
        omega
      rw [hsum, Nat.mul_mod_right]

namespace Chunk

/-- The range lies in the part of the chunk that was handed out. -/
def Covers (c : Chunk) (g : Grant) : Prop := c.data ≤ g.address ∧ g.stop ≤ c.data + c.cursor

/-- The range lies behind the header of the chunk and before its end. -/
def Encloses (c : Chunk) (g : Grant) : Prop := c.data ≤ g.address ∧ g.stop ≤ c.data + c.capacity

theorem aligned_of_place? {c : Chunk} {r : Request} {p : Placement} (hplace : c.place? r = some p)
    (halign : r.alignment ≠ 0) : Grant.Aligned ⟨p.address, r⟩ := by
  obtain ⟨-, -, rfl⟩ := place?_eq_some_iff.mp hplace
  have := padding_aligns (c.data + c.cursor) halign
  rwa [Nat.add_assoc] at this

/-- A place begins at or above the cursor and ends at the new cursor, within the chunk. -/
theorem bounds_of_place? {c : Chunk} {r : Request} {p : Placement} (h : c.place? r = some p) :
    c.data + c.cursor ≤ p.address ∧ p.address + r.bytes = c.data + p.cursor ∧
      p.cursor ≤ c.capacity := by
  obtain ⟨hroom, -, rfl⟩ := place?_eq_some_iff.mp h
  simp only [HasRoom] at hroom
  simp only [offset] at hroom ⊢
  omega

/-- No range is in two chunks whose slabs are apart, not even an empty one. -/
theorem not_encloses_of_apart {c d : Chunk} {g : Grant} (hapart : c.slab.Apart d.slab)
    (hc : c.Encloses g) : ¬ d.Encloses g := by
  intro hd
  obtain ⟨hc1, hc2⟩ := hc
  obtain ⟨hd1, hd2⟩ := hd
  have hstop : g.address ≤ g.stop := Nat.le_add_right _ _
  simp only [Slab.Apart, slab, bytes, data, header] at hapart hc1 hc2 hd1 hd2
  omega

theorem disjoint_of_apart {c d : Chunk} {g h : Grant} (hapart : c.slab.Apart d.slab)
    (hc : c.Encloses g) (hd : d.Encloses h) : g.Disjoint h := by
  obtain ⟨hc1, hc2⟩ := hc
  obtain ⟨hd1, hd2⟩ := hd
  simp only [Slab.Apart, slab, bytes, data, header] at hapart hc1 hc2 hd1 hd2
  simp only [Grant.Disjoint]
  omega

end Chunk

namespace Arena

/-- The chunk in this place of the chain has this room for the request. -/
def Offers (a : Arena) (i : Nat) (r : Request) (p : Placement) : Prop :=
  ∃ c, a.chunks[i]? = some c ∧ c.place? r = some p

/-- The arena once that room is handed out. For the head this is `Arena.take`. -/
def takeAt (a : Arena) (i : Nat) (p : Placement) (r : Request) : Arena :=
  (a.moveCursor i p.cursor).credit { address := p.address, request := r }

theorem offers_of_place? {a : Arena} {r : Request} {p : Placement} (h : a.place? r = some p) :
    a.Offers (a.chunks.size - 1) r p := by
  obtain ⟨c, hhead, hplace⟩ := Option.bind_eq_some_iff.mp h
  refine ⟨c, ?_, hplace⟩
  rw [← Array.back?_eq_getElem?]
  exact hhead

/-- What the offer of a chunk says about the chain, before and after it is taken. -/
theorem exists_of_offers {a : Arena} {i : Nat} {r : Request} {p : Placement}
    (h : a.Offers i r p) :
    ∃ before c after, a.chunks.toList = before ++ c :: after ∧ c.place? r = some p ∧
      (a.takeAt i p r).chunks.toList = before ++ { c with cursor := p.cursor } :: after := by
  obtain ⟨c, hi, hplace⟩ := h
  obtain ⟨hlt, rfl⟩ := List.getElem?_eq_some_iff.mp (Array.getElem?_toList ▸ hi)
  refine ⟨a.chunks.toList.take i, _, a.chunks.toList.drop (i + 1), ?_, hplace, ?_⟩
  · rw [List.getElem_cons_drop, List.take_append_drop]
  · simp only [takeAt, moveCursor, credit, Array.toList_modify]
    rw [List.modify_eq_take_cons_drop hlt]

theorem slab_takeAt {a : Arena} {i : Nat} {r : Request} {p : Placement} (h : a.Offers i r p) :
    (a.takeAt i p r).chunks.toList.map Chunk.slab = a.chunks.toList.map Chunk.slab := by
  obtain ⟨before, c, after, hchunks, -, htaken⟩ := exists_of_offers h
  rw [htaken, hchunks, List.map_append, List.map_append]
  rfl

def CursorsWithin (a : Arena) : Prop := ∀ c ∈ a.chunks.toList, c.cursor ≤ c.capacity

theorem CursorsWithin.takeAt {a : Arena} (h : a.CursorsWithin) {i : Nat} {r : Request}
    {p : Placement} (hoffer : a.Offers i r p) : (a.takeAt i p r).CursorsWithin := by
  obtain ⟨before, c, after, hchunks, hc, htaken⟩ := exists_of_offers hoffer
  obtain ⟨-, -, hcapacity⟩ := Chunk.bounds_of_place? hc
  intro d hd
  rw [htaken, List.mem_append, List.mem_cons] at hd
  rcases hd with hbefore | rfl | hafter
  · exact h d (hchunks ▸ List.mem_append_left _ hbefore)
  · exact hcapacity
  · exact h d (hchunks ▸ List.mem_append_right _ (List.mem_cons_of_mem _ hafter))

theorem CursorsWithin.extended {a : Arena} (h : a.CursorsWithin) {c : Chunk}
    (hcursor : c.cursor = 0) : (a.extended c).CursorsWithin := by
  intro d hd
  rw [toList_chunks_extended] at hd
  rcases List.mem_append.mp hd with hold | hnew
  · exact h d hold
  · obtain rfl := List.mem_singleton.mp hnew
    rw [hcursor]
    exact Nat.zero_le _

/-- Slabs are apart; cursors are within their chunks; ranges are aligned, lie below the cursor of
a chunk, and do not overlap. -/
structure Sound (a : Arena) : Prop where
  apart : a.chunks.toList.Pairwise fun c d => c.slab.Apart d.slab
  cursor_le : a.CursorsWithin
  aligned : ∀ g ∈ a.grants, g.Aligned
  covered : ∀ g ∈ a.grants, ∃ c ∈ a.chunks.toList, c.Covers g
  disjoint : a.grants.Pairwise Grant.Disjoint

theorem sound_emptied (a : Arena) : a.emptied.Sound where
  apart := .nil
  cursor_le c hc := by cases hc
  aligned g hg := by cases hg
  covered g hg := by cases hg
  disjoint := .nil

/-- The offer of a chunk meets no range that was handed out: those in that chunk end at the cursor,
and those in other chunks are in other slabs. -/
theorem Sound.disjoint_offer {a : Arena} (h : a.Sound) {i : Nat} {r : Request} {p : Placement}
    (hoffer : a.Offers i r p) {g : Grant} (hg : g ∈ a.grants) :
    Grant.Disjoint ⟨p.address, r⟩ g := by
  obtain ⟨before, c, after, hchunks, hc, -⟩ := exists_of_offers hoffer
  obtain ⟨hstart, hstop, hcapacity⟩ := Chunk.bounds_of_place? hc
  obtain ⟨d, hd, hfrom, hto⟩ := h.covered g hg
  have henclosed : d.Encloses g :=
    ⟨hfrom, Nat.le_trans hto (Nat.add_le_add_left (h.cursor_le d hd) _)⟩
  have hnew : c.Encloses ⟨p.address, r⟩ :=
    ⟨Nat.le_trans (Nat.le_add_right _ _) hstart,
      Nat.le_trans (Nat.le_of_eq hstop) (Nat.add_le_add_left hcapacity _)⟩
  have hapart := hchunks ▸ h.apart
  obtain ⟨-, hlater, hearlier⟩ := List.pairwise_append.mp hapart
  rw [hchunks, List.mem_append, List.mem_cons] at hd
  rcases hd with hbefore | rfl | hafter
  · exact Chunk.disjoint_of_apart (Or.symm (hearlier d hbefore c List.mem_cons_self)) hnew henclosed
  · exact Or.inr (Or.inr (Or.inr (Nat.le_trans hto hstart)))
  · exact Chunk.disjoint_of_apart ((List.pairwise_cons.mp hlater).1 d hafter) hnew henclosed

/-- Taking an offer moves the cursor of its chunk behind the range, and no cursor back. -/
theorem Sound.covered_takeAt {a : Arena} (h : a.Sound) {i : Nat} {r : Request} {p : Placement}
    (hoffer : a.Offers i r p) :
    ∀ g ∈ (a.takeAt i p r).grants, ∃ c ∈ (a.takeAt i p r).chunks.toList, c.Covers g := by
  obtain ⟨before, c, after, hchunks, hc, htaken⟩ := exists_of_offers hoffer
  obtain ⟨hstart, hstop, -⟩ := Chunk.bounds_of_place? hc
  have hmoved : { c with cursor := p.cursor } ∈ before ++ { c with cursor := p.cursor } :: after :=
    List.mem_append_right _ List.mem_cons_self
  rw [htaken]
  intro g hg
  rcases List.mem_cons.mp hg with rfl | hold
  · exact ⟨_, hmoved, Nat.le_trans (Nat.le_add_right _ _) hstart, Nat.le_of_eq hstop⟩
  · obtain ⟨d, hd, hfrom, hto⟩ := h.covered g hold
    rw [hchunks, List.mem_append, List.mem_cons] at hd
    rcases hd with hbefore | rfl | hafter
    · exact ⟨d, List.mem_append_left _ hbefore, hfrom, hto⟩
    · have hcursor : d.data + d.cursor ≤ d.data + p.cursor :=
        hstop ▸ Nat.le_add_right_of_le hstart
      exact ⟨_, hmoved, hfrom, Nat.le_trans hto hcursor⟩
    · exact ⟨d, List.mem_append_right _ (List.mem_cons_of_mem _ hafter), hfrom, hto⟩

theorem Sound.takeAt {a : Arena} (h : a.Sound) {i : Nat} {r : Request} {p : Placement}
    (hoffer : a.Offers i r p) (halign : r.alignment ≠ 0) : (a.takeAt i p r).Sound := by
  constructor
  · have hapart := List.pairwise_map.mpr h.apart
    rw [← slab_takeAt hoffer] at hapart
    exact List.pairwise_map.mp hapart
  · exact h.cursor_le.takeAt hoffer
  · obtain ⟨c, -, hc⟩ := hoffer
    intro g hg
    rcases List.mem_cons.mp hg with rfl | hold
    · exact Chunk.aligned_of_place? hc halign
    · exact h.aligned g hold
  · exact h.covered_takeAt hoffer
  · exact List.pairwise_cons.mpr ⟨fun g hg => h.disjoint_offer hoffer hg, h.disjoint⟩

theorem Sound.extended {a : Arena} (h : a.Sound) {c : Chunk} (hcursor : c.cursor = 0)
    (hapart : ∀ d ∈ a.chunks.toList, d.slab.Apart c.slab) : (a.extended c).Sound := by
  constructor
  · rw [toList_chunks_extended, List.pairwise_append]
    refine ⟨h.apart, List.pairwise_singleton _ _, ?_⟩
    intro d hd e he
    obtain rfl := List.mem_singleton.mp he
    exact hapart d hd
  · exact h.cursor_le.extended hcursor
  · exact h.aligned
  · rw [toList_chunks_extended]
    intro g hg
    obtain ⟨d, hd, hcovers⟩ := h.covered g hg
    exact ⟨d, List.mem_append_left _ hd, hcovers⟩
  · exact h.disjoint

/-- A range lies in one chunk and in no other. -/
theorem Sound.existsUnique_encloses {a : Arena} (h : a.Sound) {g : Grant} (hg : g ∈ a.grants) :
    ∃! i : Nat, ∃ c : Chunk, a.chunks[i]? = some c ∧ c.Encloses g := by
  obtain ⟨c, hc, hfrom, hto⟩ := h.covered g hg
  obtain ⟨i, hi⟩ := List.getElem?_of_mem hc
  have hcapacity := Nat.add_le_add_left (h.cursor_le c hc) c.data
  have hencloses : c.Encloses g := ⟨hfrom, Nat.le_trans hto hcapacity⟩
  refine ⟨i, ⟨c, by simpa using hi, hencloses⟩, ?_⟩
  rintro j ⟨d, hj, hd⟩
  rw [← Array.getElem?_toList] at hj
  obtain ⟨hilt, rfl⟩ := List.getElem?_eq_some_iff.mp hi
  obtain ⟨hjlt, rfl⟩ := List.getElem?_eq_some_iff.mp hj
  have hpairs := List.pairwise_iff_getElem.mp h.apart
  rcases Nat.lt_trichotomy j i with hlt | heq | hlt
  · exact absurd hencloses (Chunk.not_encloses_of_apart (hpairs j i hjlt hilt hlt) hd)
  · exact heq
  · exact absurd hd (Chunk.not_encloses_of_apart (hpairs i j hilt hjlt hlt) hencloses)

/-- Ranges are apart in an arena: each is aligned and lies in exactly one chunk, behind its header
and before its end, and no two have a byte in common. -/
structure Separates (a : Arena) (ranges : List Grant) : Prop where
  aligned : ∀ g ∈ ranges, g.Aligned
  enclosed : ∀ g ∈ ranges, ∃! i : Nat, ∃ c : Chunk, a.chunks[i]? = some c ∧ c.Encloses g
  disjoint : ranges.Pairwise Grant.Disjoint
  cursors_within : a.CursorsWithin

/-- Listed oldest first, what a sound arena has handed out is apart in it. -/
theorem Sound.separates {a : Arena} (h : a.Sound) {ranges : List Grant}
    (hgrants : a.grants = ranges.reverse) : a.Separates ranges := by
  have hmem : ∀ g ∈ ranges, g ∈ a.grants := by
    intro g hg
    rw [hgrants]
    exact List.mem_reverse.mpr hg
  have hdisjoint := h.disjoint
  rw [hgrants, List.pairwise_reverse] at hdisjoint
  exact ⟨fun g hg => h.aligned g (hmem g hg), fun g hg => h.existsUnique_encloses (hmem g hg),
    hdisjoint.imp Grant.Disjoint.symm, h.cursor_le⟩

/-- The chunks are still there, in their places, and no cursor has gone back. -/
def Advances (a a' : Arena) : Prop :=
  ∀ (i : Nat) c, a.chunks[i]? = some c →
    ∃ cursor, c.cursor ≤ cursor ∧ a'.chunks[i]? = some { c with cursor }

theorem Advances.refl (a : Arena) : a.Advances a :=
  fun _ c hc => ⟨c.cursor, Nat.le_refl _, hc⟩

theorem Advances.trans {a₁ a₂ a₃ : Arena} (h : a₁.Advances a₂) (h' : a₂.Advances a₃) :
    a₁.Advances a₃ := by
  intro i c hc
  obtain ⟨cursor, hle, hc'⟩ := h i c hc
  obtain ⟨cursor', hle', hc''⟩ := h' i _ hc'
  exact ⟨cursor', Nat.le_trans hle hle', hc''⟩

theorem advances_takeAt {a : Arena} {i : Nat} {r : Request} {p : Placement}
    (hoffer : a.Offers i r p) : a.Advances (a.takeAt i p r) := by
  obtain ⟨c, hi, hc⟩ := hoffer
  obtain ⟨hstart, hstop, -⟩ := Chunk.bounds_of_place? hc
  intro j d hd
  simp only [takeAt, moveCursor, credit, Array.getElem?_modify]
  split
  · rename_i heq
    subst heq
    obtain rfl := Option.some.inj (hi.symm.trans hd)
    exact ⟨p.cursor, by omega, by rw [hi]; rfl⟩
  · exact ⟨d.cursor, Nat.le_refl _, hd⟩

theorem advances_extended (a : Arena) (c : Chunk) : a.Advances (a.extended c) := by
  intro i d hd
  obtain ⟨hi, rfl⟩ := Array.getElem?_eq_some_iff.mp hd
  refine ⟨_, Nat.le_refl _, ?_⟩
  simp [extended, install, Array.getElem?_push_lt hi]

end Arena

namespace Store

variable {σ : Type} [SlabSource σ]

theorem advances_allocate (r : Request) (s : Store σ) :
    s.arena.Advances (finalState (allocate r s)).arena := by
  have h := allocation_allocate r s
  generalize allocate r s = result at h ⊢
  cases h with
  | unaligned | excessive | refused => exact .refl _
  | served _ hplace => exact Arena.advances_takeAt (Arena.offers_of_place? hplace)
  | extended _ _ _ _ hplace =>
      exact (Arena.advances_extended _ _).trans
        (Arena.advances_takeAt (Arena.offers_of_place? hplace))

/-- As long as memory is only asked for, no chunk goes away and no cursor goes back. -/
theorem Leads.advances {s s' : Store σ} (h : Leads s s') : s.arena.Advances s'.arena := by
  refine h.induct (P := fun s' => s.arena.Advances s'.arena) (fun _ _ hs => hs) ?_ (.refl _)
  intro r s' hs
  exact hs.trans (advances_allocate r s')

/-- The arena is sound, and its slabs are those that the source has out. -/
structure Orderly (Owns : σ → List Slab → Prop) (s : Store σ) : Prop where
  sound : s.arena.Sound
  owns : Owns s.source (s.arena.chunks.toList.reverse.map Chunk.slab)

theorem slab_take {a : Arena} {r : Request} {p : Placement} (hplace : a.place? r = some p) :
    (a.take p r).chunks.toList.map Chunk.slab = a.chunks.toList.map Chunk.slab :=
  Arena.slab_takeAt (Arena.offers_of_place? hplace)

theorem Orderly.allocate {Owns : σ → List Slab → Prop} (hsource : SlabSource.Exclusive Owns)
    {s : Store σ} (hs : s.Orderly Owns) (r : Request) :
    (finalState (allocate r s)).Orderly Owns := by
  have h := allocation_allocate r s
  generalize Store.allocate r s = result at h ⊢
  cases h with
  | unaligned | excessive | refused => exact ⟨hs.sound, hs.owns⟩
  | served halign hplace =>
      refine ⟨hs.sound.takeAt (Arena.offers_of_place? hplace) halign, ?_⟩
      have howns := hs.owns
      rw [List.map_reverse, ← slab_take hplace, ← List.map_reverse] at howns
      exact howns
  | @extended start source p halign hnone hoverflow hacquire hplace =>
      obtain ⟨hapart, howns⟩ := hsource.acquire hs.owns hacquire
      have hsound : (s.arena.extended (r.chunk s.arena.blockSize start)).Sound := by
        refine hs.sound.extended rfl ?_
        intro c hc
        exact hapart c.slab (List.mem_map_of_mem (List.mem_reverse.mpr hc))
      refine ⟨hsound.takeAt (Arena.offers_of_place? hplace) halign, ?_⟩
      rw [List.map_reverse]
      simp only [finalState]
      rw [slab_take hplace, Arena.toList_chunks_extended, List.map_append, List.reverse_append]
      rwa [List.map_reverse] at howns

theorem owns_of_release {Owns : σ → List Slab → Prop} (hsource : SlabSource.Exclusive Owns)
    (chunks : List Chunk) {source : σ} (h : Owns source (chunks.reverse.map Chunk.slab)) :
    Owns (chunks.foldr (fun c source => SlabSource.release source c.slab) source) [] := by
  induction chunks using List.reverseRecOn generalizing source with
  | nil => exact h
  | append_singleton older c ih =>
      rw [List.foldr_append]
      apply ih
      apply hsource.release
      simpa using h

theorem Orderly.rewind {Owns : σ → List Slab → Prop} (hsource : SlabSource.Exclusive Owns)
    {s : Store σ} (hs : s.Orderly Owns) : s.rewind.Orderly Owns where
  sound := Arena.sound_emptied s.arena
  owns := by
    have := owns_of_release hsource s.arena.chunks.toList hs.owns
    simp only [Store.rewind, ← Array.foldr_toList]
    exact this

end Store

end GrowArena

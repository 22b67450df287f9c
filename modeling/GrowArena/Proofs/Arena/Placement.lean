import GrowArena.Proofs.Arena.Ranges
import Mathlib.Algebra.Ring.Nat
import Mathlib.Order.Bounds.Basic

/-!
Where a request goes, and why it is turned down, said in exact numbers. The head admits a request if
the bytes fit behind the least padding that aligns them; the program decides the same with sums that
must not leave 64 bits. A chunk made for a request admits it wherever its slab lies, so the loop of
an allocation looks at a head twice at most.
-/

namespace GrowArena

/-- The padding is the least distance to a multiple of the boundary. -/
theorem isLeast_padding (address : Nat) {boundary : Nat} (h : boundary ≠ 0) :
    IsLeast {p | boundary ∣ address + p} (padding address boundary) := by
  refine ⟨Nat.dvd_of_mod_eq_zero (padding_aligns address h), ?_⟩
  intro p hp
  have hmod := Nat.mod_eq_zero_of_dvd hp
  unfold padding
  split
  · exact Nat.zero_le p
  · split
    · exact Nat.zero_le p
    · rename_i hone haddress
      -- A smaller distance leaves the residue of the address short of the boundary.
      by_contra hlt
      have hresidue := Nat.mod_lt address (Nat.pos_of_ne_zero h)
      have hsum : (address + p) % boundary = address % boundary + p := by
        rw [Nat.add_mod, Nat.mod_eq_of_lt (by omega : p < boundary),
          Nat.mod_eq_of_lt (by omega)]
      omega

namespace Chunk

/-- The request fits behind the cursor and the least padding that aligns it. -/
def Admits (c : Chunk) (r : Request) : Prop :=
  ∃ p, IsLeast {p | r.alignment ∣ c.data + c.cursor + p} p ∧ c.cursor + p + r.bytes ≤ c.capacity

theorem admits_iff_hasRoom {c : Chunk} {r : Request} (h : r.alignment ≠ 0) :
    c.Admits r ↔ c.HasRoom r := by
  have hleast := isLeast_padding (c.data + c.cursor) h
  constructor
  · rintro ⟨p, hp, hfits⟩
    rwa [hp.unique hleast] at hfits
  · intro hroom
    exact ⟨_, hleast, hroom⟩

/-- A chunk made for a request admits it, whatever the address of its slab. -/
theorem admits_chunk (r : Request) (h : r.alignment ≠ 0) (blockSize start : Nat) :
    (r.chunk blockSize start).Admits r :=
  (admits_iff_hasRoom h).mpr (hasRoom_of_le (Nat.le_max_right ..))

/-- A place is the least aligned address at or above the cursor. -/
theorem isLeast_of_place? {c : Chunk} {r : Request} {p : Placement} (h : r.alignment ≠ 0)
    (hplace : c.place? r = some p) :
    IsLeast {address | c.data + c.cursor ≤ address ∧ r.alignment ∣ address} p.address := by
  obtain ⟨-, -, rfl⟩ := place?_eq_some_iff.mp hplace
  obtain ⟨haligned, hleast⟩ := isLeast_padding (c.data + c.cursor) h
  refine ⟨⟨?_, ?_⟩, ?_⟩
  · exact Nat.add_le_add_left (Nat.le_add_right ..) _
  · rw [Set.mem_ofPred_eq, Nat.add_assoc] at haligned
    exact haligned
  · rintro address ⟨hle, hdvd⟩
    obtain ⟨distance, rfl⟩ := Nat.exists_eq_add_of_le hle
    have hdistance := hleast hdvd
    simp only [offset]
    omega

end Chunk

namespace Arena

/-- There is a head, and it admits the request. -/
def Admits (a : Arena) (r : Request) : Prop := ∃ c, a.head? = some c ∧ c.Admits r

/-- The capacities of all chunks are numbers of 64 bits. -/
def Representable (a : Arena) : Prop := ∀ c ∈ a.chunks.toList, c.capacity ≤ wordMax

theorem exists_of_head? {a : Arena} {c : Chunk} (h : a.head? = some c) :
    ∃ before, a.chunks.toList = before ++ [c] := by
  rw [head?, ← Array.getLast?_toList] at h
  exact List.getLast?_eq_some_iff.mp h

theorem mem_of_head? {a : Arena} {c : Chunk} (h : a.head? = some c) : c ∈ a.chunks.toList := by
  obtain ⟨before, hchunks⟩ := exists_of_head? h
  rw [hchunks]
  exact List.mem_concat_self

/-- What the program decides by sums of 64 bits is whether the head admits the request. -/
theorem isSome_place?_iff_admits {a : Arena} {r : Request} (ha : a.Representable)
    (h : r.alignment ≠ 0) : (a.place? r).isSome ↔ a.Admits r := by
  rw [Option.isSome_iff_exists, place?]
  constructor
  · rintro ⟨p, hp⟩
    obtain ⟨c, hhead, hplace⟩ := Option.bind_eq_some_iff.mp hp
    have hroom := (Chunk.place?_eq_some_iff.mp hplace).1
    exact ⟨c, hhead, (Chunk.admits_iff_hasRoom h).mpr hroom⟩
  · rintro ⟨c, hhead, hadmits⟩
    rw [hhead, Option.bind_some, ← Option.isSome_iff_exists]
    exact Chunk.isSome_place?_of_hasRoom (ha c (mem_of_head? hhead))
      ((Chunk.admits_iff_hasRoom h).mp hadmits)

theorem admits_of_place? {a : Arena} {r : Request} {p : Placement} (ha : a.Representable)
    (h : r.alignment ≠ 0) (hplace : a.place? r = some p) : a.Admits r :=
  (isSome_place?_iff_admits ha h).mp (Option.isSome_of_eq_some hplace)

theorem not_admits_of_place? {a : Arena} {r : Request} (ha : a.Representable)
    (h : r.alignment ≠ 0) (hnone : a.place? r = none) : ¬ a.Admits r := by
  rw [← isSome_place?_iff_admits ha h, hnone]
  simp

/-- The chunk is the head of one arena and served the request at this address. The other arena is
what that left: the cursor stands at the end of the range, and no other chunk has changed. -/
structure Serves (a : Arena) (c : Chunk) (r : Request) (address : Nat) (a' : Arena) : Prop where
  head_eq : a.head? = some c
  admits : c.Admits r
  least : IsLeast {x | c.data + c.cursor ≤ x ∧ r.alignment ∣ x} address
  moved : ∃ cursor, c.data + cursor = address + r.bytes ∧
    a'.chunks.toList = a.chunks.toList.dropLast ++ [{ c with cursor }]
  used_eq : a'.used = a.used + r.bytes
  allocated_eq : a'.allocated = a.allocated

theorem serves_take {a : Arena} {r : Request} {p : Placement} (h : r.alignment ≠ 0)
    (hplace : a.place? r = some p) : ∃ c, a.Serves c r p.address (a.take p r) := by
  obtain ⟨c, hhead, hc⟩ := Option.bind_eq_some_iff.mp hplace
  obtain ⟨hstart, hstop, -⟩ := Chunk.bounds_of_place? hc
  have hadmits := (Chunk.admits_iff_hasRoom h).mpr (Chunk.place?_eq_some_iff.mp hc).1
  refine ⟨c, hhead, hadmits, Chunk.isLeast_of_place? h hc, ⟨p.cursor, hstop.symm, ?_⟩, rfl, rfl⟩
  obtain ⟨before, hchunks⟩ := exists_of_head? hhead
  have hsize : a.chunks.size - 1 = before.length := by
    simp [← Array.length_toList, hchunks]
  simp only [take, moveCursor, credit, Array.toList_modify]
  rw [hsize, hchunks, List.modify_eq_take_cons_drop (by simp)]
  simp

end Arena

/-- Why there can be no chunk for a request: its bytes cannot be counted, or they can and no slab is
that large. -/
theorem Request.overflow?_eq_some_iff {r : Request} {blockSize : Nat} {fault : Fault} :
    r.overflow? blockSize = some fault ↔
      (fault = .chunkBytes ∧ wordMax < Chunk.header + r.chunkCapacity blockSize) ∨
        (fault = .chunkExtent ∧ Chunk.header + r.chunkCapacity blockSize ≤ wordMax ∧
          slabMax < Chunk.header + r.chunkCapacity blockSize) := by
  rw [chunkCapacity, Nat.max_comm]
  simp only [overflow?, checkedAdd]
  grind

namespace Store

variable {σ : Type} [SlabSource σ]

/-- The loop of an allocation ends with this result when it has looked at a head this often. -/
inductive Passes (r : Request) : Nat → Store σ → EStateM.Result Fault (Store σ) Nat → Prop
  | served {s : Store σ} {p : Placement} (hplace : s.arena.place? r = some p) :
      Passes r 1 s (.ok p.address (s.update (·.take p r)))
  | stopped {s s' : Store σ} {fault : Fault} (hnone : s.arena.place? r = none)
      (hextend : extend r s = .error fault s') : Passes r 1 s (.error fault s')
  | again {s s' : Store σ} {result : EStateM.Result Fault (Store σ) Nat} {n : Nat} {u : Unit}
      (hnone : s.arena.place? r = none) (hextend : extend r s = .ok u s')
      (hpasses : Passes r n s' result) : Passes r (n + 1) s result

theorem serve_of_passes {r : Request} {n : Nat} {s : Store σ}
    {result : EStateM.Result Fault (Store σ) Nat} (h : Passes r n s result) :
    serve r s = result := by
  induction h with
  | served hplace => exact serve_of_some hplace
  | stopped hnone hextend => rw [serve_of_none hnone, hextend]
  | again hnone hextend _ ih =>
      rw [serve_of_none hnone, hextend]
      exact ih

theorem passes_of_extend {r : Request} {s s' : Store σ} {u : Unit}
    (hnone : s.arena.place? r = none) (hextend : extend r s = .ok u s') :
    Passes r 2 s (serve r s) := by
  obtain ⟨p, hplace⟩ := Option.isSome_iff_exists.mp (place?_of_extend hextend)
  have hpasses := Passes.again hnone hextend (.served hplace)
  rwa [← serve_of_passes hpasses] at hpasses

/-- Without other callers a chunk made for a request serves it, so two passes are enough. -/
theorem exists_passes (r : Request) (s : Store σ) : ∃ n ≤ 2, Passes r n s (serve r s) := by
  cases hplace : s.arena.place? r with
  | some p =>
      rw [serve_of_some hplace]
      exact ⟨1, by decide, .served hplace⟩
  | none =>
      cases hextend : extend r s with
      | ok u s' => exact ⟨2, Nat.le_refl 2, passes_of_extend hplace hextend⟩
      | error fault s' =>
          rw [serve_of_none hplace, hextend]
          exact ⟨1, by decide, .stopped hplace hextend⟩

/-- When and why an allocation is turned down, in exact numbers. -/
inductive Refuses (r : Request) (s : Store σ) : Fault → Prop
  | unaligned (halign : r.alignment = 0) : Refuses r s (.invalidAlignment 0)
  | uncountable (halign : r.alignment ≠ 0) (hfull : ¬ s.arena.Admits r)
      (hbytes : 2 ^ 64 - 1 < r.bytes + r.alignment - 1 ∨
        2 ^ 64 - 1 < 40 + max s.arena.blockSize (r.bytes + r.alignment - 1)) :
      Refuses r s (.sizeOverflow "chunk size")
  | oversized (halign : r.alignment ≠ 0) (hfull : ¬ s.arena.Admits r)
      (hbytes : 40 + max s.arena.blockSize (r.bytes + r.alignment - 1) ≤ 2 ^ 64 - 1)
      (hslab : 2 ^ 63 - 8 < 40 + max s.arena.blockSize (r.bytes + r.alignment - 1)) :
      Refuses r s (.sizeOverflow "chunk layout")
  | exhausted (halign : r.alignment ≠ 0) (hfull : ¬ s.arena.Admits r)
      (hslab : 40 + max s.arena.blockSize (r.bytes + r.alignment - 1) ≤ 2 ^ 63 - 8)
      (hacquire : SlabSource.acquire s.source
        (40 + max s.arena.blockSize (r.bytes + r.alignment - 1)) = none) :
      Refuses r s (.outOfMemory r.bytes r.alignment s.arena.used s.arena.allocated)

/-- The conditions exclude each other. -/
theorem Refuses.unique {r : Request} {s : Store σ} {fault fault' : Fault} (h : s.Refuses r fault)
    (h' : s.Refuses r fault') : fault = fault' := by
  cases h <;> cases h' <;> first | rfl | contradiction | omega

theorem header_add_chunkCapacity {r : Request} (h : r.alignment ≠ 0) (blockSize : Nat) :
    Chunk.header + r.chunkCapacity blockSize =
      40 + max blockSize (r.bytes + r.alignment - 1) := by
  simp only [Chunk.header, Request.chunkCapacity]
  omega

theorem refuses_of_error {r : Request} {s s' : Store σ} {fault : Fault}
    (hs : s.arena.Representable) (h : allocate r s = .error fault s') : s.Refuses r fault := by
  have hout := allocation_allocate r s
  rw [h] at hout
  cases hout with
  | unaligned halign => exact .unaligned halign
  | excessive halign hnone hoverflow =>
      have hfull := Arena.not_admits_of_place? hs halign hnone
      rw [Request.overflow?_eq_some_iff, header_add_chunkCapacity halign] at hoverflow
      rcases hoverflow with ⟨rfl, hbytes⟩ | ⟨rfl, hbytes, hslab⟩
      · exact .uncountable halign hfull (.inr hbytes)
      · exact .oversized halign hfull hbytes hslab
  | refused halign hnone hoverflow hacquire =>
      have hfull := Arena.not_admits_of_place? hs halign hnone
      have hslab := Request.le_of_overflow?_eq_none hoverflow
      simp only [Chunk.bytes, Request.chunk] at hacquire
      rw [header_add_chunkCapacity halign] at hslab hacquire
      exact .exhausted halign hfull hslab hacquire

/-- A request that succeeds meets none of the conditions. -/
theorem not_refuses_of_ok {r : Request} {s s' : Store σ} {address : Nat}
    (hs : s.arena.Representable) (h : allocate r s = .ok address s') (fault : Fault) :
    ¬ s.Refuses r fault := by
  intro hrefuses
  have hout := allocation_allocate r s
  rw [h] at hout
  cases hout with
  | served halign hplace =>
      have hadmits := Arena.admits_of_place? hs halign hplace
      cases hrefuses <;> contradiction
  | @extended start source p halign hnone hoverflow hacquire hplace =>
      have hslab := Request.le_of_overflow?_eq_none hoverflow
      simp only [Chunk.bytes, Request.chunk] at hacquire
      rw [header_add_chunkCapacity halign] at hslab hacquire
      simp only [slabMax] at hslab
      cases hrefuses with
      | unaligned => contradiction
      | uncountable | oversized => omega
      | exhausted _ _ _ hnone => simp [hacquire] at hnone

/-- A request is turned down with the fault whose condition holds, and granted if none does. -/
theorem allocate_error_iff_refuses {r : Request} {s : Store σ} (hs : s.arena.Representable)
    (fault : Fault) : (∃ s', allocate r s = .error fault s') ↔ s.Refuses r fault := by
  constructor
  · rintro ⟨s', h⟩
    exact refuses_of_error hs h
  · intro hrefuses
    cases h : allocate r s with
    | ok address s' => exact absurd hrefuses (not_refuses_of_ok hs h fault)
    | error fault' s' => exact ⟨s', by rw [hrefuses.unique (refuses_of_error hs h)]⟩

theorem source_of_allocate_error {r : Request} {s s' : Store σ} {fault : Fault}
    (h : allocate r s = .error fault s') : s'.source = s.source := by
  have hout := allocation_allocate r s
  rw [h] at hout
  cases hout <;> rfl

end Store

end GrowArena

import GrowArena.Proofs.Arena.Parts
import GrowArena.Proofs.Arena.Placement
import GrowArena.Proofs.Workspace.Jobs

/-!
Single requests in any state that jobs lead to: where a granted one goes, and when one is turned
down. Both are said in exact numbers, for no chunk is larger than a source can be asked for.
-/

namespace GrowArena

variable {σ α : Type} [SlabSource σ]

namespace Store

omit [SlabSource σ] in
theorem Billed.representable {Owns : σ → List Slab → Prop} {s : Store σ}
    (h : s.Billed Owns [] []) : s.arena.Representable :=
  fun _ hc => h.capacity_le hc

/-- Where a granted request went: to the head, if that admits it, and otherwise to a chunk that was
made for it. What the chunk serves next without padding begins where the request ends. -/
structure Located (r : Request) (s : Store σ) (address : Nat) (s' : Store σ) : Prop where
  in_head : s.arena.Admits r → Passes r 1 s (.ok address s') ∧ s'.source = s.source ∧
    ∃ c, s.arena.Serves c r address s'.arena
  in_new : ¬ s.arena.Admits r → Passes r 2 s (.ok address s') ∧ ∃ c : Chunk, c.cursor = 0 ∧
    c.capacity = max s.arena.blockSize (r.bytes + r.alignment - 1) ∧
    SlabSource.acquire s.source c.bytes = some (c.start, s'.source) ∧
    (s.arena.extended c).Serves c r address s'.arena
  adjacent : ∀ bytes, s'.arena.Admits ⟨bytes, 1⟩ →
    ∃ s'', allocate ⟨bytes, 1⟩ s' = .ok (address + r.bytes) s''

theorem allocate_of_alignment {r : Request} (h : r.alignment ≠ 0) (s : Store σ) :
    allocate r s = serve r s := if_neg h

/-- A request that is not to be aligned goes right behind what the head served last. -/
theorem adjacent_of_serves {a : Arena} {c : Chunk} {r : Request} {address : Nat} {s : Store σ}
    (hserves : a.Serves c r address s.arena) (hs : s.arena.Representable) (bytes : Nat)
    (hadmits : s.arena.Admits ⟨bytes, 1⟩) :
    ∃ s', allocate ⟨bytes, 1⟩ s = .ok (address + r.bytes) s' := by
  obtain ⟨cursor, hstop, hchunks⟩ := hserves.moved
  have hhead : s.arena.head? = some { c with cursor } := by
    rw [Arena.head?, ← Array.getLast?_toList, hchunks, List.getLast?_concat]
  obtain ⟨p, hplace⟩ :=
    Option.isSome_iff_exists.mp ((Arena.isSome_place?_iff_admits hs Nat.one_ne_zero).mpr hadmits)
  have haddress : p.address = address + r.bytes := by
    have hp := hplace
    rw [Arena.place?, hhead, Option.bind_some, Chunk.place?_eq_some_iff] at hp
    obtain ⟨-, -, rfl⟩ := hp
    exact hstop
  have hserve := serve_of_some hplace
  rw [haddress] at hserve
  exact ⟨_, (allocate_of_alignment Nat.one_ne_zero s).trans hserve⟩

theorem located_of_ok {s s' : Store σ} {r : Request} {address : Nat}
    (hs : s.arena.Representable) (hs' : s'.arena.Representable)
    (h : allocate r s = .ok address s') : s.Located r address s' := by
  have hout := allocation_allocate r s
  rw [h] at hout
  cases hout with
  | @served p halign hplace =>
      obtain ⟨c, hserves⟩ := Arena.serves_take halign hplace
      refine ⟨fun _ => ⟨.served hplace, rfl, c, hserves⟩, ?_, adjacent_of_serves hserves hs'⟩
      exact fun hfull => absurd (Arena.admits_of_place? hs halign hplace) hfull
  | @extended start source p halign hnone hoverflow hacquire hplace =>
      have hextend := extend_of_acquire hoverflow hacquire
      have hpasses := passes_of_extend hnone hextend
      obtain ⟨c, hserves⟩ := Arena.serves_take halign hplace
      obtain rfl : r.chunk s.arena.blockSize start = c := by
        have hhead := hserves.head_eq
        simpa [Arena.head?, Arena.extended, Arena.install] using hhead
      refine ⟨fun hadmits => ?_, fun _ => ⟨?_, _, rfl, ?_, hacquire, hserves⟩,
        adjacent_of_serves hserves hs'⟩
      · exact absurd hadmits (Arena.not_admits_of_place? hs halign hnone)
      · rwa [← allocate_of_alignment halign, h] at hpasses
      · have hbytes := header_add_chunkCapacity halign s.arena.blockSize
        simp only [Chunk.header] at hbytes
        exact Nat.add_left_cancel hbytes

end Store

open Workspace

/-- In every state that jobs lead to, a granted request gets the least aligned address that the head
has room for, or a chunk of its own if it has none; the loop looks at a head twice at most. -/
theorem granted_requests_lie_at_least_address [Element α] (source : σ) (blockSize : Nat)
    (jobs : List (Job α)) :
    let s := (run jobs (ofArena (.ofBlockSize blockSize) source)).2.store
    s.arena.blockSize = max 1 blockSize ∧ ∀ r : Request,
      (∃ n ≤ 2, Store.Passes r n s (Store.serve r s)) ∧
      ∀ address s', Store.allocate r s = .ok address s' → s.Located r address s' := by
  intro s
  have hbilled : s.Billed (fun _ _ => True) [] [] :=
    billed_run SlabSource.tracked_true trivial blockSize jobs
  refine ⟨blockSize_run source blockSize jobs, fun r => ⟨Store.exists_passes r s, ?_⟩⟩
  intro address s' hallocate
  have hnext := (Store.books_billed SlabSource.tracked_true).allocate hbilled r
  rw [hallocate] at hnext
  exact Store.located_of_ok hbilled.representable (Store.Billed.representable hnext) hallocate

/-- A request that the head has no room for is granted in a chunk of its own. -/
theorem granted_request_gets_new_chunk :
    let s := (run [.command (.allocate ⟨60, 1⟩)]
      (ofArena (.ofBlockSize 64) {} : Workspace LinearHeap Value)).2.store
    ∃ address s', Store.allocate ⟨10, 48⟩ s = .ok address s' ∧ s'.arena.chunks.size = 2 ∧
      s.Located ⟨10, 48⟩ address s' := by
  intro s
  have hgranted : (match Store.allocate ⟨10, 48⟩ s with
      | .ok _ s' => s'.arena.chunks.size
      | .error _ _ => 0) = 2 := by
    decide +kernel
  cases hallocate : Store.allocate ⟨10, 48⟩ s with
  | error fault s' =>
      rw [hallocate] at hgranted
      cases hgranted
  | ok address s' =>
      rw [hallocate] at hgranted
      have hlies := granted_requests_lie_at_least_address (α := Value) ({} : LinearHeap) 64
        [.command (.allocate ⟨60, 1⟩)]
      exact ⟨address, s', rfl, hgranted, (hlies.2 _).2 address s' hallocate⟩

/-- In every state that jobs lead to, a request is turned down if and only if one of the exact
conditions holds, with the fault that goes with it, and a failure changes nothing but the log. -/
theorem requests_refused_exactly [Element α] (source : σ) (blockSize : Nat)
    (jobs : List (Job α)) :
    let s := (run jobs (ofArena (.ofBlockSize blockSize) source)).2.store
    s.arena.blockSize = max 1 blockSize ∧ ∀ r : Request,
      (∀ fault, (∃ s', Store.allocate r s = .error fault s') ↔ s.Refuses r fault) ∧
      ((∀ fault, ¬ s.Refuses r fault) → ∃ address s', Store.allocate r s = .ok address s') ∧
      ∀ fault s', Store.allocate r s = .error fault s' →
        s'.arena = s.arena ∧ s'.source = s.source := by
  intro s
  have hbilled : s.Billed (fun _ _ => True) [] [] :=
    billed_run SlabSource.tracked_true trivial blockSize jobs
  have hs : s.arena.Representable := hbilled.representable
  refine ⟨blockSize_run source blockSize jobs, fun r => ⟨?_, ?_, ?_⟩⟩
  · exact fun fault => Store.allocate_error_iff_refuses hs fault
  · intro hnone
    cases hallocate : Store.allocate r s with
    | ok address s' => exact ⟨address, s', rfl⟩
    | error fault s' => exact absurd (Store.refuses_of_error hs hallocate) (hnone fault)
  · intro fault s' hallocate
    exact ⟨Store.arena_of_allocate_error hallocate, Store.source_of_allocate_error hallocate⟩

/-- Requests at the ends of what sizes can express, and one that the heap refuses. -/
theorem refused_requests_at_the_limits :
    let s := (run [.command (.allocate ⟨60, 1⟩)]
      (ofArena (.ofBlockSize 64) {} : Workspace LinearHeap Value)).2.store
    s.Refuses ⟨2 ^ 64 - 1, 1⟩ .chunkBytes ∧ s.Refuses ⟨2 ^ 63 - 47, 1⟩ .chunkExtent ∧
      s.Refuses ⟨2 ^ 63 - 48, 1⟩ (.outOfMemory (2 ^ 63 - 48) 1 60 104) ∧
      (∃ address s', Store.allocate ⟨4, 1⟩ s = .ok address s') ∧
      ∀ s', Store.allocate ⟨2 ^ 63 - 48, 1⟩ s =
          .error (.outOfMemory (2 ^ 63 - 48) 1 60 104) s' →
        s'.arena = s.arena ∧ s'.source = s.source := by
  intro s
  have hexact := (requests_refused_exactly (α := Value) ({} : LinearHeap) 64
    [.command (.allocate ⟨60, 1⟩)]).2
  have hfault : ∀ r fault, (match Store.allocate r s with
      | .ok _ _ => none
      | .error fault _ => some fault) = some fault → s.Refuses r fault := by
    intro r fault hr
    refine ((hexact r).1 fault).mp ?_
    cases hallocate : Store.allocate r s with
    | ok address s' => simp [hallocate] at hr
    | error fault' s' =>
        obtain rfl : fault' = fault := by simpa [hallocate] using hr
        exact ⟨s', rfl⟩
  refine ⟨hfault _ _ (by decide +kernel), hfault _ _ (by decide +kernel),
    hfault _ _ (by decide +kernel), ?_, fun s' hallocate => (hexact _).2.2 _ s' hallocate⟩
  refine (hexact ⟨4, 1⟩).2.1 fun fault hrefuses => ?_
  obtain ⟨s', herror⟩ := ((hexact ⟨4, 1⟩).1 fault).mpr hrefuses
  have hgranted : (match Store.allocate ⟨4, 1⟩ s with
      | .ok _ _ => true
      | .error _ _ => false) = true := by
    decide +kernel
  rw [herror] at hgranted
  cases hgranted

end GrowArena

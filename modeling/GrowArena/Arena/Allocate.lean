import GrowArena.Arena.Basic
import GrowArena.Event

/-!
Allocation from an arena. A request is served from the head chunk if that has room; otherwise a
chunk made for the request is obtained from the source, installed as the head, and asked in turn.
A failure leaves the arena as it was.
-/

namespace GrowArena

/-- An arena with the source of its chunks and a log of what happened, oldest first. -/
structure Store (σ : Type) where
  source : σ
  arena : Arena
  log : Array Event := #[]

/-- Computations on a store that may fail. What they did before the failure stays done. -/
abbrev ArenaM (σ : Type) := EStateM Fault (Store σ)

namespace Store

variable {σ : Type}

def record (s : Store σ) (e : Event) : Store σ :=
  { s with log := s.log.push e }

def update (s : Store σ) (f : Arena → Arena) : Store σ :=
  { s with arena := f s.arena }

variable [SlabSource σ]

/-- Obtains a chunk made for the request and counts its bytes as allocated. It is not installed. -/
def obtain (r : Request) : ArenaM σ Chunk := fun s =>
  let capacity := r.chunkCapacity s.arena.blockSize
  let bytes := Chunk.header + capacity
  match r.overflow? s.arena.blockSize with
  | some fault => .error fault s
  | none =>
      match SlabSource.acquire s.source bytes with
      | some (start, source) =>
          .ok { start, capacity }
            { s with source, arena := { s.arena with allocated := s.arena.allocated + bytes } }
      | none =>
          .error (.outOfMemory r.bytes r.alignment s.arena.used s.arena.allocated)
            (s.record (.chunkRefused r.bytes bytes))

theorem chunk_of_obtain {r : Request} {s s' : Store σ} {c : Chunk} (h : obtain r s = .ok c s') :
    (c.place? r).isSome ∧ s'.arena.chunks = s.arena.chunks := by
  unfold obtain at h
  cases hoverflow : r.overflow? s.arena.blockSize with
  | some fault => simp [hoverflow] at h
  | none =>
      have hslab := Request.le_of_overflow?_eq_none hoverflow
      simp only [hoverflow] at h
      split at h
      · obtain ⟨rfl, rfl⟩ := EStateM.Result.ok.inj h
        refine ⟨Chunk.isSome_place?_of_hasRoom ?_ (Chunk.hasRoom_of_le (Nat.le_max_right ..)), rfl⟩
        simp only [Chunk.header, slabMax, wordMax] at hslab ⊢
        omega
      · cases h

/-- Installs an obtained chunk as the head of a chain that still has `observed` chunks. If the
chain has grown since, the chunk goes back to the source. -/
def settle (observed : Nat) (c : Chunk) (s : Store σ) : Store σ :=
  if s.arena.chunks.size = observed then
    (s.update (·.install c)).record (.chunkInstalled c.bytes)
  else
    { s with
      source := SlabSource.release s.source c.slab
      arena := { s.arena with allocated := s.arena.allocated - c.bytes } }

/-- Makes a chunk for the request the head. -/
def extend (r : Request) : ArenaM σ Unit := fun s =>
  let observed := s.arena.chunks.size
  match obtain r s with
  | .ok c s => .ok () (settle observed c s)
  | .error fault s => .error fault s

theorem place?_of_extend {r : Request} {s s' : Store σ} {u : Unit}
    (h : extend r s = .ok u s') : (s'.arena.place? r).isSome := by
  simp only [extend] at h
  split at h
  · rename_i c t hobtain
    obtain ⟨hplace, hchunks⟩ := chunk_of_obtain hobtain
    obtain ⟨-, rfl⟩ := EStateM.Result.ok.inj h
    rw [settle, if_pos (congrArg Array.size hchunks)]
    exact (Arena.place?_install t.arena c r).symm ▸ hplace
  · cases h

/-- Serves the request from the head, as often as it takes a new head first. -/
def serve (r : Request) (s : Store σ) : EStateM.Result Fault (Store σ) Nat :=
  match _hplace : s.arena.place? r with
  | some p => .ok p.address (s.update (·.take p r))
  | none =>
      match _h : extend r s with
      | .ok _ s' => serve r s'
      | .error fault s' => .error fault s'
termination_by if (s.arena.place? r).isSome then 0 else 1
decreasing_by simp [_hplace, place?_of_extend _h]

def allocate (r : Request) : ArenaM σ Nat := fun s =>
  if r.alignment = 0 then .error (.invalidAlignment 0) s else serve r s

/-- Gives every chunk back to the source, newest first, and forgets what was handed out. -/
def rewind (s : Store σ) : Store σ :=
  let chunks := s.arena.chunks
  { source := chunks.foldr (fun c source => SlabSource.release source c.slab) s.source
    arena := s.arena.emptied
    log :=
      if chunks.isEmpty then s.log
      else s.log.push (.rewound chunks.size s.arena.used s.arena.allocated) }

end Store

end GrowArena

import GrowArena.Proofs.Workspace.Jobs
import GrowArena.Proofs.Workspace.Shift

/-!
A rewound workspace is as good as a new one. What is left of its past is where the heap goes on, and
that shows in nothing but addresses.
-/

namespace GrowArena

variable {α : Type} [Element α]

theorem LinearHeap.grain_dvd_roundUp (address : Nat) : grain ∣ roundUp address :=
  Nat.dvd_mul_left ..

namespace Workspace

theorem run_append {σ : Type} [SlabSource σ] (jobs more : List (Job α)) (w : Workspace σ α) :
    (run (jobs ++ more) w).2 = (run more (run jobs w).2).2 := by
  induction jobs generalizing w with
  | nil => rfl
  | cons job jobs ih =>
      simp only [List.cons_append, run]
      exact ih (step job w).2

/-- A rewind leaves nothing but where the heap goes on: no slab is out, and every place in the heap
is as far from any other as slabs can be apart. -/
theorem shifted_of_rewound (blockSize limit cursor cursor' : Nat) (history : List (Job α)) :
    let w : Workspace LinearHeap α := ofArena (.ofBlockSize blockSize) { cursor, limit }
    let rewound := (run (history ++ [.command .rewind]) w).2
    let fresh : Workspace LinearHeap α :=
      ofArena (.ofBlockSize blockSize) { cursor := cursor', limit }
    ∃ d : Int, fresh.quieted.Shifted d rewound.quieted := by
  intro w rewound fresh
  have hcleared : rewound = (run history w).2.quieted.clear := run_append ..
  have hblockSize : rewound.store.arena.blockSize = max 1 blockSize :=
    blockSize_run _ blockSize (history ++ [.command .rewind])
  have hbilled : rewound.store.Billed (LinearHeap.Carries limit) [] [] :=
    billed_run (LinearHeap.tracked_carries limit) ⟨rfl, rfl⟩ blockSize _
  -- What the heap has out is what the chunks occupy, and the last rewind gave all of them back.
  have hheap : rewound.store.source.live = 0 ∧ rewound.store.source.limit = limit := by
    have howns := hbilled.owns
    rw [hcleared] at howns ⊢
    exact howns
  have hstore : fresh.quieted.store.Shifted
      (LinearHeap.roundUp rewound.store.source.cursor - LinearHeap.roundUp cursor')
      rewound.quieted.store := by
    refine ⟨⟨?_, (add_sub_cancel _ _).symm, hheap.1, hheap.2⟩, ⟨hblockSize, ?_, ?_, ?_, ?_⟩, rfl⟩
    · exact dvd_sub (Int.natCast_dvd_natCast.mpr (LinearHeap.grain_dvd_roundUp _))
        (Int.natCast_dvd_natCast.mpr (LinearHeap.grain_dvd_roundUp _))
    all_goals rw [hcleared]
    · exact .nil
    · rfl
    · rfl
    · exact .nil
  refine ⟨_, hstore, ?_, ?_, ?_, rfl⟩ <;> rw [hcleared]
  · exact .nil
  · rfl
  · rfl

end Workspace

open Workspace in
/-- After any history that ends in a rewind, an arena is as good as a new one of the same block size
over a heap with the same limit, wherever in memory the new one begins. Whatever jobs follow, as
long as the alignments that they name divide the grain of the heap, they come in both to the same
answers, the same failures and the same events, and after any number of them the counters and the
arrays, readers and references are the same. All addresses are apart by one multiple of the grain,
whatever follows. -/
theorem rewound_workspace_is_as_new (blockSize limit cursor cursor' : Nat)
    (history : List (Job α)) :
    let w : Workspace LinearHeap α := ofArena (.ofBlockSize blockSize) { cursor, limit }
    let rewound := (run (history ++ [.command .rewind]) w).2
    let fresh : Workspace LinearHeap α :=
      ofArena (.ofBlockSize blockSize) { cursor := cursor', limit }
    ∃ d : Int, (LinearHeap.grain : Int) ∣ d ∧
      ∀ later : List (Job α),
        (∀ job ∈ later, ∀ alignment ∈ job.alignments, alignment ∣ LinearHeap.grain) →
          List.Forall₂ (Outcome.Shifted d) (run later fresh).1 (run later rewound).1 ∧
          (run later rewound).2.counters = (run later fresh).2.counters ∧
          (run later rewound).2.arrays = (run later fresh).2.arrays ∧
          (run later rewound).2.readers = (run later fresh).2.readers ∧
          (run later rewound).2.references = (run later fresh).2.references ∧
          List.Forall₂ (Grant.Shifted d) (run later fresh).2.store.arena.grants
            (run later rewound).2.store.arena.grants := by
  intro w rewound fresh
  obtain ⟨d, hstart⟩ := shifted_of_rewound blockSize limit cursor cursor' history
  have hd : (LinearHeap.grain : Int) ∣ d := hstart.store.source.grain_dvd
  refine ⟨d, hd, ?_⟩
  intro later hlater
  have hdvd : ∀ job ∈ later, ∀ alignment ∈ job.alignments, (alignment : Int) ∣ d :=
    fun job hjob alignment halignment =>
      (Int.natCast_dvd_natCast.mpr (hlater job hjob alignment halignment)).trans hd
  obtain ⟨houtcomes, hlast⟩ := hstart.run hdvd
  exact ⟨houtcomes, hlast.counters_eq, hlast.arrays_eq, hlast.readers_eq, hlast.references_eq,
    hlast.store.arena.grants⟩

/-- What follows on a rewind that gave back two chunks: a typed array that outgrows its first node,
a race that runs out of memory, and a request that can never be served. -/
theorem rewound_workspace_on_tight_heap_is_as_new :
    let w : Workspace LinearHeap Value := .ofArena (.ofBlockSize 64) { limit := 512 }
    let rewound := (w.run [.command (.makePacked "b" .standard), .command (.allocate ⟨200, 32⟩),
      .command .rewind]).2
    let fresh : Workspace LinearHeap Value :=
      .ofArena (.ofBlockSize 64) { cursor := 0, limit := 512 }
    let later : List (Job Value) :=
      [.command (.allocate ⟨10, 16⟩), .command (.makeTyped "a" .long ⟨2, .threeHalves⟩),
        .command (.push "a" [.natural 7, .natural 8, .natural 9]),
        .raceAllocate [[⟨3, 2⟩], [⟨5, 4⟩, ⟨8, 8⟩]] [0, 1, 1, 0, 1], .command (.allocate ⟨512, 1⟩)]
    (∀ job ∈ later, ∀ alignment ∈ job.alignments, alignment ∣ LinearHeap.grain) ∧
      ∃ d : Int, (LinearHeap.grain : Int) ∣ d ∧
        List.Forall₂ (Outcome.Shifted d) (fresh.run later).1 (rewound.run later).1 := by
  intro w rewound fresh later
  have hlater : ∀ job ∈ later, ∀ alignment ∈ job.alignments, alignment ∣ LinearHeap.grain := by
    decide
  obtain ⟨d, hd, hrun⟩ := rewound_workspace_is_as_new (α := Value) 64 512 heapBase 0
    [.command (.makePacked "b" .standard), .command (.allocate ⟨200, 32⟩)]
  exact ⟨hlater, d, hd, (hrun later hlater).1⟩

/-- An alignment beyond the grain can cost another padding in a rewound arena, and so a chunk. -/
example :
    let fresh : Workspace LinearHeap Value := .ofArena (.ofBlockSize 64) {}
    let rewound := (fresh.run [.command (.allocate ⟨1, 64⟩), .command .rewind]).2
    let later := [.command (.allocate ⟨1, 64⟩), .command (.allocate ⟨36, 1⟩)]
    (fresh.run later).2.counters = ⟨37, 104, 1⟩ ∧
      (rewound.run later).2.counters = ⟨37, 208, 2⟩ := by
  decide +kernel

end GrowArena

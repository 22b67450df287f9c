import GrowArena.Proofs.Arena.Charges
import GrowArena.Proofs.Workspace.Jobs
import GrowArena.Proofs.Workspace.Tables

/-!
No counter leaves 64 bits. What is live in the arrays has been paid for with bytes of the arena,
these lie in chunks, and the chunks in slabs that are out; so a bound on the slabs bounds every sum,
in every state that jobs lead to and in the middle of any job.
-/

namespace GrowArena

variable {σ τ α : Type}

namespace Holding

def charge : Holding α → Nat
  | typed _ a => a.chain.charge
  | packed a => a.chain.charge

/-- The nodes are within their capacities. -/
def Bounded : Holding α → Prop
  | typed _ a => ∀ n ∈ a.chain.nodes.toList, n.Bounded
  | packed a => ∀ n ∈ a.chain.nodes.toList, n.Bounded

/-- The store has paid for the array, beside what has cost `rest`. -/
def Afforded (rest : Nat) (state : Store σ × Holding α) : Prop :=
  state.2.Bounded ∧ rest + state.2.charge ≤ state.1.arena.used

theorem afforded_typed_iff {rest : Nat} {s : Store σ} {kind : Kind} {a : TypedArray α} :
    Afforded rest (s, typed kind a) ↔ TypedArray.Afforded rest (s, a) :=
  ⟨fun h => ⟨h.1, h.2⟩, fun h => ⟨h.nodes, h.charge_le⟩⟩

theorem afforded_packed_iff {rest : Nat} {s : Store σ} {a : PackedArray} :
    Afforded rest (s, (packed a : Holding α)) ↔ PackedArray.Afforded rest (s, a) :=
  ⟨fun h => ⟨h.1, h.2⟩, fun h => ⟨h.nodes, h.charge_le⟩⟩

variable [SlabSource σ] [Element α] {rest : Nat} {s : Store σ} {h : Holding α}

theorem afforded_pushAll (values : List α) (haff : Afforded rest (s, h)) :
    Afforded rest (finalState (pushAll values (s, h))) := by
  cases h with
  | typed kind a =>
      rw [finalState_pushAll_typed, afforded_typed_iff]
      exact pushEach_induct (fun value _ => TypedArray.afforded_push value) values
        (afforded_typed_iff.mp haff)
  | packed a =>
      rw [finalState_pushAll_packed, afforded_packed_iff]
      exact pushEach_induct (fun word _ => PackedArray.afforded_push word) _
        (afforded_packed_iff.mp haff)

theorem afforded_racing (values : List (List α)) (schedule : Schedule)
    (haff : Afforded rest (s, h)) : Afforded rest (racing values schedule (s, h)) := by
  cases h with
  | typed kind a =>
      refine afforded_typed_iff.mpr ?_
      apply racing_induct (P := TypedArray.Afforded rest) _ _ values schedule
        (afforded_typed_iff.mp haff)
      · intro value now hnow
        have hclaim := TypedArray.afforded_claim hnow
        simp only [Staged.claim]
        cases hresult : TypedArray.claim now <;> rwa [hresult] at hclaim
      · exact fun p now hnow => TypedArray.afforded_complete hnow p.1 p.2
  | packed a =>
      refine afforded_packed_iff.mpr ?_
      apply racing_induct (P := PackedArray.Afforded rest) _ _ _ schedule
        (afforded_packed_iff.mp haff)
      · intro word now hnow
        have hreserve := PackedArray.afforded_reserve
          (PackedArray.length_encode_le_margin word) hnow
        simp only [Staged.claim]
        cases hresult : PackedArray.reserve (Leb128.encode word).length now <;>
          rwa [hresult] at hreserve
      · intro p now hnow
        simp only [Staged.proceed, PackedArray.proceed]
        split
        · exact PackedArray.afforded_store hnow _ _ _
        · exact PackedArray.afforded_finish hnow _

end Holding

namespace Table

/-- The store has paid for all the arrays together. -/
structure Afforded (s : Store σ) (arrays : Table (Holding α)) : Prop where
  bounded : ∀ entry ∈ arrays, entry.2.Bounded
  charge_le : (arrays.map fun entry => entry.2.charge).sum ≤ s.arena.used

namespace Afforded

variable {s s' : Store σ} {arrays : Table (Holding α)} {name : String} {h h' : Holding α}

theorem mono (haff : Afforded s arrays) (hused : s.arena.used ≤ s'.arena.used) :
    Afforded s' arrays :=
  ⟨haff.bounded, Nat.le_trans haff.charge_le hused⟩

theorem concat (haff : Afforded s arrays)
    (hnew : Holding.Afforded (arrays.map fun entry => entry.2.charge).sum (s', h)) :
    Afforded s' (arrays ++ [(name, h)]) := by
  refine ⟨List.forall_mem_append.mpr ⟨haff.bounded, List.forall_mem_singleton.mpr hnew.1⟩, ?_⟩
  rw [List.map_append, List.sum_append]
  exact hnew.2

/-- An array goes on at the cost of the store, whatever the others have cost. -/
theorem set (haff : Afforded s arrays) (hfind : arrays.find? name = some h)
    (hnext : ∀ rest, Holding.Afforded rest (s, h) → Holding.Afforded rest (s', h')) :
    Afforded s' (arrays.set name h') := by
  obtain ⟨before, after, rfl, -, hset⟩ := exists_split_of_find? hfind
  obtain ⟨hbounded, hcharge⟩ := haff
  obtain ⟨hbefore, hothers⟩ := List.forall_mem_append.mp hbounded
  obtain ⟨hthis, hafter⟩ := List.forall_mem_cons.mp hothers
  simp only [List.map_append, List.map_cons, List.sum_append, List.sum_cons] at hcharge
  obtain ⟨hbounded', hcharge'⟩ := hnext
    ((before.map fun entry => entry.2.charge).sum + (after.map fun entry => entry.2.charge).sum)
    ⟨hthis, by dsimp only; omega⟩
  rw [hset]
  refine ⟨List.forall_mem_append.mpr ⟨hbefore, List.forall_mem_cons.mpr ⟨hbounded', hafter⟩⟩, ?_⟩
  simp only [List.map_append, List.map_cons, List.sum_append, List.sum_cons]
  dsimp only at hcharge'
  omega

theorem remove (haff : Afforded s arrays) (hfind : arrays.find? name = some h) :
    Afforded s (arrays.remove name) := by
  obtain ⟨before, after, rfl, hremove, -⟩ := exists_split_of_find? hfind
  obtain ⟨hbounded, hcharge⟩ := haff
  obtain ⟨hbefore, hothers⟩ := List.forall_mem_append.mp hbounded
  rw [hremove]
  refine ⟨List.forall_mem_append.mpr ⟨hbefore, (List.forall_mem_cons.mp hothers).2⟩, ?_⟩
  simp only [List.map_append, List.map_cons, List.sum_append, List.sum_cons] at hcharge ⊢
  omega

end Afforded

end Table

namespace Workspace

variable [SlabSource σ] [Element α]

theorem afforded_of_effect {w w' : Workspace σ α} {c : Command α}
    {result : Except Failure (Answer α)} (heffect : Effect w c result w')
    (haff : Table.Afforded w.store w.arrays) : Table.Afforded w'.store w'.arrays := by
  cases heffect with
  | nothing | missedPush | missedDrop | missedOpen | missedCopy | missedRead => exact haff
  | opened | copied | moved => exact haff
  | granted _ hallocate _ hstore harrays =>
      rw [harrays, hstore]
      exact haff.mono (Store.Calls.none.served hallocate).leads.used_le
  | denied _ hallocate hstore harrays =>
      rw [harrays, hstore]
      exact haff.mono (Store.Calls.none.failed hallocate).leads.used_le
  | @madeTyped array kind growth a s hcreate =>
      exact haff.concat (Holding.afforded_typed_iff.mpr
        (TypedArray.afforded_create haff.charge_le hcreate))
  | @madePacked array growth a s hcreate =>
      exact haff.concat (Holding.afforded_packed_iff.mpr
        (PackedArray.afforded_create haff.charge_le hcreate))
  | @failedTyped array kind growth fault s hcreate =>
      have hleads := (TypedArray.calls_create (α := α) kind.footprint growth w.store).leads
      rw [hcreate] at hleads
      exact haff.mono hleads.used_le
  | @failedPacked array growth fault s hcreate =>
      have hleads := (PackedArray.calls_create growth w.store).leads
      rw [hcreate] at hleads
      exact haff.mono hleads.used_le
  | @pushed array values h h' s u hfind hpush | @refused array values h h' s refusal hfind hpush =>
      refine haff.set hfind fun rest hrest => ?_
      have hpushed := Holding.afforded_pushAll values hrest
      rwa [hpush] at hpushed
  | dropped hfind => exact haff.remove hfind
  | cleared => exact ⟨nofun, Nat.le_refl _⟩

/-- What is live in the arrays is paid for in every state that jobs lead to. -/
theorem afforded_run (source : σ) (blockSize : Nat) (jobs : List (Job α)) :
    let w := (run jobs (ofArena (.ofBlockSize blockSize) source)).2
    Table.Afforded w.store w.arrays := by
  apply run_induct (P := fun w => Table.Afforded w.store w.arrays)
  · exact fun w haff => haff.mono (Nat.le_refl _)
  · intro w w' hleft haff
    cases hleft with
    | commanded heffect => exact afforded_of_effect heffect haff
    | racedForMemory requests schedule =>
        exact haff.mono ((Store.books_used_le w.store.arena.used).raceAllocate (Nat.le_refl _)
          requests schedule)
    | @racedForArray array h h' s values schedule hfind hrace =>
        refine haff.set hfind fun rest hrest => ?_
        have hraced := Holding.afforded_racing values schedule hrest
        rwa [hrace] at hraced
    | missed => exact haff
  · exact ⟨nofun, Nat.le_refl _⟩

end Workspace

/-- The slabs that are out have no more than 2⁶⁴ - 1 bytes, and none passes the end of the address
space. -/
structure Metered.Bounded (m : Metered τ) : Prop where
  outstanding_le : slabBytes m.obtained ≤ slabBytes m.returned + (2 ^ 64 - 1)
  stop_le : ∀ slab ∈ m.obtained, slab.start + slab.bytes ≤ 2 ^ 64 - 1

/-- No sum over the arena leaves 64 bits. -/
structure Arena.InWords (a : Arena) : Prop where
  used_lt : a.used < 2 ^ 64
  allocated_lt : a.allocated < 2 ^ 64
  cursor_lt : ∀ c ∈ a.chunks.toList, c.data + c.cursor < 2 ^ 64
  served_lt : ∀ c ∈ a.chunks.toList, ∀ r p, c.place? r = some p →
    c.cursor + padding (c.data + c.cursor) r.alignment < 2 ^ 64

/-- No sum over the array leaves 64 bits: a further claim is counted, a further code reserved, and
the extents of the nodes are added up. -/
def Holding.InWords : Holding α → Prop
  | typed _ a => (∀ n ∈ a.chain.nodes.toList, n.claim.claims < 2 ^ 64) ∧ a.size < 2 ^ 64
  | packed a =>
      (∀ n ∈ a.chain.nodes.toList, ∀ word, n.cells.size + (Leb128.encode word).length < 2 ^ 64) ∧
        a.byteSize < 2 ^ 64

/-- What the arrays hold, and a record for each of their nodes, is within what is used, and that
within what is allocated. If the slabs are bounded, so is every sum. -/
structure Store.Measured (s : Store (Metered τ)) (arrays : Table (Holding α)) : Prop where
  extents_le : (arrays.map fun entry => entry.2.size + 48 * entry.2.capacities.length).sum ≤
    s.arena.used
  used_le : s.arena.used ≤ s.arena.allocated
  arena_in_words : s.source.Bounded → s.arena.InWords
  arrays_in_words : s.source.Bounded → ∀ entry ∈ arrays, entry.2.InWords

namespace Store

variable {held : List Chunk} {uncounted : List Grant} {s : Store (Metered τ)}

theorem arena_in_words_of_billed (hbilled : s.Billed Metered.Lists held uncounted)
    (hbounded : s.source.Bounded) : s.arena.InWords := by
  have hallocated : s.arena.allocated ≤ 2 ^ 64 - 1 := by
    have hsum := hbilled.owns.slabBytes_eq
    have hout := hbounded.outstanding_le
    rw [hbilled.allocated_eq]
    omega
  have hused := hbilled.used_add_headers_le
  refine ⟨by omega, by omega, ?_, ?_⟩
  · intro c hc
    have hobtained : c.slab ∈ s.source.obtained := by
      refine hbilled.owns.mem_iff.mpr (List.mem_append_left _ ?_)
      exact List.mem_map_of_mem (List.mem_append_right _ hc)
    have hstop := hbounded.stop_le c.slab hobtained
    have hcursor := hbilled.cursor_le c hc
    simp only [Chunk.slab, Chunk.bytes, Chunk.data] at hstop ⊢
    omega
  · intro c hc r p hplace
    have hroom := (Chunk.place?_eq_some_iff.mp hplace).1
    have hcapacity := hbilled.capacity_le hc
    simp only [Chunk.HasRoom, Chunk.offset, wordMax] at hroom hcapacity
    omega

end Store

namespace Holding

theorem size_add_records_le {h : Holding α} (hbounded : h.Bounded) :
    h.size + 48 * h.capacities.length ≤ h.charge := by
  cases h with
  | typed kind a =>
      refine Chain.extent_add_records_le fun n hn => ?_
      have hn := hbounded n hn
      exact Nat.le_trans hn.published_le (Nat.le_trans hn.slots_le hn.claims_le)
  | packed a => exact Chain.extent_add_records_le fun n hn => (hbounded n hn).published_le

/-- An array that costs less than 2⁶⁴ bytes counts less. -/
theorem in_words_of_charge {h : Holding α} (hbounded : h.Bounded) (hcharge : h.charge < 2 ^ 64) :
    h.InWords := by
  have hsize := size_add_records_le hbounded
  cases h with
  | typed kind a =>
      refine ⟨fun n hn => ?_, Nat.lt_of_le_of_lt (Nat.le_of_add_right_le hsize) hcharge⟩
      have hcapacity := Chain.capacity_add_record_le hn
      have hclaims := (hbounded n hn).claims_le
      simp only [charge, nodeRecord, Segment.capacity] at hcharge hcapacity
      simp only [TypedNode.claim]
      omega
  | packed a =>
      refine ⟨fun n hn word => ?_, Nat.lt_of_le_of_lt (Nat.le_of_add_right_le hsize) hcharge⟩
      have hcapacity := Chain.capacity_add_record_le hn
      have hcells := (hbounded n hn).cells_le
      have hwidth := PackedArray.length_encode_le_margin word
      simp only [charge, nodeRecord, Segment.capacity] at hcharge hcapacity
      simp only [PackedNode.margin] at hwidth
      omega

end Holding

theorem Store.measured_of_afforded {held : List Chunk} {uncounted : List Grant}
    {s : Store (Metered τ)} {arrays : Table (Holding α)}
    (hbilled : s.Billed Metered.Lists held uncounted) (haff : Table.Afforded s arrays) :
    s.Measured arrays := by
  have hused := hbilled.used_add_headers_le
  refine ⟨?_, by omega, arena_in_words_of_billed hbilled, ?_⟩
  · refine Nat.le_trans (List.sum_le_sum fun entry hentry => ?_) haff.charge_le
    exact Holding.size_add_records_le (haff.bounded entry hentry)
  · intro hbounded entry hentry
    refine Holding.in_words_of_charge (haff.bounded entry hentry) ?_
    have hcharge : entry.2.charge ≤ (arrays.map fun entry => entry.2.charge).sum :=
      List.le_sum_of_mem (List.mem_map_of_mem hentry)
    have hwords := (arena_in_words_of_billed hbilled hbounded).used_lt
    have hall := haff.charge_le
    omega

open Workspace

/-- No counter wraps, at whatever moment of whatever run: between jobs and in the middle of a
command; in a race for memory; and in a race of writers for an array. -/
theorem counters_never_wrap [SlabSource τ] [Element α] (source : τ) (blockSize : Nat)
    (jobs : List (Job α)) :
    let w := (run jobs (ofArena (.ofBlockSize blockSize) ({ source } : Metered τ))).2
    (∀ s, w.store.Leads s → s.Measured w.arrays) ∧
      (∀ (requests : List (List Request)) (schedule : Schedule),
        let race := schedule.run Caller.turn (requests.map fun todo => { todo }) w.store
        race.2.Measured w.arrays) ∧
      ∀ array h, w.arrays.find? array = some h → ∀ values schedule,
        let state := Holding.racing values schedule (w.store, h)
        ∀ s, state.1.Leads s → s.Measured (w.arrays.set array state.2) := by
  intro w
  have hbooks := Store.books_billed (Metered.tracked_lists (τ := τ))
  have hnew : Metered.Lists ({ source } : Metered τ) [] := .refl _
  have hbilled : w.store.Billed Metered.Lists [] [] :=
    billed_run Metered.tracked_lists hnew blockSize jobs
  have haff : Table.Afforded w.store w.arrays := afforded_run _ blockSize jobs
  refine ⟨fun s hleads => ?_, fun requests schedule => ?_, ?_⟩
  · exact Store.measured_of_afforded (hbooks.leads hleads hbilled) (haff.mono hleads.used_le)
  · have hraced := (Store.Raced.start hbilled requests).run hbooks schedule
    have hused := (Store.Raced.start (Nat.le_refl w.store.arena.used) requests).run
      (Store.books_used_le w.store.arena.used) schedule
    exact Store.measured_of_afforded hraced.books (haff.mono hused.books)
  · intro array h hfind values schedule state s hleads
    have hrace : w.store.Leads state.1 := Holding.leads_racing values schedule (w.store, h)
    have hset : Table.Afforded state.1 (w.arrays.set array state.2) :=
      haff.set hfind fun rest hrest => Holding.afforded_racing values schedule hrest
    exact Store.measured_of_afforded (hbooks.leads (hrace.trans hleads) hbilled)
      (hset.mono hleads.used_le)

/-- Elements without bytes are counted by their marks. -/
theorem counters_of_linear_heap_never_wrap :
    let w := (run [.command (.makeTyped "a" .unit .standard), .command (.makePacked "b" .standard),
        .command (.push "a" [.unit, .unit, .unit]),
        .racePush "b" [[.natural 300], [.natural 7]] [0, 1, 0, 1]]
      (ofArena (.ofBlockSize 64) { source := {} } : Workspace (Metered LinearHeap) Value)).2
    w.store.source.Bounded ∧ w.arrays.map (fun entry => entry.2.size) = [3, 3] ∧
      w.store.arena.InWords ∧ ∀ entry ∈ w.arrays, entry.2.InWords := by
  intro w
  have hbounded : w.store.source.Bounded := ⟨by decide +kernel, by decide +kernel⟩
  have hmeasured := (counters_never_wrap (α := Value) ({} : LinearHeap) 64 _).1 w.store (.refl _)
  exact ⟨hbounded, by decide +kernel, hmeasured.arena_in_words hbounded,
    hmeasured.arrays_in_words hbounded⟩

end GrowArena

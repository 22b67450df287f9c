import GrowArena.Proofs.Arena.Accounting
import GrowArena.Proofs.Arena.Nodes
import GrowArena.Proofs.Workspace.Perform
import GrowArena.Proofs.Workspace.Tables
import Mathlib.Data.List.Perm.Subperm

/-!
The memory of a workspace. Every command but a rewind asks its arena for memory and does nothing
else to it. The ranges that it returns are known from its answer, or are those of the nodes that it
asks for; what is said of memory is said of these ranges. What allocations and rewinds keep true of
a store is true in every state that commands lead to: ranges do not overlap, and the books are
right.
-/

namespace GrowArena

variable {σ α : Type} [SlabSource σ] [Element α]

namespace Holding

/-- The ranges that are returned when values are pushed onto the array, up to the first that is
refused. -/
def pushRanges (values : List α) (s : Store σ) : Holding α → List Grant
  | typed _ a => rangesOfEach TypedArray.push TypedArray.pushRanges values (s, a)
  | packed a =>
      rangesOfEach PackedArray.push PackedArray.pushRanges (values.map Element.toWord) (s, a)

theorem calls_pushAll (values : List α) (s : Store σ) (h : Holding α) :
    s.Calls (h.pushRanges values s) (finalState (pushAll values (s, h))).1 := by
  cases h with
  | typed kind a =>
      rw [finalState_pushAll_typed]
      exact calls_pushEach TypedArray.calls_push values (s, a)
  | packed a =>
      rw [finalState_pushAll_packed]
      exact calls_pushEach PackedArray.calls_push (values.map Element.toWord) (s, a)

/-- What was asked for for the nodes of the array, node after node. -/
def parts : Holding α → List Request
  | typed _ a => a.parts
  | packed a => a.parts

theorem parts_pushAll (values : List α) (s : Store σ) (h : Holding α) :
    (finalState (pushAll values (s, h))).2.parts.Sublist
      (h.parts ++ (h.pushRanges values s).map Grant.request) := by
  cases h with
  | typed kind a =>
      rw [finalState_pushAll_typed]
      exact parts_pushEach TypedArray.parts_push values (s, a)
  | packed a =>
      rw [finalState_pushAll_packed]
      exact parts_pushEach PackedArray.parts_push (values.map Element.toWord) (s, a)

end Holding

namespace Command

omit [Element α] in
/-- The range that a command with this result names in its answer. -/
def range? (c : Command α) (result : Except Failure (Answer α)) : Option Grant :=
  match c.request?, result with
  | some r, .ok answer => answer.address?.map (⟨·, r⟩)
  | _, _ => none

/-- The ranges that a command with this result returns, oldest first: the one that it names in its
answer, or those of the parts of nodes. -/
def returned (w : Workspace σ α) (result : Except Failure (Answer α)) : Command α → List Grant
  | .makeTyped _ kind g => TypedArray.createRanges kind.footprint g w.store
  | .makePacked _ g => PackedArray.createRanges g w.store
  | .push array contents => (w.arrays.find? array).elim [] (·.pushRanges contents w.store)
  | c => (c.range? result).toList

/-- The ranges returned since the last rewind, with those of a further command. -/
def returnedAfter (ranges : List Grant) (w : Workspace σ α) (result : Except Failure (Answer α)) :
    Command α → List Grant
  | .rewind => []
  | c => ranges ++ c.returned w result

theorem returned_of_request? {c : Command α} {r : Request} (h : c.request? = some r)
    (w : Workspace σ α) (result : Except Failure (Answer α)) :
    c.returned w result = (c.range? result).toList := by
  cases c <;> first | rfl | cases h

theorem returned_of_keepsArrays {c : Command α} (hrequest : c.request? = none)
    (h : c.keepsArrays = true) (w : Workspace σ α) (result : Except Failure (Answer α)) :
    c.returned w result = [] := by
  cases c with
  | makeTyped | makePacked | push => cases h
  | allocate | keep | keepMany | keepText => cases hrequest
  | _ => rfl

theorem returnedAfter_of_ne {c : Command α} (h : c ≠ .rewind) (ranges : List Grant)
    (w : Workspace σ α) (result : Except Failure (Answer α)) :
    c.returnedAfter ranges w result = ranges ++ c.returned w result := by
  cases c <;> first | rfl | exact absurd rfl h

end Command

namespace Workspace

/-- Commands other than a rewind do nothing to a store but to ask for memory, and return these
ranges. -/
theorem calls_of_effect {w w' : Workspace σ α} {c : Command α}
    {result : Except Failure (Answer α)} (h : Effect w c result w') (hc : c ≠ .rewind) :
    w.store.Calls (c.returned w result) w'.store := by
  cases h with
  | nothing hrequest harrays _ =>
      rw [Command.returned_of_keepsArrays hrequest harrays]
      exact .none
  | @granted _ _ r answer address _ hrequest hallocate hanswer hstore =>
      have hrange : c.range? (.ok answer) = some ⟨address, r⟩ := by
        simp [Command.range?, hrequest, hanswer]
      rw [Command.returned_of_request? hrequest, hrange, hstore]
      exact Store.Calls.none.served hallocate
  | @denied _ _ r fault _ hrequest hallocate hstore =>
      have hnone : c.range? (.error (.fault fault)) = none := by
        simp [Command.range?, hrequest]
      rw [Command.returned_of_request? hrequest, hnone, hstore]
      exact .failed .none hallocate
  | @madeTyped array kind growth a s hcreate | @failedTyped array kind growth a s hcreate =>
      have hcalls := TypedArray.calls_create (α := α) kind.footprint growth w.store
      rwa [hcreate] at hcalls
  | @madePacked array growth a s hcreate | @failedPacked array growth a s hcreate =>
      have hcalls := PackedArray.calls_create growth w.store
      rwa [hcreate] at hcalls
  | @pushed array values h h' s u hfind hpush | @refused array values h h' s refusal hfind hpush =>
      have hcalls := Holding.calls_pushAll values w.store h
      rw [hpush] at hcalls
      rw [Command.returned, hfind]
      exact hcalls
  | missedPush hfind =>
      rw [Command.returned, hfind]
      exact .none
  | dropped | opened | copied | moved => exact .none
  | missedDrop | missedOpen | missedCopy | missedRead => exact .none
  | cleared => exact absurd rfl hc

/-- What is kept true of a store by every allocation and every rewind, whatever is recorded, is true
after every run. -/
theorem store_induct {P : Store σ → Prop} (hlog : ∀ s log, P s → P { s with log })
    (hallocate : ∀ r s, P s → P (finalState (Store.allocate r s)))
    (hrewind : ∀ s, P s → P s.rewind) (commands : List (Command α)) {w : Workspace σ α}
    (h : P w.store) : P (w.runCommands commands).store := by
  induction commands generalizing w with
  | nil => exact h
  | cons c commands ih =>
      rw [runCommands_cons]
      apply ih
      have hquiet : P w.quieted.store := hlog w.store #[] h
      by_cases hc : c = .rewind
      · subst hc
        exact hrewind w.quieted.store hquiet
      · exact (calls_of_effect (effect_perform c w.quieted) hc).leads.induct hlog hallocate hquiet

theorem leads_runCommands (commands : List (Command α)) (hcommands : ∀ c ∈ commands, c ≠ .rewind)
    (w : Workspace σ α) : w.store.Leads (w.runCommands commands).store := by
  induction commands generalizing w with
  | nil => exact .refl _
  | cons c commands ih =>
      rw [runCommands_cons]
      have hquiet : w.store.Leads w.quieted.store := (Store.Leads.refl w.store).logged #[]
      have hfirst := (calls_of_effect (effect_perform c w.quieted)
        (hcommands c List.mem_cons_self)).leads
      have hrest := ih (fun d hd => hcommands d (List.mem_cons_of_mem _ hd))
        (finalState (perform c w.quieted))
      exact (hquiet.trans hfirst).trans hrest

theorem orderly_of_new {Owns : σ → List Slab → Prop} (hsource : SlabSource.Exclusive Owns)
    {source : σ} (hnew : Owns source []) (blockSize : Nat) (commands : List (Command α)) :
    let w : Workspace σ α := ofArena (.ofBlockSize blockSize) source
    (w.runCommands commands).store.Orderly Owns := by
  apply store_induct
  · exact fun s log hs => ⟨hs.sound, hs.owns⟩
  · exact fun r s hs => hs.allocate hsource r
  · exact fun s hs => hs.rewind hsource
  · exact ⟨Arena.sound_emptied (.ofBlockSize blockSize), hnew⟩

theorem kept_of_new {τ : Type} [SlabSource τ] (source : τ) (blockSize : Nat)
    (commands : List (Command α)) :
    let w : Workspace (Metered τ) α := ofArena (.ofBlockSize blockSize) { source }
    (w.runCommands commands).store.Kept := by
  apply store_induct
  · exact fun s log hs => ⟨hs.counted, hs.obtained_perm⟩
  · exact fun r s hs => hs.allocate r
  · exact fun s hs => hs.rewind
  · exact ⟨Arena.counted_emptied (.ofBlockSize blockSize), .nil⟩

/-- The ranges that commands which are carried out in turn have returned since the last rewind. -/
def returnedAfterAll (ranges : List Grant) : List (Command α) → Workspace σ α → List Grant
  | [], _ => ranges
  | c :: commands, w =>
      let (o, w') := w.step (.command c)
      returnedAfterAll (c.returnedAfter ranges w.quieted o.result) commands w'

theorem traced_step {w : Workspace σ α} {ranges : List Grant} (h : w.store.Traced ranges)
    (c : Command α) :
    (w.step (.command c)).2.store.Traced
      (c.returnedAfter ranges w.quieted (w.step (.command c)).1.result) := by
  have hquiet : w.quieted.store.Traced ranges := by
    obtain ⟨s₀, hempty, hcalls⟩ := h
    exact ⟨s₀, hempty, hcalls.logged #[]⟩
  by_cases hc : c = .rewind
  · subst hc
    exact Store.traced_rewind w.quieted.store
  · rw [Command.returnedAfter_of_ne hc]
    exact hquiet.calls (calls_of_effect (effect_step c w) hc)

theorem traced_runCommands (commands : List (Command α)) {w : Workspace σ α} {ranges : List Grant}
    (h : w.store.Traced ranges) :
    (w.runCommands commands).store.Traced (returnedAfterAll ranges commands w) := by
  induction commands generalizing w ranges with
  | nil => exact h
  | cons c commands ih => exact ih (traced_step h c)

theorem traced_of_new (blockSize : Nat) (source : σ) (commands : List (Command α)) :
    let w : Workspace σ α := ofArena (.ofBlockSize blockSize) source
    (w.runCommands commands).store.Traced (returnedAfterAll [] commands w) :=
  traced_runCommands commands ⟨_, rfl, .none⟩

/-- What was asked for for the nodes of all arrays. -/
def parts (w : Workspace σ α) : List Request := w.arrays.flatMap (·.2.parts)

omit [SlabSource σ] [Element α] in
theorem parts_setArray {w : Workspace σ α} {array : String} {h h' : Holding α} {new : List Request}
    (hfind : w.arrays.find? array = some h) (hparts : h'.parts.Sublist (h.parts ++ new))
    (s : Store σ) : (w.setArray array s h').parts.Subperm (w.parts ++ new) := by
  obtain ⟨before, after, harrays, -, hset⟩ := Table.exists_split_of_find? hfind
  simp only [parts, setArray, hset]
  rw [harrays]
  simp only [List.flatMap_append, List.flatMap_cons, List.append_assoc]
  refine (List.subperm_append_left _).mpr (((hparts.append_right _).subperm).trans ?_)
  rw [List.append_assoc]
  exact (List.subperm_append_left _).mpr List.perm_append_comm.subperm

omit [SlabSource σ] [Element α] in
theorem parts_drop {w : Workspace σ α} {array : String} {h : Holding α}
    (hfind : w.arrays.find? array = some h) : (w.drop array h).parts.Sublist w.parts := by
  obtain ⟨before, after, harrays, hremove, -⟩ := Table.exists_split_of_find? hfind
  simp only [parts, drop, destroy, hremove]
  rw [harrays, List.flatMap_append, List.flatMap_append, List.flatMap_cons]
  exact (List.sublist_append_right _ _).append_left _

/-- The parts of the nodes that a command leaves behind had been there, or ranges that it returned
are for them. -/
theorem parts_of_effect {w w' : Workspace σ α} {c : Command α}
    {result : Except Failure (Answer α)} (h : Effect w c result w') :
    w'.parts.Subperm (w.parts ++ (c.returned w result).map Grant.request) := by
  have hkept : ∀ {v : Workspace σ α} (new : List Request), v.arrays = w.arrays →
      v.parts.Subperm (w.parts ++ new) := by
    intro v new harrays
    rw [parts, harrays]
    exact (List.sublist_append_left _ _).subperm
  cases h with
  | granted _ _ _ _ harrays _ | denied _ _ _ harrays _ => exact hkept _ harrays
  | @madeTyped array kind growth a s hcreate =>
      rw [parts, Command.returned, ← TypedArray.parts_create hcreate, List.flatMap_append,
        List.flatMap_singleton]
      exact List.Subperm.refl _
  | @madePacked array growth a s hcreate =>
      rw [parts, Command.returned, ← PackedArray.parts_create hcreate, List.flatMap_append,
        List.flatMap_singleton]
      exact List.Subperm.refl _
  | @pushed array values h h' s u hfind hpush | @refused array values h h' s refusal hfind hpush =>
      have hparts := Holding.parts_pushAll values w.store h
      rw [hpush] at hparts
      rw [Command.returned, hfind]
      exact parts_setArray hfind hparts s
  | dropped hfind =>
      exact ((parts_drop hfind).trans (List.sublist_append_left _ _)).subperm
  | cleared => exact List.nil_subperm
  | _ => exact hkept _ rfl

theorem parts_step {w : Workspace σ α} {ranges : List Grant}
    (h : w.parts.Subperm (ranges.map Grant.request)) (c : Command α) :
    (w.step (.command c)).2.parts.Subperm
      ((c.returnedAfter ranges w.quieted (w.step (.command c)).1.result).map Grant.request) := by
  by_cases hc : c = .rewind
  · subst hc
    exact List.Subperm.refl _
  · rw [Command.returnedAfter_of_ne hc, List.map_append]
    exact (parts_of_effect (effect_step c w)).trans ((List.subperm_append_right _).mpr h)

theorem parts_runCommands (commands : List (Command α)) {w : Workspace σ α} {ranges : List Grant}
    (h : w.parts.Subperm (ranges.map Grant.request)) :
    (w.runCommands commands).parts.Subperm
      ((returnedAfterAll ranges commands w).map Grant.request) := by
  induction commands generalizing w ranges with
  | nil => exact h
  | cons c commands ih => exact ih (parts_step h c)

end Workspace

open Workspace in
/-- If the source hands out slabs that are apart, the ranges returned since the last rewind never
overlap: those that commands name in their answers, and those of the parts of nodes, each part of
each node of an array among them. They are the ranges that the arena has handed out, and until the
next rewind no cursor goes back. -/
theorem granted_ranges_never_overlap {Owns : σ → List Slab → Prop}
    (hsource : SlabSource.Exclusive Owns) {source : σ} (hnew : Owns source []) (blockSize : Nat)
    (commands : List (Command α)) :
    let w₀ : Workspace σ α := ofArena (.ofBlockSize blockSize) source
    let w := w₀.runCommands commands
    let ranges := returnedAfterAll [] commands w₀
    w.store.Traced ranges ∧ w.store.arena.grants = ranges.reverse ∧
      w.parts.Subperm (ranges.map Grant.request) ∧ w.store.arena.Separates ranges ∧
      ∀ later : List (Command α), (∀ c ∈ later, c ≠ .rewind) →
        w.store.arena.Advances (w.runCommands later).store.arena := by
  intro w₀ w ranges
  have htraced : w.store.Traced ranges := traced_of_new blockSize source commands
  have horderly : w.store.Orderly Owns := orderly_of_new hsource hnew blockSize commands
  refine ⟨htraced, htraced.grants_eq, parts_runCommands commands (List.Subperm.refl _),
    horderly.sound.separates htraced.grants_eq, ?_⟩
  intro later hlater
  exact (leads_runCommands later hlater w).advances

open Workspace in
/-- Ranges from before the rewind are not among them. -/
theorem ranges_of_linear_heap_never_overlap :
    let w₀ : Workspace LinearHeap Value := ofArena (.ofBlockSize 64) {}
    let commands : List (Command Value) :=
      [.keepText "old" "gone", .rewind, .allocate ⟨3, 5⟩, .keep "one" .long (.natural 1),
        .keepMany "many" .half [.natural 2, .natural 3], .keepText "text" "abc",
        .makeTyped "a" .word .standard, .push "a" [.natural 7, .natural 8]]
    let ranges := returnedAfterAll [] commands w₀
    LinearHeap.Below {} [] ∧ ranges.map (·.request.bytes) = [3, 8, 4, 3, 4, 1, 48, 4, 1, 48] ∧
      (w₀.runCommands commands).store.arena.Separates ranges := by
  intro w₀ commands ranges
  have hnew : LinearHeap.Below {} [] := fun _ h => nomatch h
  refine ⟨hnew, by decide +kernel, ?_⟩
  exact (granted_ranges_never_overlap LinearHeap.exclusive hnew 64 commands).2.2.2.1

open Workspace in
/-- The counters of an arena are right to the byte and agree with what its source has out, whatever
the source does: what is used is the sum over all ranges returned since the last rewind. A rewind
and the end of the workspace give every slab back once, as it was obtained. -/
theorem arena_accounting_exact {τ : Type} [SlabSource τ] (source : τ) (blockSize : Nat)
    (commands : List (Command α)) :
    let w₀ : Workspace (Metered τ) α := ofArena (.ofBlockSize blockSize) { source }
    let w := w₀.runCommands commands
    w.store.Balanced (returnedAfterAll [] commands w₀) ∧
      w.store.Cleared (w.runCommands [.rewind]).store ∧ w.store.Cleared w.quieted.clear.store := by
  intro w₀ w
  have hkept : w.store.Kept := kept_of_new source blockSize commands
  have hcleared : w.store.Cleared w.quieted.clear.store := by
    have hquiet : w.quieted.store.Kept := ⟨hkept.counted, hkept.obtained_perm⟩
    obtain ⟨hreturned, hobtained, hperm, harena, hagain⟩ := hquiet.cleared
    exact ⟨hreturned, hobtained, hperm, harena, hagain⟩
  refine ⟨hkept.balanced (traced_of_new blockSize _ commands), ?_, hcleared⟩
  rw [runCommands_cons, runCommands_nil]
  exact hcleared

open Workspace in
/-- The parts of a node that were granted before one was refused stay in the books. -/
theorem accounts_with_part_of_node :
    let w₀ : Workspace (Metered LinearHeap) Value :=
      ofArena (.ofBlockSize 64) { source := { limit := 150 } }
    let commands : List (Command Value) :=
      [.allocate ⟨3, 5⟩, .rewind, .keep "one" .long (.natural 1),
        .makeTyped "a" .word ⟨10, .threeHalves⟩]
    let ranges := returnedAfterAll [] commands w₀
    let w := w₀.runCommands commands
    ranges.map Grant.request = [⟨8, 8⟩, ⟨40, 4⟩, ⟨10, 1⟩] ∧ w.arrays.length = 0 ∧
      w.store.Balanced ranges ∧ w.store.arena.used = 58 ∧
      w.store.source.obtained.map Slab.bytes = [104, 104] ∧
      (w.runCommands [.rewind]).store.source.returned.map Slab.bytes = [104, 104] ∧
      (w.runCommands [.rewind]).store.arena.allocated = 0 := by
  intro w₀ commands ranges w
  obtain ⟨hbalanced, hcleared, -⟩ :=
    arena_accounting_exact (α := Value) { limit := 150 : LinearHeap } 64 commands
  have hranges : ranges.map Grant.request = [⟨8, 8⟩, ⟨40, 4⟩, ⟨10, 1⟩] := by decide +kernel
  have hused : w.store.arena.used = ((ranges.map Grant.request).map Request.bytes).sum := by
    rw [List.map_map]
    exact hbalanced.used_eq
  refine ⟨hranges, by decide +kernel, hbalanced, ?_, by decide +kernel, by decide +kernel, ?_⟩
  · rw [hused, hranges]
    rfl
  · rw [hcleared.arena_eq]

end GrowArena

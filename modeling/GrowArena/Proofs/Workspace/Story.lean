import GrowArena.Proofs.Arena.Accounting
import GrowArena.Proofs.Arena.Telling
import GrowArena.Proofs.Workspace.Ledger
import GrowArena.Proofs.Workspace.Memory

/-!
The events of a workspace replay to its state. A story takes down commands with their outcomes, and
reads nothing else: what was told since the last rewind, and for each array what its own operations
told of nodes. From it the chunks of the arena and the nodes of the arrays can be read off, and
refusals and rewinds are told when they happen and not otherwise.
-/

namespace GrowArena

variable {σ α β γ : Type}

structure Story where
  /-- Since the last rewind, oldest first. -/
  events : List Event := []
  /-- What the operations on each array told of nodes, in the order of the arrays. -/
  nodes : Table (List Event) := []

namespace Story

def nodesAfter (story : Story) (o : Outcome α) : Command α → Table (List Event)
  | .rewind => []
  | .makeTyped array _ _ | .makePacked array _ =>
      match o.result with
      | .ok _ => story.nodes ++ [(array, o.events.filter Event.isAppending)]
      | .error _ => story.nodes
  | .push array _ =>
      match story.nodes.find? array with
      | some told => story.nodes.set array (told ++ o.events.filter Event.isAppending)
      | none => story.nodes
  | .drop array => story.nodes.remove array
  | _ => story.nodes

def after (story : Story) (c : Command α) (o : Outcome α) : Story where
  events := match c with
    | .rewind => []
    | _ => story.events ++ o.events
  nodes := story.nodesAfter o c

/-- The story of commands that are carried out in turn. -/
def afterAll (story : Story) (told : List (Command α × Outcome α)) : Story :=
  told.foldl (fun story (c, o) => story.after c o) story

theorem nodesAfter_of_keepsArrays (story : Story) (o : Outcome α) {c : Command α}
    (h : c.keepsArrays = true) : story.nodesAfter o c = story.nodes := by
  cases c <;> first | rfl | cases h

end Story

def Failure.fault? : Failure → Option Fault
  | fault f => some f
  | _ => none

/-- How the array tells that a node was appended to it. -/
def Holding.appended : Holding α → Nat → Event
  | typed .. => .typedNodeAppended
  | packed _ => .packedNodeAppended

/-- What the operations on an array told of nodes are all its nodes but the first. -/
def Holding.ToldOf (h : Holding α) (told : List Event) : Prop :=
  told = h.capacities.tail.map h.appended

theorem Holding.capacities_ne_nil (h : Holding α) : h.capacities ≠ [] := by
  have hchain : ∀ {ν α : Type} [Segment ν α] (c : Chain ν), c.capacities ≠ [] := by
    intro ν α _ c
    rw [Chain.capacities, Chain.toList_eq]
    simp
  cases h with
  | typed kind a => exact hchain a.chain
  | packed a => exact hchain a.chain

namespace Workspace

/-- The computation tells of chunks and refusals what there is to tell, and nothing of nodes. -/
def TellsOfChunks (m : WorkspaceM σ α β) : Prop :=
  ∀ w : Workspace σ α,
    w.store.TellsOfChunks (faultIn Failure.fault? (m w)) (finalState (m w)).store

theorem tellsOfChunks_pure (b : β) : TellsOfChunks (pure b : WorkspaceM σ α β) :=
  fun w => .quiet w.store rfl

theorem tellsOfChunks_throw {failure : Failure}
    (h : ∀ size, failure.fault?.elim [] (Fault.refusals size) = []) :
    TellsOfChunks (throw failure : WorkspaceM σ α β) :=
  fun w => .quiet w.store (h _)

theorem TellsOfChunks.bind {m : WorkspaceM σ α β} {f : β → WorkspaceM σ α γ}
    (hm : TellsOfChunks m) (hf : ∀ b, TellsOfChunks (f b)) : TellsOfChunks (m >>= f) := by
  intro w
  have htells := hm w
  simp only [Bind.bind, EStateM.bind]
  cases hfirst : m w with
  | error failure w' =>
      rw [hfirst] at htells
      exact htells
  | ok b w' =>
      rw [hfirst] at htells
      exact htells.trans (hf b w')

theorem tellsOfChunks_modify {f : Workspace σ α → Workspace σ α}
    (hf : ∀ w, (f w).store = w.store) : TellsOfChunks (modify f : WorkspaceM σ α PUnit) := by
  intro w
  have hstore : (finalState ((modify f : WorkspaceM σ α PUnit) w)).store = w.store := hf w
  rw [hstore]
  exact .quiet w.store rfl

theorem tellsOfChunks_onStore {act : ArenaM σ β}
    (hact : ∀ s : Store σ, s.TellsOfChunks (faultIn some (act s)) (finalState (act s))) :
    TellsOfChunks (onStore act : WorkspaceM σ α β) := by
  intro w
  have htells := hact w.store
  simp only [onStore]
  generalize act w.store = result at htells
  cases result <;> exact htells

theorem tellsOfChunks_holding (array : String) :
    TellsOfChunks (holding array : WorkspaceM σ α (Holding α)) := by
  intro w
  unfold holding
  cases w.arrays.find? array <;> exact .quiet w.store rfl

theorem tellsOfChunks_typedArray (array : String) :
    TellsOfChunks (typedArray array : WorkspaceM σ α (TypedArray α)) := by
  intro w
  unfold typedArray
  split <;> exact .quiet w.store rfl

theorem tellsOfChunks_bookmark (reader : String) :
    TellsOfChunks (bookmark reader : WorkspaceM σ α Bookmark) := by
  intro w
  unfold bookmark
  cases w.readers.find? reader <;> exact .quiet w.store rfl

theorem tellsOfChunks_liftFault {result : Except Fault β}
    (h : ∀ fault size, result = .error fault → fault.refusals size = []) :
    TellsOfChunks (liftFault result : WorkspaceM σ α β) := by
  cases result with
  | ok b => exact tellsOfChunks_pure b
  | error fault => exact tellsOfChunks_throw fun size => h fault size rfl

theorem tellsOfChunks_make (array : String) {create : ArenaM σ β} (toHolding : β → Holding α)
    (hcreate : ∀ s : Store σ,
      s.TellsOfChunks (faultIn some (create s)) (finalState (create s))) :
    TellsOfChunks (make array (toHolding <$> create) : WorkspaceM σ α (Answer α)) := by
  refine (tellsOfChunks_onStore ?_).bind fun _ =>
    (tellsOfChunks_modify (by intro w; rfl)).bind fun _ => tellsOfChunks_pure _
  intro s
  have htells := hcreate s
  simp only [Functor.map, EStateM.map]
  generalize create s = result at htells
  cases result <;> exact htells

variable [SlabSource σ]

theorem tellsOfChunks_keepAs (reference : String) (r : Request) (content : Content α) :
    TellsOfChunks (keepAs reference r content : WorkspaceM σ α (Answer α)) := by
  exact (tellsOfChunks_onStore (Store.tellsOfChunks_allocate r)).bind fun _ =>
    (tellsOfChunks_modify (by intro w; rfl)).bind fun _ => tellsOfChunks_pure _

variable [Element α]

theorem tellsOfChunks_perform {c : Command α} (hpush : ∀ array values, c ≠ .push array values)
    (hrewind : c ≠ .rewind) : TellsOfChunks (perform c : WorkspaceM σ α (Answer α)) := by
  cases c with
  | push array values => exact absurd rfl (hpush array values)
  | rewind => exact absurd rfl hrewind
  | allocate r =>
      exact (tellsOfChunks_onStore (Store.tellsOfChunks_allocate r)).bind fun _ =>
        tellsOfChunks_pure _
  | keep reference kind value =>
      intro w
      have htells := tellsOfChunks_keepAs reference
        { bytes := kind.footprint.size, alignment := kind.footprint.alignment } (.one value) w
      simp only [perform, keepOrDestroy]
      generalize keepAs reference _ _ w = result at htells
      cases result with
      | ok answer w' => exact htells
      | error failure w' =>
          dsimp only
          split <;> exact htells
  | keepMany reference kind contents => exact tellsOfChunks_keepAs reference _ _
  | keepText reference text => exact tellsOfChunks_keepAs reference _ _
  | «recall» reference =>
      intro w
      simp only [perform, bind, EStateM.bind, get_run]
      cases w.references.find? reference <;> exact .quiet w.store rfl
  | describeArena overLines => exact fun w => .quiet w.store rfl
  | blockSize => exact fun w => .quiet w.store rfl
  | makeTyped array kind growth =>
      exact tellsOfChunks_make array _ (TypedArray.tellsOfChunks_create kind.footprint growth)
  | makePacked array growth =>
      exact tellsOfChunks_make array _ (PackedArray.tellsOfChunks_create growth)
  | get array index =>
      refine (tellsOfChunks_typedArray array).bind fun a =>
        (tellsOfChunks_liftFault ?_).bind fun _ => tellsOfChunks_pure _
      intro fault size hget
      unfold TypedArray.get at hget
      split at hget <;> cases hget
      rfl
  | getOrAbort array index =>
      refine (tellsOfChunks_typedArray array).bind fun a => ?_
      cases a.get index with
      | ok value => exact tellsOfChunks_pure _
      | error fault => exact tellsOfChunks_throw fun _ => rfl
  | back array =>
      refine (tellsOfChunks_typedArray array).bind fun a =>
        (tellsOfChunks_liftFault ?_).bind fun _ => tellsOfChunks_pure _
      intro fault size hback
      unfold TypedArray.back at hback
      split at hback
      · cases hback
      · split at hback <;> cases hback
        rfl
  | drop array =>
      exact (tellsOfChunks_holding array).bind fun _ =>
        (tellsOfChunks_modify (by intro w; rfl)).bind fun _ => tellsOfChunks_pure _
  | openReader array reader =>
      exact (tellsOfChunks_holding array).bind fun _ =>
        (tellsOfChunks_modify (by intro w; rfl)).bind fun _ => tellsOfChunks_pure _
  | copyReader reader copy =>
      exact (tellsOfChunks_bookmark reader).bind fun _ =>
        (tellsOfChunks_modify (by intro w; rfl)).bind fun _ => tellsOfChunks_pure _
  | read reader count =>
      exact (tellsOfChunks_bookmark reader).bind fun b =>
        (tellsOfChunks_holding b.array).bind fun _ =>
          (tellsOfChunks_modify (by intro w; rfl)).bind fun _ => tellsOfChunks_pure _
  | size array | isEmpty array | capacities array | «values» array | sorted array
  | growth array | describe array =>
      exact (tellsOfChunks_holding array).bind fun _ => tellsOfChunks_pure _

end Workspace

variable [SlabSource σ] [Element α]

theorem Holding.tellsOfNodes_pushAll (values : List α) (s : Store σ) (h : Holding α) :
    let result := pushAll values (s, h)
    ∃ events capacities, s.Tells events (faultIn (fun refusal => some refusal.fault) result)
        (finalState result).1 ∧
      events.filter Event.isAppending = capacities.map h.appended ∧
        (finalState result).2.appended = h.appended ∧
          (finalState result).2.capacities = h.capacities ++ capacities := by
  cases h with
  | typed kind a =>
      obtain ⟨events, capacities, htells, hnodes, hcapacities⟩ :=
        tellsOfNodes_pushEach TypedArray.tellsOfNodes_push values (s, a)
      refine ⟨events, capacities, ?_⟩
      simp only [pushAll, TypedArray.pushAll]
      generalize pushEach TypedArray.push values (s, a) = result at htells hcapacities
      cases result <;> exact ⟨htells, hnodes, rfl, hcapacities⟩
  | packed a =>
      obtain ⟨events, capacities, htells, hnodes, hcapacities⟩ :=
        tellsOfNodes_pushEach PackedArray.tellsOfNodes_push (values.map Element.toWord) (s, a)
      refine ⟨events, capacities, ?_⟩
      simp only [pushAll, PackedArray.pushAll]
      generalize pushEach PackedArray.push (values.map Element.toWord) (s, a) = result
        at htells hcapacities
      cases result <;> exact ⟨htells, hnodes, rfl, hcapacities⟩

namespace Workspace

/-- A push tells of the nodes that it appends to its array, and changes no other array. -/
theorem exists_tells_push {w : Workspace σ α} {array : String} {h : Holding α}
    (hfind : w.arrays.find? array = some h) (values : List α) :
    let result := perform (.push array values) w
    ∃ events capacities h', w.store.Tells events (faultIn Failure.fault? result)
        (finalState result).store ∧
      events.filter Event.isAppending = capacities.map h.appended ∧
        (finalState result).arrays = w.arrays.set array h' ∧ h'.appended = h.appended ∧
          h'.capacities = h.capacities ++ capacities := by
  obtain ⟨events, capacities, htells, hnodes, happended, hcapacities⟩ :=
    Holding.tellsOfNodes_pushAll values w.store h
  refine ⟨events, capacities, _, ?_, hnodes, ?_, happended, hcapacities⟩
  all_goals
    simp only [perform, push, hfind]
    generalize Holding.pushAll values (w.store, h) = result at htells
    cases result
  · exact htells
  · exact htells
  · rfl
  · rfl

end Workspace

def Outcome.fault? (o : Outcome α) : Option Fault :=
  match o.result with
  | .ok _ => none
  | .error failure => failure.fault?

namespace Workspace

theorem events_step (c : Command α) (w : Workspace σ α) :
    (w.step (.command c)).1.events = (w.step (.command c)).2.store.log.toList := by
  simp only [step, carryOut]
  cases perform c w.quieted <;> rfl

theorem fault?_step (c : Command α) (w : Workspace σ α) :
    (w.step (.command c)).1.fault? = faultIn Failure.fault? (perform c w.quieted) := by
  simp only [step, carryOut]
  cases perform c w.quieted <;> rfl

theorem tells_step_of_tells {c : Command α} {w : Workspace σ α} {events : List Event}
    (h : w.quieted.store.Tells events (faultIn Failure.fault? (perform c w.quieted))
      (finalState (perform c w.quieted)).store) :
    (w.step (.command c)).1.events = events ∧
      w.quieted.store.Tells events (w.step (.command c)).1.fault?
        (w.step (.command c)).2.store := by
  rw [events_step, fault?_step, finalState_perform]
  exact ⟨h.log_eq, h⟩

theorem appending_step {c : Command α} (hpush : ∀ array values, c ≠ .push array values)
    (hrewind : c ≠ .rewind) (w : Workspace σ α) :
    (w.step (.command c)).1.events.filter Event.isAppending = [] := by
  obtain ⟨events, htells, hnone⟩ := tellsOfChunks_perform hpush hrewind w.quieted
  rw [(tells_step_of_tells htells).1, hnone]

theorem tells_step {c : Command α} (hc : c ≠ .rewind) (w : Workspace σ α) :
    w.quieted.store.Tells (w.step (.command c)).1.events (w.step (.command c)).1.fault?
      (w.step (.command c)).2.store := by
  have htells : ∃ events, w.quieted.store.Tells events
      (faultIn Failure.fault? (perform c w.quieted))
      (finalState (perform c w.quieted)).store := by
    by_cases hpush : ∃ array values, c = .push array values
    · obtain ⟨array, contents, rfl⟩ := hpush
      cases hfind : w.arrays.find? array with
      | none =>
          refine ⟨[], ?_⟩
          have hfind' : w.quieted.arrays.find? array = none := hfind
          simp only [perform, push, hfind']
          exact .quiet w.quieted.store rfl
      | some h =>
          obtain ⟨events, -, -, htells, -⟩ := exists_tells_push (w := w.quieted) hfind contents
          exact ⟨events, htells⟩
    · obtain ⟨events, htells, -⟩ := tellsOfChunks_perform
        (fun array contents h => hpush ⟨array, contents, h⟩) hc w.quieted
      exact ⟨events, htells⟩
  obtain ⟨events, htells⟩ := htells
  obtain ⟨hevents, htells⟩ := tells_step_of_tells htells
  rwa [hevents]

end Workspace

/-- The story is that of the workspace: it names the chunks of its arena and the nodes of its
arrays. -/
structure Story.IsOf (story : Story) (w : Workspace σ α) : Prop where
  chunks : story.events.filterMap Event.installed? =
    w.store.arena.chunks.toList.map Chunk.bytes
  nodes : Table.Related Holding.ToldOf w.arrays story.nodes

namespace Workspace

theorem chunks_step {story : Story} {w : Workspace σ α} (h : story.IsOf w) (c : Command α) :
    (story.after c (w.step (.command c)).1).events.filterMap Event.installed? =
      (w.step (.command c)).2.store.arena.chunks.toList.map Chunk.bytes := by
  by_cases hc : c = .rewind
  · subst hc
    rfl
  · have hevents : (story.after c (w.step (.command c)).1).events =
        story.events ++ (w.step (.command c)).1.events := by
      cases c <;> first | rfl | exact absurd rfl hc
    rw [hevents, List.filterMap_append, h.chunks, (tells_step hc w).chunks_eq]
    rfl

/-- An array that is made has one node, of which nothing is told. -/
theorem nodes_make {story : Story} {w : Workspace σ α} (h : story.IsOf w) {c : Command α}
    {array : String} {create : ArenaM σ β} {toHolding : β → Holding α}
    (hperform : perform c = make array (toHolding <$> create))
    (hafter : ∀ o, story.nodesAfter o c = match o.result with
      | .ok _ => story.nodes ++ [(array, o.events.filter Event.isAppending)]
      | .error _ => story.nodes)
    (hnone : (w.step (.command c)).1.events.filter Event.isAppending = [])
    (hnew : ∀ {s s' : Store σ} {b : β}, create s = .ok b s' → (toHolding b).ToldOf []) :
    Table.Related Holding.ToldOf (w.step (.command c)).2.arrays
      (story.nodesAfter (w.step (.command c)).1 c) := by
  rw [hafter, hnone]
  simp only [step, carryOut, hperform, make, onStore, bind, EStateM.bind, Functor.map,
    EStateM.map]
  cases hcreate : create w.quieted.store with
  | error fault s => exact h.nodes
  | ok b s => exact h.nodes.concat array (hnew hcreate)

theorem nodes_push {story : Story} {w : Workspace σ α} (h : story.IsOf w) (array : String)
    (contents : List α) :
    let out := w.step (.command (.push array contents))
    Table.Related Holding.ToldOf out.2.arrays (story.nodesAfter out.1 (.push array contents)) := by
  cases hfind : w.arrays.find? array with
  | none =>
      have hfind' : w.quieted.arrays.find? array = none := hfind
      simp only [Story.nodesAfter, h.nodes.find?_eq_none hfind]
      simp only [step, carryOut, perform, push, hfind']
      exact h.nodes
  | some holding =>
      obtain ⟨told, htold, hof⟩ := h.nodes.find? hfind
      obtain ⟨events, capacities, holding', htells, hnodes, harrays, happended, hcapacities⟩ :=
        exists_tells_push (w := w.quieted) hfind contents
      simp only [Story.nodesAfter, htold]
      rw [(tells_step_of_tells htells).1, hnodes, finalState_perform, harrays]
      apply h.nodes.set array
      rw [Holding.ToldOf, hcapacities,
        List.tail_append_of_ne_nil holding.capacities_ne_nil, happended, List.map_append, ← hof]

theorem nodes_step {story : Story} {w : Workspace σ α} (h : story.IsOf w) (c : Command α) :
    Table.Related Holding.ToldOf (w.step (.command c)).2.arrays
      (story.nodesAfter (w.step (.command c)).1 c) := by
  cases hc : c.keepsArrays with
  | true =>
      rw [Story.nodesAfter_of_keepsArrays story _ hc, finalState_perform,
        arrays_of_effect (effect_perform c w.quieted) hc]
      exact h.nodes
  | false =>
      cases c with
      | rewind => exact .nil
      | makeTyped array kind growth =>
          refine nodes_make h rfl (fun _ => rfl) (appending_step (by simp) (by simp) w) ?_
          intro s s' a hcreate
          rw [TypedArray.eq_made_of_create hcreate]
          rfl
      | makePacked array growth =>
          refine nodes_make h rfl (fun _ => rfl) (appending_step (by simp) (by simp) w) ?_
          intro s s' a hcreate
          rw [PackedArray.eq_made_of_create hcreate]
          rfl
      | push array contents => exact nodes_push h array contents
      | drop array =>
          have hremove := h.nodes.remove array
          rw [finalState_perform]
          simp only [perform, holding, bind, EStateM.bind]
          cases hfind : w.quieted.arrays.find? array with
          | some holding => exact hremove
          | none =>
              have hsame : w.arrays.remove array = w.arrays := Table.remove_of_find?_eq_none hfind
              rw [hsame] at hremove
              exact hremove
      | _ => cases hc

theorem isOf_step {story : Story} {w : Workspace σ α} (h : story.IsOf w) (c : Command α) :
    (story.after c (w.step (.command c)).1).IsOf (w.step (.command c)).2 where
  chunks := chunks_step h c
  nodes := nodes_step h c

theorem isOf_run (commands : List (Command α)) {story : Story} {w : Workspace σ α}
    (h : story.IsOf w) :
    (story.afterAll (commands.zip (w.run (commands.map .command)).1)).IsOf
      (w.runCommands commands) := by
  induction commands generalizing story w with
  | nil => exact h
  | cons c commands ih => exact ih (isOf_step h c)

end Workspace

/-- What the outcome of one command tells of refusals and rewinds: a slab was refused if and only
if memory ran out, and memory was given back if and only if there was any. -/
structure Outcome.Accurate (w : Workspace σ α) (c : Command α) (o : Outcome α) : Prop where
  refusals : o.events.filter Event.isRefusal =
    match o.result with
    | .error (.fault (.outOfMemory requested alignment _ _)) =>
        [.chunkRefused requested
          (Chunk.header + max w.store.arena.blockSize (requested + (alignment - 1)))]
    | _ => []
  rewindings : o.events.filter Event.isRewinding =
    match c with
    | .rewind =>
        if w.store.arena.chunks.size = 0 then []
        else
          [.rewound w.store.arena.chunks.size w.store.arena.used w.store.arena.allocated]
    | _ => []

namespace Workspace

omit [Element α] in
theorem accurate_finish (w : Workspace σ α) : w.finish.Accurate w .rewind := by
  have hevents : w.finish.events =
      if w.store.arena.chunks.size = 0 then []
      else [.rewound w.store.arena.chunks.size w.store.arena.used w.store.arena.allocated] := by
    have hlog : w.finish.events = (if w.store.arena.chunks.isEmpty then #[]
      else #[Event.rewound w.store.arena.chunks.size w.store.arena.used
        w.store.arena.allocated]).toList := rfl
    rw [hlog]
    simp only [Array.isEmpty, decide_eq_true_eq]
    split <;> rfl
  constructor
  all_goals
    rw [hevents]
    split <;> rfl

theorem accurate_step (c : Command α) (w : Workspace σ α) :
    (w.step (.command c)).1.Accurate w c := by
  by_cases hc : c = .rewind
  · subst hc
    exact accurate_finish w
  · have htells := tells_step hc w
    constructor
    · rw [htells.refusals_eq, Outcome.fault?]
      cases (w.step (.command c)).1.result with
      | ok answer => rfl
      | error failure =>
          cases failure with
          | fault f => cases f <;> rfl
          | _ => rfl
    · rw [htells.not_rewound]
      cases c <;> first | rfl | exact absurd rfl hc

end Workspace

open Workspace in
/-- The events of a run tell the state that it leads to. Those since the last rewind tell the chunks
of the arena; those of its own operations tell the nodes of each array but the first; refusals and
rewinds are told by the commands that meet with them, and by no others. -/
theorem events_replay_to_state (blockSize : Nat) (source : σ) (commands : List (Command α)) :
    let w₀ : Workspace σ α := ofArena (.ofBlockSize blockSize) source
    let w := w₀.runCommands commands
    let story := Story.afterAll {} (commands.zip (w₀.run (commands.map .command)).1)
    let installed := story.events.filterMap Event.installed?
    installed.length = w.store.arena.chunks.size ∧ installed.sum = w.store.arena.allocated ∧
      Table.Related Holding.ToldOf w.arrays story.nodes ∧
        (∀ c, (w.step (.command c)).1.Accurate w c) ∧ w.finish.Accurate w .rewind := by
  intro w₀ w story installed
  have hstory : story.IsOf w := isOf_run commands ⟨rfl, .nil⟩
  have hinstalled : installed = w.store.arena.chunks.toList.map Chunk.bytes := hstory.chunks
  have hcounted : w.store.arena.Counted := by
    apply store_induct (P := fun s => s.arena.Counted)
    · exact fun s log hs => hs
    · exact fun r s hs => Store.counted_allocate hs r
    · exact fun s _ => Arena.counted_emptied s.arena
    · exact Arena.counted_emptied (.ofBlockSize blockSize)
  refine ⟨?_, ?_, hstory.nodes, fun c => accurate_step c w, ?_⟩
  · rw [hinstalled, List.length_map, Array.length_toList]
  · rw [hinstalled, hcounted.allocated_eq]
  · exact accurate_step .rewind w

end GrowArena

import GrowArena.Proofs.Arena.Parts
import GrowArena.Proofs.Workspace.Ledger
import GrowArena.Proofs.Workspace.Looking

/-!
What is left of a failure. A push that is refused and an array that cannot be made leave every array
and every reader as they were, so that no look at an array tells whether they were attempted; the
arena keeps its chunks and the parts that were granted before the refused one. An array is
determined by its settings and the values that it accepted, whatever was refused in between.
-/

namespace GrowArena

variable {σ τ α β γ : Type}

namespace Workspace

/-- The same arrays, and readers at the same places. -/
structure Alike (w w' : Workspace σ α) : Prop where
  arrays : w'.arrays = w.arrays
  readers : w'.readers = w.readers

theorem sameLook_alike : SameLook (Alike (σ := σ) (α := α)) where
  arrays h := h.arrays
  readers h := h.readers
  setReader h _ _ := ⟨h.arrays, by simp only [setReader, h.readers]⟩

variable [SlabSource σ] [Element α]

/-- No look at an array tells workspaces apart that are alike. -/
theorem Alike.results_run {w w' : Workspace σ α} (h : Alike w w') (commands : List (Command α))
    (hcommands : ∀ c ∈ commands, c.looks = true) :
    (w'.run (commands.map .command)).1.map Outcome.result =
      (w.run (commands.map .command)).1.map Outcome.result := by
  induction commands generalizing w w' with
  | nil => rfl
  | cons c commands ih =>
      have hquiet : Alike w.quieted w'.quieted := ⟨h.arrays, h.readers⟩
      have hfirst := sameLook_alike.perform hquiet (hcommands c List.mem_cons_self)
      have hrest := fun {v v' : Workspace σ α} (hv : Alike v v') =>
        ih hv fun d hd => hcommands d (List.mem_cons_of_mem _ hd)
      simp only [List.map_cons, run, Workspace.step, carryOut]
      generalize perform c w.quieted = r, perform c w'.quieted = r' at hfirst
      cases hfirst with
      | ok hanswer hv => exact congrArg₂ List.cons (congrArg Except.ok hanswer.1) (hrest hv)
      | error hv => exact congrArg₂ List.cons rfl (hrest hv)

end Workspace

namespace Holding

/-- The node that the array would append next was refused. -/
def NodeRefused (a a' : Arena) : Holding α → Prop
  | .typed _ array =>
      TypedArray.NodeRefused array.footprint (array.growth.next array.chain.tail.capacity) a a'
  | .packed array =>
      PackedArray.NodeRefused
        (PackedArray.roomy (array.growth.next array.chain.tail.capacity)) a a'

/-- What an array was made with: a kind of elements, or none for words, and how it grows. -/
def settings : Holding α → Option Kind × Growth
  | .typed kind a => (some kind, a.growth)
  | .packed a => (none, a.growth)

/-- The array is what the recorded values make of a new one. -/
inductive Built : Holding α → Record α → Prop
  | typed (kind : Kind) (growth : Growth) (l : List α) :
      Built (.typed kind (.ofValues kind.footprint growth l)) (.values l)
  | packed (growth : Growth) (l : List UInt32) : Built (.packed (.ofWords growth l)) (.words l)

theorem Built.eq_of_settings {h h' : Holding α} {r : Record α} (hr : h.Built r) (hr' : h'.Built r)
    (hsettings : h.settings = h'.settings) : h = h' := by
  cases hr with
  | typed kind growth l =>
      cases hr' with
      | typed kind' growth' =>
          simp only [settings, TypedArray.settings_ofValues, Prod.mk.injEq,
            Option.some.injEq] at hsettings
          rw [hsettings.1, hsettings.2]
  | packed growth l =>
      cases hr' with
      | packed growth' =>
          simp only [settings, PackedArray.settings_ofWords, Prod.mk.injEq] at hsettings
          rw [hsettings.2]

variable [SlabSource σ] [Element α]

theorem upholds_built : Record.Upholds σ (Built (α := α)) where
  takes h := by
    cases h with
    | typed => exact .typed
    | packed => exact .packed
  makeTyped {kind growth _ _ _} h := by
    rw [TypedArray.eq_made_of_create h]
    exact .typed kind growth []
  makePacked {growth _ _ _} h := by
    rw [PackedArray.eq_made_of_create h]
    exact .packed growth []
  pushAll {h r} values s hr := by
    cases hr with
    | typed kind growth l =>
        rw [finalState_pushAll_typed, TypedArray.pushAll_ofValues]
        exact .typed kind growth _
    | packed growth l =>
        rw [finalState_pushAll_packed, PackedArray.pushAll_ofWords]
        exact .packed growth _

theorem pushAll_singleton_error {v : α} {s s' : Store σ} {h h' : Holding α} {r : Record α}
    {refusal : Refusal α} (hr : h.Matches r)
    (hpush : pushAll [v] (s, h) = .error refusal (s', h')) :
    h' = h ∧ h.NodeRefused s.arena s'.arena := by
  cases hr with
  | @typed kind a l hcontains =>
      obtain ⟨parts, hparts, -⟩ := hcontains
      simp only [pushAll, TypedArray.pushAll, pushEach] at hpush
      split at hpush
      · simp at hpush
      · rename_i hfail
        split at hfail
        · simp at hfail
        · rename_i hfirst
          obtain ⟨-, rfl, rfl⟩ : _ ∧ _ = s' ∧ typed kind _ = h' := by simpa using hpush
          obtain ⟨-, rfl⟩ : _ ∧ _ = _ := by simpa using hfail
          obtain ⟨rfl, hnode⟩ := TypedArray.refused_of_push_error hparts hfirst
          exact ⟨rfl, (TypedArray.nodeRefused_of_allocateNode hnode).1⟩
  | @packed a l hcontains =>
      simp only [pushAll, PackedArray.pushAll, List.map_cons, List.map_nil, pushEach] at hpush
      split at hpush
      · simp at hpush
      · rename_i hfail
        split at hfail
        · simp at hfail
        · rename_i hfirst
          obtain ⟨-, rfl, rfl⟩ : _ ∧ _ = s' ∧ packed _ = h' := by simpa using hpush
          obtain ⟨-, rfl⟩ : _ ∧ _ = _ := by simpa using hfail
          obtain ⟨rfl, hnode⟩ := PackedArray.refused_of_push_error hfirst
          exact ⟨rfl, (PackedArray.nodeRefused_of_allocateNode hnode).1⟩

end Holding

namespace Workspace

variable [SlabSource σ] [Element α]

/-- The workspaces are alike, and no look at an array tells them apart. -/
structure Untouched (w w' : Workspace σ α) : Prop extends Alike w w' where
  results_eq : ∀ commands : List (Command α), (∀ c ∈ commands, c.looks = true) →
    (w'.run (commands.map .command)).1.map Outcome.result =
      (w.run (commands.map .command)).1.map Outcome.result

theorem Alike.untouched {w w' : Workspace σ α} (h : Alike w w') : Untouched w w' where
  toAlike := h
  results_eq := h.results_run

/-- Arrays of the same settings that have accepted the same values are the same. -/
def SameArrays (w : Workspace σ α) (ledger : Ledger α) (w' : Workspace τ α) (ledger' : Ledger α) :
    Prop :=
  ∀ array array' h h' r, w.arrays.find? array = some h → ledger.find? array = some r →
    w'.arrays.find? array' = some h' → ledger'.find? array' = some r →
      h.settings = h'.settings → h = h'

omit [SlabSource σ] [Element α] in
theorem sameArrays_of_built {w : Workspace σ α} {w' : Workspace τ α} {ledger ledger' : Ledger α}
    (h : Table.Related Holding.Built w.arrays ledger)
    (h' : Table.Related Holding.Built w'.arrays ledger') : SameArrays w ledger w' ledger' := by
  intro array array' holding holding' r hfind hr hfind' hr' hsettings
  obtain ⟨found, hfound, hbuilt⟩ := h.find? hfind
  obtain rfl := Option.some.inj (hr.symm.trans hfound)
  obtain ⟨found', hfound', hbuilt'⟩ := h'.find? hfind'
  obtain rfl := Option.some.inj (hr'.symm.trans hfound')
  exact hbuilt.eq_of_settings hbuilt' hsettings

theorem built_of_new (blockSize : Nat) (source : σ) (commands : List (Command α)) :
    let w : Workspace σ α := ofArena (.ofBlockSize blockSize) source
    Table.Related Holding.Built (w.runCommands commands).arrays (Ledger.afterAll [] commands w) :=
  Ledger.related_afterAll Holding.upholds_built commands .nil

theorem push_error {w w' : Workspace σ α} {ledger : Ledger α} (h : Faithful w ledger)
    {array : String} {v : α} {fault : Fault}
    (hpush : perform (.push array [v]) w = .error (.fault fault) w') :
    Alike w w' ∧ ∃ holding, w.arrays.find? array = some holding ∧
      holding.NodeRefused w.store.arena w'.store.arena := by
  simp only [perform, push] at hpush
  split at hpush
  · simp at hpush
  · rename_i holding hfind
    split at hpush
    · simp at hpush
    · rename_i refusal s holding' hrefused
      obtain ⟨-, rfl⟩ : _ ∧ (w.setArray array s holding').destroy _ = w' := by simpa using hpush
      obtain ⟨r, -, hmatches⟩ := h.arrays.find? hfind
      obtain ⟨rfl, hnode⟩ := Holding.pushAll_singleton_error hmatches hrefused
      exact ⟨⟨Table.set_of_find? hfind, rfl⟩, holding', hfind, hnode⟩

omit [SlabSource σ] [Element α] in
theorem make_error {w w' : Workspace σ α} {array : String} {create : ArenaM σ β}
    {toHolding : β → Holding α} {fault : Fault}
    (hmake : make array (toHolding <$> create) w = .error (.fault fault) w') :
    Alike w w' ∧ create w.store = .error fault w'.store := by
  simp only [make, onStore, bind, EStateM.bind, Functor.map, EStateM.map] at hmake
  cases hcreate : create w.store with
  | ok a s =>
      rw [hcreate] at hmake
      cases hmake
  | error fault' s =>
      rw [hcreate] at hmake
      obtain ⟨rfl, rfl⟩ : fault' = fault ∧ { w with store := s } = w' := by simpa using hmake
      exact ⟨⟨rfl, rfl⟩, rfl⟩

end Workspace

open Workspace in
/-- A push that is refused leaves every array and every reader as it was. So does an array that
cannot be made; it leaves the arena too if its settings are bad. Otherwise the arena keeps its
chunks and the parts of the node that were granted before the refused one. And arrays of the same
settings that have accepted the same values are the same in any two runs, be it that in one of them
pushes were refused that the other never attempted. -/
theorem failures_leave_arrays_alone [SlabSource σ] [Element α] (blockSize : Nat) (source : σ)
    (commands : List (Command α)) :
    let w₀ : Workspace σ α := ofArena (.ofBlockSize blockSize) source
    let w := w₀.runCommands commands
    (∀ array value fault w', perform (.push array [value]) w = .error (.fault fault) w' →
      w.Untouched w' ∧ ∃ h, w.arrays.find? array = some h ∧
        h.NodeRefused w.store.arena w'.store.arena) ∧
    (∀ array kind growth fault w',
      perform (.makeTyped array kind growth) w = .error (.fault fault) w' →
        w.Untouched w' ∧ MakingFails growth
          (TypedArray.NodeRefused kind.footprint growth.initial) fault w.store w'.store) ∧
    (∀ array growth fault w', perform (.makePacked array growth) w = .error (.fault fault) w' →
      w.Untouched w' ∧ MakingFails growth
        (PackedArray.NodeRefused (PackedArray.roomy growth.initial)) fault w.store w'.store) ∧
    ∀ (τ : Type) [SlabSource τ] (blockSize' : Nat) (source' : τ) (commands' : List (Command α)),
      let w₀' : Workspace τ α := ofArena (.ofBlockSize blockSize') source'
      SameArrays w (Ledger.afterAll [] commands w₀) (w₀'.runCommands commands')
        (Ledger.afterAll [] commands' w₀') := by
  intro w₀ w
  refine ⟨?_, ?_, ?_, ?_⟩
  · intro array value fault w' hpush
    obtain ⟨halike, hnode⟩ := push_error (faithful_of_new blockSize source commands) hpush
    exact ⟨halike.untouched, hnode⟩
  · intro array kind growth fault w' hmake
    obtain ⟨halike, hcreate⟩ := make_error hmake
    exact ⟨halike.untouched, TypedArray.makingFails_of_create hcreate⟩
  · intro array growth fault w' hmake
    obtain ⟨halike, hcreate⟩ := make_error hmake
    exact ⟨halike.untouched, PackedArray.makingFails_of_create hcreate⟩
  · intro τ _ blockSize' source' commands'
    exact sameArrays_of_built (built_of_new blockSize source commands)
      (built_of_new blockSize' source' commands')

/-- The command failed, and a caller could go on. -/
def Workspace.faulted : EStateM.Result Failure (Workspace σ α) β → Bool
  | .error (.fault _) _ => true
  | _ => false

theorem Workspace.exists_of_faulted {r : EStateM.Result Failure (Workspace σ α) β}
    (h : faulted r) : ∃ fault w', r = .error (.fault fault) w' := by
  unfold faulted at h
  split at h
  · exact ⟨_, _, rfl⟩
  · simp at h

/-- What commands lead to if the heap has room for one node, and not for another. -/
def Workspace.onTightHeap (commands : List (Command Value)) : Workspace LinearHeap Value :=
  runCommands commands (ofArena (.ofBlockSize 1) { limit := 200 })

deriving instance DecidableEq for Record

open Workspace in
theorem failures_on_tight_heap :
    let w := onTightHeap [.makeTyped "a" .word .standard, .push "a" [.natural 7]]
    let refused := onTightHeap
      [.makeTyped "a" .word .standard, .push "a" [.natural 7], .push "a" [.natural 8]]
    (∃ fault w', perform (.push "a" [.natural 8]) w = .error (.fault fault) w' ∧
      w.Untouched w') ∧
    (∃ fault w', perform (.makeTyped "b" .word ⟨0, .threeHalves⟩) w = .error (.fault fault) w' ∧
      w.Untouched w') ∧
    (∃ fault w', perform (.makePacked "b" .standard) w = .error (.fault fault) w' ∧
      w.Untouched w') ∧
    ∃ h, w.arrays.find? "a" = some h ∧ refused.arrays.find? "a" = some h := by
  intro w refused
  have hpush : faulted (perform (.push "a" [.natural 8]) w) := by decide +kernel
  have htyped : faulted (perform (.makeTyped "b" .word ⟨0, .threeHalves⟩) w) := by
    decide +kernel
  have hpacked : faulted (perform (.makePacked "b" .standard) w) := by decide +kernel
  obtain ⟨pushFault, pushed, hpush⟩ := exists_of_faulted hpush
  obtain ⟨typedFault, typed, htyped⟩ := exists_of_faulted htyped
  obtain ⟨packedFault, packed, hpacked⟩ := exists_of_faulted hpacked
  obtain ⟨hpushes, htypes, hpacks, hsame⟩ := failures_leave_arrays_alone 1
    { limit := 200 : LinearHeap } [.makeTyped "a" .word .standard, .push "a" [Value.natural 7]]
  refine ⟨⟨_, _, hpush, (hpushes _ _ _ _ hpush).1⟩, ⟨_, _, htyped, (htypes _ _ _ _ _ htyped).1⟩,
    ⟨_, _, hpacked, (hpacks _ _ _ _ hpacked).1⟩, ?_⟩
  have hfind : (w.arrays.find? "a").isSome := by decide +kernel
  have hfind' : (refused.arrays.find? "a").isSome := by decide +kernel
  have hsettings : (w.arrays.find? "a").map Holding.settings =
      (refused.arrays.find? "a").map Holding.settings := by decide +kernel
  obtain ⟨h, hfind⟩ := Option.isSome_iff_exists.mp hfind
  obtain ⟨h', hfind'⟩ := Option.isSome_iff_exists.mp hfind'
  rw [hfind, hfind'] at hsettings
  have heq := hsame LinearHeap 1 { limit := 200 } [.makeTyped "a" .word .standard,
    .push "a" [.natural 7], .push "a" [.natural 8]] "a" "a" h h' (.values [.natural 7]) hfind
    (by decide +kernel) hfind' (by decide +kernel) (Option.some.inj hsettings)
  exact ⟨h, hfind, heq ▸ hfind'⟩

end GrowArena

import GrowArena.Proofs.Packed.Lookup
import GrowArena.Proofs.Typed.Lookup
import GrowArena.Proofs.Workspace.Ledger

/-!
Arrays are append-only lists. Whatever commands are carried out in a workspace, on whatever block
size and source of memory, each of its arrays represents the list of what it has accepted.
-/

namespace GrowArena

variable {σ α : Type} [SlabSource σ]

/-- The array represents the list, and pushing values onto it appends all of them, or exactly those
before the one whose push failed. -/
structure TypedArray.Refines (σ : Type) [SlabSource σ] (a : TypedArray α) (l : List α) : Prop where
  represents : a.Represents l
  pushAll_ok : ∀ (values : List α) (s s' : Store σ) (a' : TypedArray α),
    pushAll values (s, a) = .ok () (s', a') → a'.Represents (l ++ values)
  pushAll_error : ∀ (values : List α) (refusal : Refusal α) (s s' : Store σ) (a' : TypedArray α),
    pushAll values (s, a) = .error refusal (s', a') →
      ∃ before refused after reached, values = before ++ refused :: after ∧
        refusal.values = refused :: after ∧ pushAll before (s, a) = .ok () (reached, a') ∧
          push refused (reached, a') = .error refusal.fault (s', a') ∧
            a'.Represents (l ++ before)

theorem TypedArray.Contains.represents {a : TypedArray α} {l : List α} (h : a.Contains l) :
    a.Represents l := by
  obtain ⟨parts, hparts, rfl⟩ := h
  exact represents_of_holds hparts

theorem TypedArray.Contains.pushAll_ok {a a' : TypedArray α} {l values : List α} {s s' : Store σ}
    {u : Unit} (h : a.Contains l) (hpush : pushAll values (s, a) = .ok u (s', a')) :
    a'.Contains (l ++ values) := by
  have hcontains := (pushAll_contains values (s := s) h).1
  rw [hpush] at hcontains
  have haccepted : accepted push values (s, a) = values := accepted_of_pushEach_ok push hpush
  rwa [haccepted] at hcontains

theorem TypedArray.Contains.refines {a : TypedArray α} {l : List α} (h : a.Contains l) :
    a.Refines σ l where
  represents := h.represents
  pushAll_ok values s s' a' hpush := (h.pushAll_ok hpush).represents
  pushAll_error values refusal s s' a' hpush := by
    obtain ⟨before, refused, after, ⟨reached, b⟩, hvalues, hrefusal, hbefore, hrefused⟩ :=
      exists_of_pushEach_error push hpush
    have hcontains : b.Contains (l ++ before) := h.pushAll_ok hbefore
    obtain ⟨parts, hparts, hflat⟩ := hcontains
    obtain rfl : a' = b := push_error hparts hrefused
    exact ⟨before, refused, after, reached, hvalues, hrefusal, hbefore, hrefused,
      TypedArray.Contains.represents ⟨parts, hparts, hflat⟩⟩

/-- The array represents the list, and its readers decode a word wherever bytes are left to them. -/
structure PackedArray.Refines (a : PackedArray) (l : List UInt32) : Prop where
  represents : a.Represents l
  decodes : ∀ count, a.DecodesFrom (a.chain.nexts count a.chain.start).2

theorem PackedArray.Contains.refines {a : PackedArray} {l : List UInt32} (h : a.Contains l) :
    a.Refines l := by
  obtain ⟨parts, hparts, rfl⟩ := h
  refine ⟨represents_of_holds hparts, ?_⟩
  intro count
  have hstart := Chain.legible_start a.chain hparts.shows
  exact decodesFrom_of_legible hparts (Chain.legible_nexts a.chain hparts.shows count hstart)

namespace Holding

/-- Typed arrays refine the lists of their records. -/
inductive TypedRefines (σ : Type) [SlabSource σ] : Holding α → Record α → Prop
  | typed {kind : Kind} {a : TypedArray α} {l : List α} (h : a.Refines σ l) :
      TypedRefines σ (.typed kind a) (.values l)
  | packed {a : PackedArray} {l : List UInt32} : TypedRefines σ (.packed a) (.words l)

/-- Packed arrays refine the lists of their records. -/
inductive PackedRefines : Holding α → Record α → Prop
  | packed {a : PackedArray} {l : List UInt32} (h : a.Refines l) :
      PackedRefines (.packed a) (.words l)
  | typed {kind : Kind} {a : TypedArray α} {l : List α} : PackedRefines (.typed kind a) (.values l)

/-- A reader of a packed array decodes a word wherever bytes are left to it, however often it is
asked. -/
def ReaderDecodes (cursor : Cursor) : Holding α → Prop
  | packed a => ∀ count, a.DecodesFrom (a.chain.nexts count cursor).2
  | typed _ _ => True

end Holding

variable [Element α]

/-- In every state that commands lead to, every typed array represents the list of the values whose
pushes succeeded, in the order of the pushes. -/
theorem typed_arrays_refine_lists (blockSize : Nat) (source : σ) (commands : List (Command α)) :
    let w : Workspace σ α := .ofArena (.ofBlockSize blockSize) source
    Table.Related (Holding.TypedRefines σ) (w.runCommands commands).arrays
      (Ledger.afterAll [] commands w) := by
  intro w
  have hfaithful := Workspace.faithful_of_new (α := α) blockSize source commands
  apply hfaithful.arrays.imp
  intro h r hr
  cases hr with
  | typed h => exact .typed h.refines
  | packed h => exact .packed

example :
    Ledger.afterAll []
        [.makeTyped "a" .half .standard, .push "a" [.natural 7], .makePacked "b" .standard,
          .push "b" [.natural 300]]
        (.ofArena (.ofBlockSize 64) {} : Workspace LinearHeap Value) =
      [("a", .values [.natural 7]), ("b", .words [300])] := by
  cbv

/-- In every state that commands lead to, every packed array represents the list of the words whose
pushes succeeded, in the order of the pushes, and no reader of it ever meets bytes that are not a
word. -/
theorem packed_arrays_refine_lists (blockSize : Nat) (source : σ) (commands : List (Command α)) :
    let w : Workspace σ α := .ofArena (.ofBlockSize blockSize) source
    Table.Related Holding.PackedRefines (w.runCommands commands).arrays
        (Ledger.afterAll [] commands w) ∧
      ∀ entry ∈ (w.runCommands commands).readers,
        ∃ h, (w.runCommands commands).arrays.find? entry.2.array = some h ∧
          h.ReaderDecodes entry.2.cursor := by
  intro w
  have hfaithful := Workspace.faithful_of_new (α := α) blockSize source commands
  refine ⟨hfaithful.arrays.imp ?_, ?_⟩
  · intro h r hr
    cases hr with
    | typed h => exact .typed
    | packed h => exact .packed h.refines
  · intro entry hentry
    obtain ⟨h, hfind, hcursor⟩ := hfaithful.readers entry hentry
    refine ⟨h, hfind, ?_⟩
    obtain ⟨r, -, hr⟩ := hfaithful.arrays.find? hfind
    cases hr with
    | typed h => trivial
    | packed h =>
        obtain ⟨parts, hparts, -⟩ := h
        intro count
        exact PackedArray.decodesFrom_of_legible hparts
          (Chain.legible_nexts _ hparts.shows count hcursor)

end GrowArena

import GrowArena.Proofs.Workspace.Refinement

/-!
What looks at arrays are answered. The ledger alone tells it: whoever asks for the values of an
array, for one of them or for their number gets the same answer, whatever nodes the array consists
of.
-/

namespace GrowArena

variable {σ α : Type}

/-- What a look for the value at an index finds. -/
def valueAt (l : List α) (index : Nat) : Except Fault α :=
  match l[index]? with
  | some v => .ok v
  | none => .error (.indexOutOfBounds index l.length)

/-- What a look for the last value finds. -/
def lastValue (l : List α) : Except Fault α :=
  match l.getLast? with
  | some v => .ok v
  | none => .error .empty

namespace TypedArray

variable {a : TypedArray α} {l : List α}

theorem Contains.get_eq (h : a.Contains l) (index : Nat) : a.get index = valueAt l index := by
  rw [valueAt]
  by_cases hindex : index < l.length
  · rw [h.represents.get_of_lt index hindex, List.getElem?_eq_getElem hindex]
  · have hle := Nat.le_of_not_lt hindex
    rw [h.represents.get_of_le index hle, List.getElem?_eq_none hle]

theorem Contains.back_eq (h : a.Contains l) : a.back = lastValue l := h.represents.back_eq

end TypedArray

namespace Record

/-- The elements that a reader finds. -/
def toList [Element α] : Record α → List α
  | .values l => l
  | .words l => l.map Element.ofWord

/-- The number of values, or of the bytes of words. -/
def size : Record α → Nat
  | .values l => l.length
  | .words l => (l.map Leb128.width).sum

/-- The answer to who asks for values, of which a packed array has none. -/
def ask (array : String) (answer : List α → Except Failure (Answer α)) :
    Record α → Except Failure (Answer α)
  | .values l => answer l
  | .words _ => .error (.notTyped array)

end Record

/-- The answer to who asks for an array, if there is one of that name. -/
def Ledger.ask (ledger : Ledger α) (array : String)
    (answer : Record α → Except Failure (Answer α)) : Except Failure (Answer α) :=
  match ledger.find? array with
  | some r => answer r
  | none => .error (.unknown array)

/-- The answer to a look at the values of an array, by what the arrays have accepted. -/
def Ledger.answer? [Element α] (ledger : Ledger α) :
    Command α → Option (Except Failure (Answer α))
  | .get array index => some <| ledger.ask array <| Record.ask array fun l =>
      ((valueAt l index).map fun v => .content (.one v)).mapError .fault
  | .getOrAbort array index => some <| ledger.ask array <| Record.ask array fun l =>
      ((valueAt l index).map fun v => .content (.one v)).mapError fun fault => .abort fault.message
  | .back array => some <| ledger.ask array <| Record.ask array fun l =>
      ((lastValue l).map fun v => .content (.one v)).mapError .fault
  | .size array => some <| ledger.ask array fun r => .ok (.number r.size)
  | .isEmpty array => some <| ledger.ask array fun r => .ok (.flag r.toList.isEmpty)
  | .values array => some <| ledger.ask array fun r => .ok (.content (.many r.toList))
  | .sorted array => some <| ledger.ask array fun r =>
      .ok (.content (.many (Element.sort r.toList)))
  | .describe array overLines => some <| ledger.ask array fun r =>
      .ok (.text ((Text.Shape.list (r.toList.map Element.shape)).render overLines))
  | _ => none

namespace Holding

variable {h : Holding α} {r : Record α}

theorem Matches.toList_eq [Element α] (hr : h.Matches r) : h.toList = r.toList := by
  cases hr with
  | typed hcontains => exact hcontains.represents.toList_eq
  | packed hcontains =>
      obtain ⟨parts, hparts, rfl⟩ := hcontains
      exact congrArg (List.map Element.ofWord) (PackedArray.represents_of_holds hparts).toList_eq

theorem Matches.size_eq (hr : h.Matches r) : h.size = r.size := by
  cases hr with
  | typed hcontains => exact hcontains.represents.size_eq
  | packed hcontains =>
      obtain ⟨parts, hparts, rfl⟩ := hcontains
      exact (PackedArray.represents_of_holds hparts).byteSize_eq

theorem Matches.isEmpty_eq [Element α] (hr : h.Matches r) : h.isEmpty = r.toList.isEmpty := by
  rw [Bool.eq_iff_iff, List.isEmpty_iff]
  cases hr with
  | typed hcontains => exact hcontains.represents.isEmpty_iff
  | packed hcontains =>
      obtain ⟨parts, hparts, rfl⟩ := hcontains
      rw [Record.toList, List.map_eq_nil_iff]
      exact (PackedArray.represents_of_holds hparts).isEmpty_iff

end Holding

namespace Workspace

variable {w : Workspace σ α} {ledger : Ledger α}

theorem Faithful.resultOf_holding (h : Faithful w ledger) (array : String)
    {answer : Holding α → Answer α} {answer' : Record α → Except Failure (Answer α)}
    (hanswer : ∀ {h r}, Holding.Matches h r → .ok (answer h) = answer' r) :
    resultOf ((do return answer (← holding array) : WorkspaceM σ α (Answer α)) w) =
      ledger.ask array answer' := by
  simp only [holding, bind, EStateM.bind, Ledger.ask]
  cases hfind : w.arrays.find? array with
  | none =>
      rw [h.arrays.find?_eq_none hfind]
      rfl
  | some found =>
      obtain ⟨r, hr, hmatches⟩ := h.arrays.find? hfind
      rw [hr]
      exact hanswer hmatches

theorem Faithful.resultOf_typedArray (h : Faithful w ledger) (array : String)
    {act : TypedArray α → WorkspaceM σ α (Answer α)}
    {answer : List α → Except Failure (Answer α)}
    (hanswer : ∀ {a l}, TypedArray.Contains a l → resultOf (act a w) = answer l) :
    resultOf ((typedArray array >>= act) w) = ledger.ask array (Record.ask array answer) := by
  simp only [typedArray, bind, EStateM.bind, Ledger.ask]
  cases hfind : w.arrays.find? array with
  | none =>
      rw [h.arrays.find?_eq_none hfind]
      rfl
  | some found =>
      obtain ⟨r, hr, hmatches⟩ := h.arrays.find? hfind
      rw [hr]
      cases hmatches with
      | typed hcontains => exact hanswer hcontains
      | packed => rfl

variable [SlabSource σ] [Element α]

/-- A look at the values of an array is answered by what the arrays have accepted. -/
theorem Faithful.result_look (h : Faithful w ledger) {c : Command α}
    {result : Except Failure (Answer α)} (hresult : ledger.answer? c = some result) :
    (w.step (.command c)).1.result = result := by
  have hquiet : Faithful w.quieted ledger := ⟨h.arrays, h.readers⟩
  rw [result_step]
  cases c with
  | get array index =>
      obtain rfl := Option.some.inj hresult
      refine hquiet.resultOf_typedArray array fun hcontains => ?_
      rw [hcontains.get_eq]
      cases valueAt _ index <;> rfl
  | getOrAbort array index =>
      obtain rfl := Option.some.inj hresult
      refine hquiet.resultOf_typedArray array fun hcontains => ?_
      rw [hcontains.get_eq]
      cases valueAt _ index <;> rfl
  | back array =>
      obtain rfl := Option.some.inj hresult
      refine hquiet.resultOf_typedArray array fun hcontains => ?_
      rw [hcontains.back_eq]
      cases lastValue _ <;> rfl
  | size array =>
      obtain rfl := Option.some.inj hresult
      exact hquiet.resultOf_holding array fun hr => by rw [hr.size_eq]
  | isEmpty array =>
      obtain rfl := Option.some.inj hresult
      exact hquiet.resultOf_holding array fun hr => by rw [hr.isEmpty_eq]
  | «values» array =>
      obtain rfl := Option.some.inj hresult
      exact hquiet.resultOf_holding array fun hr => by rw [hr.toList_eq]
  | sorted array =>
      obtain rfl := Option.some.inj hresult
      exact hquiet.resultOf_holding array fun hr => by rw [hr.toList_eq]
  | describe array overLines =>
      obtain rfl := Option.some.inj hresult
      exact hquiet.resultOf_holding array fun hr => by rw [hr.toList_eq]
  | _ => cases hresult

end Workspace

open Workspace in
/-- In every state that commands lead to, looks at the values of arrays are answered by what the
arrays have accepted. -/
theorem looks_follow_ledger [SlabSource σ] [Element α] (blockSize : Nat) (source : σ)
    (commands : List (Command α)) :
    let w₀ : Workspace σ α := ofArena (.ofBlockSize blockSize) source
    ∀ c result, (Ledger.afterAll [] commands w₀).answer? c = some result →
      ((w₀.runCommands commands).step (.command c)).1.result = result := by
  intro w₀ c result hresult
  exact (faithful_of_new blockSize source commands).result_look hresult

end GrowArena

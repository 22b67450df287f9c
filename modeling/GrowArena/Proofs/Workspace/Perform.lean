import GrowArena.Proofs.Workspace.Looking

/-!
What a command answers, and what it leaves behind in the store, the arrays and the readers of a
workspace, whether it fails or not. Whatever is kept true by every one of these effects is kept true
by every run.
-/

namespace GrowArena

variable {σ α : Type}

/-- What a computation results in, without the state that it leaves behind. -/
def resultOf {ε τ β : Type} : EStateM.Result ε τ β → Except ε β
  | .ok b _ => .ok b
  | .error e _ => .error e

/-- The request of a command that asks for memory once and for nothing else. -/
def Command.request? : Command α → Option Request
  | .allocate r => some r
  | .keep _ kind _ =>
      some { bytes := kind.footprint.size, alignment := kind.footprint.alignment }
  | .keepMany _ kind contents =>
      some { bytes := kind.footprint.size * contents.length, alignment := kind.footprint.alignment }
  | .keepText _ text => some { bytes := text.utf8ByteSize }
  | _ => none

/-- The command may neither make nor change nor destroy an array. -/
def Command.keepsArrays : Command α → Bool
  | .rewind | .makeTyped .. | .makePacked .. | .push .. | .drop _ => false
  | _ => true

/-- The command may neither make nor move nor destroy a reader. -/
def Command.keepsReaders : Command α → Bool
  | .rewind | .drop _ | .openReader .. | .copyReader .. | .read .. => false
  | _ => true

theorem Command.keepsArrays_of_request? {c : Command α} {r : Request} (h : c.request? = some r) :
    c.keepsArrays = true := by
  cases c <;> first | rfl | cases h

theorem Command.keepsReaders_of_request? {c : Command α} {r : Request} (h : c.request? = some r) :
    c.keepsReaders = true := by
  cases c <;> first | rfl | cases h

variable [SlabSource σ] [Element α]

namespace Holding

theorem finalState_pushAll_typed (values : List α) (s : Store σ) (kind : Kind) (a : TypedArray α) :
    finalState (pushAll values (s, typed kind a)) =
      ((finalState (TypedArray.pushAll values (s, a))).1,
        typed kind (finalState (TypedArray.pushAll values (s, a))).2) := by
  simp only [pushAll]
  cases TypedArray.pushAll values (s, a) <;> rfl

theorem finalState_pushAll_packed (values : List α) (s : Store σ) (a : PackedArray) :
    finalState (pushAll values (s, (packed a : Holding α))) =
      ((finalState (PackedArray.pushAll (values.map Element.toWord) (s, a))).1,
        packed (finalState (PackedArray.pushAll (values.map Element.toWord) (s, a))).2) := by
  simp only [pushAll]
  cases PackedArray.pushAll (values.map Element.toWord) (s, a) <;> rfl

end Holding

namespace Workspace

/-- What a command may answer and do to a workspace. -/
inductive Effect (w : Workspace σ α) :
    Command α → Except Failure (Answer α) → Workspace σ α → Prop
  | nothing {c : Command α} {result : Except Failure (Answer α)} (hrequest : c.request? = none)
      (harrays : c.keepsArrays = true) (hreaders : c.keepsReaders = true) : Effect w c result w
  | granted {c : Command α} {w' : Workspace σ α} {r : Request} {answer : Answer α} {address : Nat}
      {s : Store σ} (h : c.request? = some r)
      (hallocate : Store.allocate r w.store = .ok address s)
      (hanswer : answer.address? = some address) (hstore : w'.store = s)
      (harrays : w'.arrays = w.arrays) (hreaders : w'.readers = w.readers) :
      Effect w c (.ok answer) w'
  | denied {c : Command α} {w' : Workspace σ α} {r : Request} {fault : Fault} {s : Store σ}
      (h : c.request? = some r) (hallocate : Store.allocate r w.store = .error fault s)
      (hstore : w'.store = s) (harrays : w'.arrays = w.arrays)
      (hreaders : w'.readers = w.readers) : Effect w c (.error (.fault fault)) w'
  | madeTyped {array : String} {kind : Kind} {growth : Growth} {a : TypedArray α} {s : Store σ}
      (h : TypedArray.create kind.footprint growth w.store = .ok a s) :
      Effect w (.makeTyped array kind growth) (.ok .done)
        { w with store := s, arrays := w.arrays ++ [(array, .typed kind a)] }
  | failedTyped {array : String} {kind : Kind} {growth : Growth} {fault : Fault} {s : Store σ}
      (h : TypedArray.create (α := α) kind.footprint growth w.store = .error fault s) :
      Effect w (.makeTyped array kind growth) (.error (.fault fault)) { w with store := s }
  | madePacked {array : String} {growth : Growth} {a : PackedArray} {s : Store σ}
      (h : PackedArray.create growth w.store = .ok a s) :
      Effect w (.makePacked array growth) (.ok .done)
        { w with store := s, arrays := w.arrays ++ [(array, .packed a)] }
  | failedPacked {array : String} {growth : Growth} {fault : Fault} {s : Store σ}
      (h : PackedArray.create growth w.store = .error fault s) :
      Effect w (.makePacked array growth) (.error (.fault fault)) { w with store := s }
  | pushed {array : String} {values : List α} {h h' : Holding α} {s : Store σ} {u : Unit}
      (hfind : w.arrays.find? array = some h)
      (hpush : Holding.pushAll values (w.store, h) = .ok u (s, h')) :
      Effect w (.push array values) (.ok .done) (w.setArray array s h')
  | refused {array : String} {values : List α} {h h' : Holding α} {s : Store σ}
      {refusal : Refusal α} (hfind : w.arrays.find? array = some h)
      (hpush : Holding.pushAll values (w.store, h) = .error refusal (s, h')) :
      Effect w (.push array values) (.error (.fault refusal.fault))
        ((w.setArray array s h').destroy (h'.reported refusal.values))
  | missedPush {array : String} {values : List α} (h : w.arrays.find? array = none) :
      Effect w (.push array values) (.error (.unknown array)) w
  | dropped {array : String} {h : Holding α} (hfind : w.arrays.find? array = some h) :
      Effect w (.drop array) (.ok .done) (w.drop array h)
  | missedDrop {array : String} (h : w.arrays.find? array = none) :
      Effect w (.drop array) (.error (.unknown array)) w
  | opened {array reader : String} {h : Holding α} (hfind : w.arrays.find? array = some h) :
      Effect w (.openReader array reader) (.ok .done)
        (w.setReader reader { array, cursor := h.start })
  | missedOpen {array reader : String} (h : w.arrays.find? array = none) :
      Effect w (.openReader array reader) (.error (.unknown array)) w
  | copied {reader copy : String} {b : Bookmark} (hfind : w.readers.find? reader = some b) :
      Effect w (.copyReader reader copy) (.ok .done) (w.setReader copy b)
  | missedCopy {reader copy : String} (h : w.readers.find? reader = none) :
      Effect w (.copyReader reader copy) (.error (.unknown reader)) w
  | moved {reader : String} {count : Nat} {b : Bookmark} {h : Holding α}
      (hreader : w.readers.find? reader = some b) (hfind : w.arrays.find? b.array = some h) :
      Effect w (.read reader count) (.ok (.results (h.nexts count b.cursor).1))
        (w.setReader reader { b with cursor := (h.nexts count b.cursor).2 })
  | missedRead {reader name : String} {count : Nat}
      (h : ∀ b, w.readers.find? reader = some b → w.arrays.find? b.array = none) :
      Effect w (.read reader count) (.error (.unknown name)) w
  | cleared : Effect w .rewind (.ok .done) w.clear

omit [SlabSource σ] [Element α] in
theorem get_run (w : Workspace σ α) : (get : WorkspaceM σ α (Workspace σ α)) w = .ok w w := rfl

theorem effect_keepAs {c : Command α} {r : Request} (h : c.request? = some r) (reference : String)
    (content : Content α) (w : Workspace σ α) :
    let result := keepAs reference r content w
    Effect w c (resultOf result) (finalState result) := by
  simp only [keepAs, onStore, bind, EStateM.bind]
  cases hallocate : Store.allocate r w.store with
  | ok address s => exact .granted h hallocate rfl rfl rfl rfl
  | error fault s => exact .denied h hallocate rfl rfl rfl

theorem effect_perform (c : Command α) (w : Workspace σ α) :
    Effect w c (resultOf (perform c w)) (finalState (perform c w)) := by
  cases c with
  | allocate r =>
      simp only [perform, onStore, bind, EStateM.bind]
      cases hallocate : Store.allocate r w.store with
      | ok address s => exact .granted rfl hallocate rfl rfl rfl rfl
      | error fault s => exact .denied rfl hallocate rfl rfl rfl
  | keep reference kind value =>
      simp only [perform, keepOrDestroy, keepAs, onStore, bind, EStateM.bind]
      cases hallocate : Store.allocate
          { bytes := kind.footprint.size, alignment := kind.footprint.alignment } w.store with
      | ok address s => exact .granted rfl hallocate rfl rfl rfl rfl
      | error fault s =>
          dsimp only
          split <;> exact .denied rfl hallocate rfl rfl rfl
  | keepMany reference kind values =>
      have hrequest : (Command.keepMany reference kind values).request? = some
        { bytes := kind.footprint.size * values.length
          alignment := kind.footprint.alignment } := rfl
      exact effect_keepAs hrequest reference (.many values) w
  | keepText reference text =>
      have hrequest : (Command.keepText reference text : Command α).request? =
        some { bytes := text.utf8ByteSize } := rfl
      exact effect_keepAs hrequest reference (.text text) w
  | «recall» reference =>
      simp only [perform, bind, EStateM.bind, get_run]
      cases w.references.find? reference <;> exact .nothing rfl rfl rfl
  | describeArena => exact .nothing rfl rfl rfl
  | blockSize => exact .nothing rfl rfl rfl
  | rewind => exact .cleared
  | makeTyped array kind growth =>
      simp only [perform, make, onStore, bind, EStateM.bind, Functor.map, EStateM.map]
      cases hcreate : TypedArray.create kind.footprint growth w.store with
      | ok a s => exact .madeTyped hcreate
      | error fault s => exact .failedTyped hcreate
  | makePacked array growth =>
      simp only [perform, make, onStore, bind, EStateM.bind, Functor.map, EStateM.map]
      cases hcreate : PackedArray.create growth w.store with
      | ok a s => exact .madePacked hcreate
      | error fault s => exact .failedPacked hcreate
  | push array values =>
      simp only [perform, push]
      cases hfind : w.arrays.find? array with
      | none => exact .missedPush hfind
      | some h =>
          dsimp only
          cases hpush : Holding.pushAll values (w.store, h) with
          | ok u state => exact .pushed hfind hpush
          | error refusal state => exact .refused hfind hpush
  | drop array =>
      simp only [perform, holding, bind, EStateM.bind]
      cases hfind : w.arrays.find? array with
      | none => exact .missedDrop hfind
      | some h => exact .dropped hfind
  | openReader array reader =>
      simp only [perform, holding, bind, EStateM.bind]
      cases hfind : w.arrays.find? array with
      | none => exact .missedOpen hfind
      | some h => exact .opened hfind
  | copyReader reader copy =>
      simp only [perform, bookmark, bind, EStateM.bind]
      cases hreader : w.readers.find? reader with
      | none => exact .missedCopy hreader
      | some b => exact .copied hreader
  | read reader count =>
      simp only [perform, bookmark, holding, bind, EStateM.bind]
      cases hreader : w.readers.find? reader with
      | none => exact .missedRead fun b hb => by simp [hreader] at hb
      | some b =>
          dsimp only
          cases hfind : w.arrays.find? b.array with
          | none =>
              apply Effect.missedRead
              intro b' hb'
              obtain rfl := Option.some.inj (hreader.symm.trans hb')
              exact hfind
          | some h => exact .moved hreader hfind
  | get array index =>
      simp only [perform, typedArray, bind, EStateM.bind]
      cases w.arrays.find? array with
      | none => exact .nothing rfl rfl rfl
      | some h =>
        cases h with
        | packed a => exact .nothing rfl rfl rfl
        | typed kind a =>
            dsimp only
            cases a.get index <;> exact .nothing rfl rfl rfl
  | getOrAbort array index =>
      simp only [perform, typedArray, bind, EStateM.bind]
      cases w.arrays.find? array with
      | none => exact .nothing rfl rfl rfl
      | some h =>
        cases h with
        | packed a => exact .nothing rfl rfl rfl
        | typed kind a =>
            dsimp only
            cases a.get index <;> exact .nothing rfl rfl rfl
  | back array =>
      simp only [perform, typedArray, bind, EStateM.bind]
      cases w.arrays.find? array with
      | none => exact .nothing rfl rfl rfl
      | some h =>
        cases h with
        | packed a => exact .nothing rfl rfl rfl
        | typed kind a =>
            dsimp only
            cases a.back <;> exact .nothing rfl rfl rfl
  | _ array =>
      simp only [perform, holding, bind, EStateM.bind]
      cases w.arrays.find? array <;> exact .nothing rfl rfl rfl

theorem arrays_of_effect {w w' : Workspace σ α} {c : Command α}
    {result : Except Failure (Answer α)} (h : Effect w c result w') (hc : c.keepsArrays = true) :
    w'.arrays = w.arrays := by
  cases h with
  | granted _ _ _ _ harrays _ | denied _ _ _ harrays _ => exact harrays
  | madeTyped | madePacked | pushed | refused | dropped | cleared => cases hc
  | _ => rfl

theorem finalState_perform (c : Command α) (w : Workspace σ α) :
    (w.step (.command c)).2 = finalState (perform c w.quieted) := by
  simp only [step, carryOut]
  cases perform c w.quieted <;> rfl

theorem result_step (c : Command α) (w : Workspace σ α) :
    (w.step (.command c)).1.result = resultOf (perform c w.quieted) := by
  simp only [step, carryOut]
  cases perform c w.quieted <;> rfl

theorem effect_step (c : Command α) (w : Workspace σ α) :
    Effect w.quieted c (w.step (.command c)).1.result (w.step (.command c)).2 := by
  rw [result_step, finalState_perform]
  exact effect_perform c w.quieted

/-- The workspace after commands that are carried out in turn. -/
def runCommands (commands : List (Command α)) (w : Workspace σ α) : Workspace σ α :=
  (w.run (commands.map .command)).2

@[simp]
theorem runCommands_nil (w : Workspace σ α) : runCommands [] w = w := rfl

@[simp]
theorem runCommands_cons (c : Command α) (commands : List (Command α)) (w : Workspace σ α) :
    runCommands (c :: commands) w = runCommands commands (finalState (perform c w.quieted)) := by
  rw [← finalState_perform]
  rfl

end Workspace

end GrowArena

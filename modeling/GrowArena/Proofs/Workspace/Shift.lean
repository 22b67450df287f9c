import GrowArena.Proofs.Race.Shift
import GrowArena.Proofs.Workspace.Looking
import GrowArena.Proofs.Workspace.Perform
import GrowArena.Proofs.Workspace.Tables

/-!
Two workspaces over linear heaps that are the same but for the addresses in their arenas. A job
whose alignments divide the distance has the same outcome in both, but for the addresses that it
answers with, and leaves the workspaces as far apart as they were.
-/

namespace GrowArena

open List

variable {d : Int} {α β : Type}

/-- The alignments that a command names. A push goes by the alignment that the array was made
with. -/
def Command.alignments : Command α → List Nat
  | .allocate request => [request.alignment]
  | .keep _ kind _ | .keepMany _ kind _ | .makeTyped _ kind _ => [kind.footprint.alignment]
  | _ => []

def Job.alignments : Job α → List Nat
  | .command c => c.alignments
  | .raceAllocate requests _ => requests.flatten.map Request.alignment
  | .racePush .. => []

/-- The same answer, except that an address in it lies `d` behind. -/
inductive Answer.Shifted (d : Int) : Answer α → Answer α → Prop
  | address {n n' : Nat} (h : Shift d n n') : Shifted d (.address n) (.address n')
  | kept {n n' : Nat} (h : Shift d n n') (content : Content α) :
      Shifted d (.kept n content) (.kept n' content)
  | same {answer : Answer α} (h : answer.address? = none) : Shifted d answer answer

/-- The same answer but for addresses, or the same failure; the same events and the same values
destroyed. The counters are compared in the workspaces, since an outcome tells none after a race. -/
structure Outcome.Shifted (d : Int) (o o' : Outcome α) : Prop where
  result : (∃ answer answer', o.result = .ok answer ∧ o'.result = .ok answer' ∧
      answer.Shifted d answer') ∨
    ∃ failure, o.result = .error failure ∧ o'.result = .error failure
  events_eq : o'.events = o.events
  destroyed_eq : o'.destroyed = o.destroyed

namespace Holding

/-- The distance is a multiple of the alignment of the elements, if the array is typed. -/
def Fits (d : Int) : Holding α → Prop
  | typed _ a => a.Fits d
  | packed _ => True

variable [Element α] {state state' : Store LinearHeap × Holding α}

theorem tandem_pushAll (values : List α) (h : Beside d (Fits d) state state') :
    Tandem (Beside d (Fits d)) Eq (pushAll values state) (pushAll values state') := by
  obtain @⟨s, s', found, hs, hfits⟩ := h
  cases found with
  | typed kind a =>
      have hbeside : Beside d (TypedArray.Fits d) (s, a) (s', a) := ⟨hs, hfits⟩
      have hpushed := Tandem.pushEach (fun value _ _ => TypedArray.tandem_push value) values hbeside
      simp only [pushAll, TypedArray.pushAll]
      generalize pushEach TypedArray.push values (s, a) = r,
        pushEach TypedArray.push values (s', a) = r' at hpushed
      cases hpushed with
      | ok _ hstate =>
          obtain ⟨hs, ha⟩ := hstate
          exact .ok rfl ⟨hs, ha⟩
      | error hstate =>
          obtain ⟨hs, ha⟩ := hstate
          exact .error ⟨hs, ha⟩
  | packed a =>
      have hbeside : Beside d PackedArray.Fits (s, a) (s', a) := ⟨hs, trivial⟩
      have hpushed := Tandem.pushEach (fun word _ _ => PackedArray.tandem_push word)
        (values.map Element.toWord) hbeside
      simp only [pushAll, PackedArray.pushAll]
      generalize pushEach PackedArray.push _ (s, a) = r, pushEach PackedArray.push _ (s', a) = r'
        at hpushed
      cases hpushed with
      | ok _ hstate =>
          obtain ⟨hs, -⟩ := hstate
          exact .ok rfl ⟨hs, trivial⟩
      | error hstate =>
          obtain ⟨hs, -⟩ := hstate
          exact .error ⟨hs, trivial⟩

theorem besideRacePush (h : Beside d (Fits d) state state') (values : List (List α))
    (schedule : Schedule) :
    (racePush values schedule state').1 = (racePush values schedule state).1 ∧
      Beside d (Fits d) (racePush values schedule state).2
        (racePush values schedule state').2 := by
  obtain @⟨s, s', found, hs, hfits⟩ := h
  cases found with
  | typed kind a =>
      have hbeside : Beside d (TypedArray.Fits d) (s, a) (s', a) := ⟨hs, hfits⟩
      obtain ⟨hrace, hstate⟩ := TypedArray.besideRacePush hbeside values schedule
      simp only [racePush]
      generalize GrowArena.racePush values schedule (s, a) = r,
        GrowArena.racePush values schedule (s', a) = r' at hrace hstate
      obtain ⟨race, state⟩ := r
      obtain ⟨race', state'⟩ := r'
      obtain ⟨hs, ha⟩ := hstate
      exact ⟨hrace, ⟨hs, ha⟩⟩
  | packed a =>
      have hbeside : Beside d PackedArray.Fits (s, a) (s', a) := ⟨hs, trivial⟩
      obtain ⟨hrace, hstate⟩ := PackedArray.besideRacePush hbeside
        (values.map (·.map Element.toWord)) schedule
      simp only [racePush]
      generalize GrowArena.racePush _ schedule (s, a) = r,
        GrowArena.racePush _ schedule (s', a) = r' at hrace hstate
      obtain ⟨race, state⟩ := r
      obtain ⟨race', state'⟩ := r'
      obtain rfl : race' = race := hrace
      obtain ⟨hs, -⟩ := hstate
      exact ⟨rfl, ⟨hs, trivial⟩⟩

end Holding

namespace Workspace

/-- The same workspace but for the addresses in its arena. All arrays fit the distance. -/
structure Shifted (d : Int) (w w' : Workspace LinearHeap α) : Prop where
  store : w.store.Shifted d w'.store
  arrays : Table.Related (fun h h' => h' = h ∧ h.Fits d) w.arrays w'.arrays
  readers_eq : w'.readers = w.readers
  references_eq : w'.references = w.references
  destroyed_eq : w'.destroyed = w.destroyed

namespace Shifted

variable {w w' : Workspace LinearHeap α}

theorem arrays_eq (h : w.Shifted d w') : w'.arrays = w.arrays :=
  h.arrays.eq fun _ _ hholding => hholding.1

theorem counters_eq (h : w.Shifted d w') : w'.counters = w.counters := by
  simp only [counters, h.store.arena.used_eq, h.store.arena.allocated_eq, h.store.arena.size_eq]

theorem quieted (h : w.Shifted d w') : w.quieted.Shifted d w'.quieted :=
  ⟨⟨h.store.source, h.store.arena, rfl⟩, h.arrays, h.readers_eq, h.references_eq, rfl⟩

theorem destroy (h : w.Shifted d w') (values : List α) :
    (w.destroy values).Shifted d (w'.destroy values) := by
  refine ⟨h.store, h.arrays, h.readers_eq, h.references_eq, ?_⟩
  rw [Workspace.destroy, Workspace.destroy, h.destroyed_eq]

theorem withStore (h : w.Shifted d w') {s s' : Store LinearHeap} (hs : s.Shifted d s') :
    Shifted d { w with store := s } { w' with store := s' } :=
  ⟨hs, h.arrays, h.readers_eq, h.references_eq, h.destroyed_eq⟩

theorem setReader (h : w.Shifted d w') (name : String) (b : Bookmark) :
    (w.setReader name b).Shifted d (w'.setReader name b) := by
  refine ⟨h.store, h.arrays, ?_, h.references_eq, h.destroyed_eq⟩
  rw [Workspace.setReader, Workspace.setReader, h.readers_eq]

theorem setReference (h : w.Shifted d w') (name : String) (content : Content α) :
    (w.setReference name content).Shifted d (w'.setReference name content) := by
  refine ⟨h.store, h.arrays, h.readers_eq, ?_, h.destroyed_eq⟩
  rw [Workspace.setReference, Workspace.setReference, h.references_eq]

theorem beside (h : w.Shifted d w') {array : String} {found : Holding α}
    (hfind : w.arrays.find? array = some found) :
    Beside d (Holding.Fits d) (w.store, found) (w'.store, found) := by
  obtain ⟨_, -, -, hfits⟩ := h.arrays.find? hfind
  exact ⟨h.store, hfits⟩

theorem setArray (h : w.Shifted d w') (array : String)
    {state state' : Store LinearHeap × Holding α}
    (hstate : Beside d (Holding.Fits d) state state') :
    (w.setArray array state.1 state.2).Shifted d (w'.setArray array state'.1 state'.2) := by
  obtain ⟨hs, hfits⟩ := hstate
  exact ⟨hs, h.arrays.set array ⟨rfl, hfits⟩, h.readers_eq, h.references_eq, h.destroyed_eq⟩

theorem drop (h : w.Shifted d w') (array : String) (found : Holding α) :
    (w.drop array found).Shifted d (w'.drop array found) := by
  refine ⟨h.store, h.arrays.remove array, ?_, h.references_eq, ?_⟩
  · simp only [Workspace.drop, Workspace.destroy, h.readers_eq]
  · simp only [Workspace.drop, Workspace.destroy, h.destroyed_eq]

theorem clear (h : w.Shifted d w') : w.clear.Shifted d w'.clear := by
  refine ⟨h.store.rewind, .nil, rfl, rfl, ?_⟩
  simp only [Workspace.clear, Workspace.destroy, destruction, h.arrays_eq, h.destroyed_eq]

theorem sameLook : SameLook (Shifted d (α := α)) where
  arrays h := h.arrays_eq
  readers h := h.readers_eq
  setReader h := h.setReader

theorem onStore (h : w.Shifted d w') {A : β → β → Prop} {act : ArenaM LinearHeap β}
    (hact : Tandem (Store.Shifted d) A (act w.store) (act w'.store)) :
    Tandem (Shifted d) A (onStore act w) (onStore act w') := by
  simp only [Workspace.onStore]
  generalize act w.store = r, act w'.store = r' at hact
  cases hact with
  | ok hb hs => exact .ok hb (h.withStore hs)
  | error hs => exact .error (h.withStore hs)

theorem keepAs (h : w.Shifted d w') (reference : String) {request : Request}
    (hrequest : (request.alignment : Int) ∣ d) (content : Content α) :
    Tandem (Shifted d) (Answer.Shifted d) (keepAs reference request content w)
      (keepAs reference request content w') := by
  refine (h.onStore (h.store.allocate hrequest)).bind ?_
  intro address address' v v' haddress hv
  exact .ok (.kept haddress content) (hv.setReference reference content)

theorem keepOrDestroy (h : w.Shifted d w') (reference : String) {kind : Kind}
    (hkind : (kind.footprint.alignment : Int) ∣ d) (value : α) :
    Tandem (Shifted d) (Answer.Shifted d) (keepOrDestroy reference kind value w)
      (keepOrDestroy reference kind value w') := by
  have hrequest : ((Request.mk kind.footprint.size kind.footprint.alignment).alignment : Int) ∣ d :=
    hkind
  have hkept := h.keepAs reference hrequest (.one value)
  simp only [Workspace.keepOrDestroy]
  generalize Workspace.keepAs reference _ _ w = r, Workspace.keepAs reference _ _ w' = r' at hkept
  cases hkept with
  | ok hanswer hv => exact .ok hanswer hv
  | error hv =>
      dsimp only
      split
      · exact .error (hv.destroy [value])
      · exact .error hv

theorem make (h : w.Shifted d w') (array : String) {create : ArenaM LinearHeap (Holding α)}
    (hcreate : Tandem (Store.Shifted d) (fun found found' => found' = found ∧ found.Fits d)
      (create w.store) (create w'.store)) :
    Tandem (Shifted d) (Answer.Shifted d) (make array create w) (make array create w') := by
  refine (h.onStore hcreate).bind ?_
  intro found found' v v' hfound hv
  exact .ok (.same rfl) ⟨hv.store, hv.arrays.concat array hfound, hv.readers_eq,
    hv.references_eq, hv.destroyed_eq⟩

theorem makeTyped (h : w.Shifted d w') (array : String) {kind : Kind}
    (hkind : (kind.footprint.alignment : Int) ∣ d) (growth : Growth) :
    Tandem (Shifted d) (Answer.Shifted d)
      (Workspace.make array (Holding.typed kind <$> TypedArray.create kind.footprint growth) w)
      (Workspace.make array (Holding.typed kind <$> TypedArray.create kind.footprint growth)
        w') := by
  refine h.make array ?_
  have hcreated := TypedArray.tandem_create (α := α) h.store hkind growth
  simp only [Functor.map, EStateM.map]
  generalize TypedArray.create kind.footprint growth w.store = r,
    TypedArray.create kind.footprint growth w'.store = r' at hcreated
  cases hcreated with
  | ok ha hs => exact .ok ⟨by rw [ha.1], ha.2⟩ hs
  | error hs => exact .error hs

theorem makePacked (h : w.Shifted d w') (array : String) (growth : Growth) :
    Tandem (Shifted d) (Answer.Shifted d)
      (Workspace.make array (Holding.packed <$> PackedArray.create growth) w)
      (Workspace.make array (Holding.packed <$> PackedArray.create growth) w') := by
  refine h.make array ?_
  have hcreated := PackedArray.tandem_create h.store growth
  simp only [Functor.map, EStateM.map]
  generalize PackedArray.create growth w.store = r, PackedArray.create growth w'.store = r'
    at hcreated
  cases hcreated with
  | ok ha hs => exact .ok ⟨by rw [ha], trivial⟩ hs
  | error hs => exact .error hs

theorem raceForMemory (h : w.Shifted d w') {requests : List (List Request)}
    (hrequests : ∀ rs ∈ requests, ∀ r ∈ rs, (r.alignment : Int) ∣ d) (schedule : Schedule) :
    Tandem (Shifted d) (Answer.Shifted d) (raceForMemory requests schedule w)
      (raceForMemory requests schedule w') := by
  obtain ⟨hcallers, hs⟩ := h.store.raceAllocate hrequests schedule
  simp only [Workspace.raceForMemory]
  generalize w.store.raceAllocate requests schedule = r,
    w'.store.raceAllocate requests schedule = r' at hcallers hs
  obtain ⟨callers, s⟩ := r
  obtain ⟨callers', s'⟩ := r'
  dsimp only at hcallers hs
  have hgrants : Forall₂ (Grant.Shifted d) (callers.flatMap Caller.granted)
      (callers'.flatMap Caller.granted) := rel_flatMap hcallers fun _ _ hc => hc.granted
  have hraced : Shifted d { w with store := s, raced := true }
      { w' with store := s', raced := true } :=
    ⟨hs, h.arrays, h.readers_eq, h.references_eq, h.destroyed_eq⟩
  dsimp only
  rw [Caller.fault_eq_of_shifted hcallers]
  cases callers.findSome? Caller.fault with
  | some fault => exact .error hraced
  | none =>
      refine .ok ?_ hraced
      simp only [Grant.all_aligned_eq_of_shifted hgrants, Grant.disjoint_iff_of_shifted hgrants,
        hs.arena.used_eq, hs.arena.allocated_eq]
      exact .same rfl

variable [Element α]

theorem push (h : w.Shifted d w') (array : String) (values : List α) :
    Tandem (Shifted d) (Answer.Shifted d) (push array values w) (push array values w') := by
  simp only [Workspace.push, h.arrays_eq]
  cases hfind : w.arrays.find? array with
  | none => exact .error h
  | some found =>
      have hpushed := Holding.tandem_pushAll values (h.beside hfind)
      dsimp only
      generalize Holding.pushAll values (w.store, found) = r,
        Holding.pushAll values (w'.store, found) = r' at hpushed
      cases hpushed with
      | ok _ hstate => exact .ok (.same rfl) (h.setArray array hstate)
      | error hstate =>
          have hset := h.setArray array hstate
          obtain ⟨hs, -⟩ := hstate
          exact .error (hset.destroy _)

theorem perform (h : w.Shifted d w') {c : Command α}
    (hc : ∀ alignment ∈ c.alignments, (alignment : Int) ∣ d) :
    Tandem (Shifted d) (Answer.Shifted d) (perform c w) (perform c w') := by
  cases c with
  | allocate request =>
      refine (h.onStore (h.store.allocate (by simpa [Command.alignments] using hc))).bind ?_
      intro address address' v v' haddress hv
      exact .ok (.address haddress) hv
  | keep reference kind value =>
      exact h.keepOrDestroy reference (by simpa [Command.alignments] using hc) value
  | keepMany reference kind values =>
      exact h.keepAs reference (by simpa [Command.alignments] using hc) (.many values)
  | keepText reference text => exact h.keepAs reference (Int.one_dvd d) (.text text)
  | «recall» reference =>
      simp only [Workspace.perform, bind, EStateM.bind, get_run, h.references_eq]
      cases w.references.find? reference with
      | none => exact .error h
      | some content => exact .ok (.same rfl) h
  | describeArena overLines =>
      have hanswer : Answer.Shifted (α := α) d (.text (w.store.arena.shape.render overLines))
          (.text (w'.store.arena.shape.render overLines)) := by
        rw [h.store.arena.shape_eq]
        exact .same rfl
      exact .ok hanswer h
  | blockSize =>
      have hanswer : Answer.Shifted (α := α) d (.number w.store.arena.blockSize)
          (.number w'.store.arena.blockSize) := by
        rw [h.store.arena.blockSize_eq]
        exact .same rfl
      exact .ok hanswer h
  | rewind => exact .ok (.same rfl) h.clear
  | makeTyped array kind growth =>
      exact h.makeTyped array (by simpa [Command.alignments] using hc) growth
  | makePacked array growth => exact h.makePacked array growth
  | push array values => exact h.push array values
  | drop array =>
      refine (sameLook.holding h array).bind ?_
      rintro found _ v v' rfl hv
      exact .ok (.same rfl) (hv.drop array found)
  | _ =>
      refine (sameLook.perform h rfl).imp (fun _ _ hv => hv) ?_
      rintro answer _ ⟨rfl, hanswer⟩
      exact .same hanswer

theorem race (h : w.Shifted d w') (array : String) (values : List (List α)) (schedule : Schedule) :
    Tandem (Shifted d) (Answer.Shifted d) (race array values schedule w)
      (race array values schedule w') := by
  simp only [Workspace.race, h.arrays_eq]
  cases hfind : w.arrays.find? array with
  | none => exact .error h
  | some found =>
      obtain ⟨hrace, hstate⟩ := Holding.besideRacePush (h.beside hfind) values schedule
      dsimp only
      generalize Holding.racePush values schedule (w.store, found) = r,
        Holding.racePush values schedule (w'.store, found) = r' at hrace hstate
      obtain ⟨race, s, found⟩ := r
      obtain ⟨race', s', found'⟩ := r'
      obtain rfl : race' = race := hrace
      obtain rfl : found' = found := hstate.eq
      have hraced : ∀ values : List α, Shifted d
          ({ w.setArray array s found' with raced := true }.destroy values)
          ({ w'.setArray array s' found' with raced := true }.destroy values) := by
        intro values
        have hset := (h.setArray array hstate).destroy values
        exact ⟨hset.store, hset.arrays, hset.readers_eq, hset.references_eq, hset.destroyed_eq⟩
      dsimp only
      split
      · exact .error (hraced _)
      · exact .ok (.same rfl) (hraced _)

theorem carryOut (h : w.Shifted d w') {job : Job α}
    (hjob : ∀ alignment ∈ job.alignments, (alignment : Int) ∣ d) :
    Tandem (Shifted d) (Answer.Shifted d) (carryOut job w) (carryOut job w') := by
  cases job with
  | command c => exact h.perform hjob
  | raceAllocate requests schedule =>
      refine h.raceForMemory ?_ schedule
      intro rs hrs r hr
      exact hjob _ (List.mem_map_of_mem (List.mem_flatten_of_mem hrs hr))
  | racePush array values schedule => exact h.race array values schedule

/-- Jobs of such alignments have the same outcomes one by one, and lead to workspaces that are as
far apart. -/
theorem run (h : w.quieted.Shifted d w'.quieted) {jobs : List (Job α)}
    (hjobs : ∀ job ∈ jobs, ∀ alignment ∈ job.alignments, (alignment : Int) ∣ d) :
    Forall₂ (Outcome.Shifted d) (run jobs w).1 (run jobs w').1 ∧
      (run jobs w).2.quieted.Shifted d (run jobs w').2.quieted := by
  induction jobs generalizing w w' with
  | nil => exact ⟨.nil, h⟩
  | cons job jobs ih =>
      obtain ⟨hjob, hrest⟩ := List.forall_mem_cons.mp hjobs
      have hfirst := h.carryOut hjob
      simp only [Workspace.run, step]
      generalize Workspace.carryOut job w.quieted = r, Workspace.carryOut job w'.quieted = r'
        at hfirst
      cases hfirst with
      | ok hanswer hv =>
          obtain ⟨houtcomes, hlast⟩ := ih hv.quieted hrest
          refine ⟨.cons ⟨.inl ⟨_, _, rfl, rfl, hanswer⟩, ?_, ?_⟩ houtcomes, hlast⟩
          · exact congrArg Array.toList hv.store.log_eq
          · exact congrArg Array.toList hv.destroyed_eq
      | error hv =>
          obtain ⟨houtcomes, hlast⟩ := ih hv.quieted hrest
          refine ⟨.cons ⟨.inr ⟨_, rfl, rfl⟩, ?_, ?_⟩ houtcomes, hlast⟩
          · exact congrArg Array.toList hv.store.log_eq
          · exact congrArg Array.toList hv.destroyed_eq

end Shifted

end Workspace

end GrowArena

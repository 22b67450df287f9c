import GrowArena.Proofs.Workspace.Ledger
import Mathlib.Algebra.Order.Group.Multiset
import Mathlib.Tactic.Abel

/-!
What becomes of the values that a workspace is given, if their destruction is watched. A push that
is refused gives its value up; an array gives up what it accepted when it is dropped; a value that
was put into the arena is never given up. Nothing else destroys a value, and no value is lost: those
handed over are those destroyed, those in arrays and those kept.
-/

namespace GrowArena

variable {σ α : Type}

/-- The array holds the recorded values, node by node, and will be destroyed node after node from
the head, each node from its highest slot down. -/
inductive Holding.Dissolves : Holding α → Record α → Prop
  | typed {kind : Kind} {a : TypedArray α} {parts : List (List α)} (h : a.Holds parts)
      (horder : a.destructionOrder = parts.flatMap List.reverse) :
      Dissolves (.typed kind a) (.values parts.flatten)
  | packed {a : PackedArray} {l : List UInt32} : Dissolves (.packed a) (.words l)

theorem Holding.Matches.dissolves {h : Holding α} {r : Record α} (hr : h.Matches r) :
    h.Dissolves r := by
  cases hr with
  | typed hcontains =>
      obtain ⟨parts, hparts, rfl⟩ := hcontains
      exact .typed hparts hparts.destructionOrder_eq
  | packed => exact .packed

namespace Command

/-- The watched values that a command hands over to an array or to the arena. -/
def handed (w : Workspace σ α) : Command α → List α
  | .push array contents => (w.arrays.find? array).elim [] (·.reported contents)
  | .keep _ kind value => if kind.isWatched then [value] else []
  | _ => []

/-- The watched value that the arena took with this outcome. -/
def kept (o : Outcome α) : Command α → List α
  | .keep _ kind value =>
      match o.result with
      | .ok _ => if kind.isWatched then [value] else []
      | .error _ => []
  | _ => []

def destroys : Command α → Bool
  | .rewind | .push .. | .drop _ | .keep .. => true
  | _ => false

end Command

namespace Holding

theorem destruction_perm (kind : Kind) {a : TypedArray α} {l : List α} (h : a.Contains l) :
    (typed kind a).destruction.Perm ((typed kind a).reported l) := by
  obtain ⟨parts, hparts, rfl⟩ := h
  rw [destruction, reported]
  split
  · rw [hparts.destructionOrder_eq, ← List.flatMap_id]
    exact List.Perm.flatMap_left parts fun part _ => part.reverse_perm
  · exact .refl _

theorem destruction_made (kind : Kind) (growth : Growth) :
    (typed kind (.made kind.footprint growth) : Holding α).destruction = [] := by
  rw [destruction]
  split <;> rfl

theorem reported_append (h : Holding α) (l l' : List α) :
    h.reported (l ++ l') = h.reported l ++ h.reported l' := by
  cases h with
  | packed a => rfl
  | typed kind a =>
      simp only [reported]
      split <;> rfl

variable [SlabSource σ] [Element α]

/-- Pushing values onto an array divides them: those accepted come behind the others in the array,
and the rest comes back. -/
theorem exists_pushAll_typed (kind : Kind) {a : TypedArray α} {l : List α} (h : a.Contains l)
    (values : List α) (s : Store σ) :
    ∃ accepted refused a', values = accepted ++ refused ∧ a'.Contains (l ++ accepted) ∧
      Record.add values s (typed kind a) (.values l) = .values (l ++ accepted) ∧
        match pushAll values (s, typed kind a) with
        | .ok _ (_, h') => refused = [] ∧ h' = typed kind a'
        | .error refusal (_, h') =>
            refused ≠ [] ∧ refusal.values = refused ∧ h' = typed kind a' := by
  have hcontains := (TypedArray.pushAll_contains values (s := s) h).1
  simp only [pushAll]
  cases hpush : TypedArray.pushAll values (s, a) with
  | ok u state =>
      rw [hpush] at hcontains
      have haccepted := accepted_of_pushEach_ok TypedArray.push hpush
      exact ⟨_, [], _, by rw [haccepted, List.append_nil], hcontains, rfl, rfl, rfl⟩
  | error refusal state =>
      rw [hpush] at hcontains
      have haccepted := accepted_append_of_pushEach_error TypedArray.push hpush
      obtain ⟨_, refused, after, _, -, hvalues, -⟩ := exists_of_pushEach_error TypedArray.push hpush
      exact ⟨_, refusal.values, _, haccepted.symm, hcontains, rfl, by simp [hvalues], rfl, rfl⟩

end Holding

namespace Workspace

theorem toList_destroyed {w : Workspace σ α} (h : w.destroyed = #[]) (values : List α) :
    (w.destroy values).destroyed.toList = values := by
  simp [destroy, h]

variable [SlabSource σ] [Element α]

theorem destroyed_step (c : Command α) (w : Workspace σ α) :
    (w.step (.command c)).1.destroyed = (finalState (perform c w.quieted)).destroyed.toList := by
  simp only [step, carryOut]
  cases perform c w.quieted <;> rfl

theorem destroyed_of_effect {w w' : Workspace σ α} {c : Command α}
    {result : Except Failure (Answer α)} (h : Effect w c result w') (hc : c.destroys = false)
    (hrequest : c.request? = none) : w'.destroyed = w.destroyed := by
  cases h with
  | granted h | denied h => simp [hrequest] at h
  | pushed | refused | missedPush | dropped | missedDrop | cleared => cases hc
  | _ => rfl

omit [Element α] in
theorem destroyed_keepAs (reference : String) (r : Request) (content : Content α)
    (w : Workspace σ α) :
    (finalState (keepAs reference r content w)).destroyed = w.destroyed := by
  simp only [keepAs, onStore, bind, EStateM.bind]
  cases Store.allocate r w.store <;> rfl

/-- Only pushes, drops, rewinds and values put into the arena can make a workspace destroy
anything. -/
theorem destroyed_step_of_spares {c : Command α} (hc : c.destroys = false) (w : Workspace σ α) :
    (w.step (.command c)).1.destroyed = [] := by
  have hnone : (finalState (perform c w.quieted)).destroyed = #[] := by
    cases hrequest : c.request? with
    | none => exact destroyed_of_effect (effect_perform c w.quieted) hc hrequest
    | some r =>
        cases c with
        | allocate r =>
            simp only [perform, onStore, bind, EStateM.bind]
            cases Store.allocate r w.quieted.store <;> rfl
        | keepMany reference kind contents => exact destroyed_keepAs reference _ _ w.quieted
        | keepText reference text => exact destroyed_keepAs reference _ _ w.quieted
        | keep => cases hc
        | _ => cases hrequest
  rw [destroyed_step, hnone]

theorem step_keep (reference : String) (kind : Kind) (value : α) (w : Workspace σ α) :
    let o := (w.step (.command (.keep reference kind value))).1
    (∃ answer, o.result = .ok answer ∧ o.destroyed = []) ∨
      ∃ fault, o.result = .error (.fault fault) ∧
        o.destroyed = if kind.isWatched then [value] else [] := by
  simp only [step, carryOut, perform, keepOrDestroy, keepAs, onStore, bind, EStateM.bind]
  cases Store.allocate { bytes := kind.footprint.size, alignment := kind.footprint.alignment }
      w.quieted.store with
  | ok address s => exact .inl ⟨_, rfl, rfl⟩
  | error fault s =>
      refine .inr ⟨fault, rfl, ?_⟩
      dsimp only
      split <;> rfl

theorem step_drop {w : Workspace σ α} {array : String} {h : Holding α}
    (hfind : w.arrays.find? array = some h) :
    let out := w.step (.command (.drop array))
    out.1.destroyed = h.destruction ∧ out.2.arrays = w.arrays.remove array := by
  have hfind' : w.quieted.arrays.find? array = some h := hfind
  simp only [step, carryOut, perform, holding, bind, EStateM.bind, hfind']
  exact ⟨toList_destroyed rfl _, rfl⟩

theorem step_missed {w : Workspace σ α} {array : String} (hfind : w.arrays.find? array = none)
    {c : Command α} (hc : c = .drop array ∨ ∃ contents, c = .push array contents) :
    let out := w.step (.command c)
    out.1.destroyed = [] ∧ out.2.arrays = w.arrays := by
  have hfind' : w.quieted.arrays.find? array = none := hfind
  rcases hc with rfl | ⟨contents, rfl⟩
  · simp only [step, carryOut, perform, holding, bind, EStateM.bind, hfind']
    exact ⟨rfl, rfl⟩
  · simp only [step, carryOut, perform, push, hfind']
    exact ⟨rfl, rfl⟩

omit [Element α] in
theorem destroyed_finish (w : Workspace σ α) : w.finish.destroyed = w.destruction :=
  toList_destroyed rfl _

/-- A push onto a typed array divides the values: those accepted are recorded, and the rest is
destroyed at once, as far as that is watched. -/
theorem step_push {w : Workspace σ α} {ledger : Ledger α}
    (hledger : Table.Related Holding.Matches w.arrays ledger) {array : String} {kind : Kind}
    {a : TypedArray α} (hfind : w.arrays.find? array = some (.typed kind a)) {l : List α}
    (hl : ledger.find? array = some (.values l)) (contents : List α) :
    let out := w.step (.command (.push array contents))
    ∃ accepted refused a', contents = accepted ++ refused ∧ a'.Contains (l ++ accepted) ∧
      out.2.arrays = w.arrays.set array (.typed kind a') ∧
      (ledger.after w.quieted out.1.result (.push array contents)).find? array =
        some (.values (l ++ accepted)) ∧
      out.1.destroyed = (Holding.typed kind a).reported refused ∧
        (refused = [] ↔ ∃ answer, out.1.result = .ok answer) := by
  have hcontains : a.Contains l := by
    obtain ⟨r, hr, hmatches⟩ := hledger.find? hfind
    obtain rfl := Option.some.inj (hl.symm.trans hr)
    cases hmatches with
    | typed hcontains => exact hcontains
  have hfind' : w.quieted.arrays.find? array = some (.typed kind a) := hfind
  obtain ⟨accepted, refused, a', hcontents, hcontains', hadd, hresult⟩ :=
    Holding.exists_pushAll_typed kind hcontains contents w.quieted.store
  refine ⟨accepted, refused, a', hcontents, hcontains', ?_⟩
  have hrecord := Table.find?_set_self hl (.values (l ++ accepted))
  simp only [step, carryOut, perform, push, hfind']
  cases hpush : Holding.pushAll contents (w.quieted.store, .typed kind a) with
  | ok u state =>
      obtain ⟨s, h'⟩ := state
      rw [Record.add_of_pushAll_ok .typed hpush] at hadd
      rw [hpush] at hresult
      obtain ⟨rfl, rfl⟩ := hresult
      refine ⟨rfl, ?_, ?_, fun _ => ⟨_, rfl⟩, fun _ => rfl⟩
      · simp only [outcome, Ledger.after, hl, hadd]
        exact hrecord
      · simp only [Holding.reported, ite_self]
        rfl
  | error refusal state =>
      obtain ⟨s, h'⟩ := state
      rw [hpush] at hresult
      obtain ⟨hne, rfl, rfl⟩ := hresult
      refine ⟨rfl, ?_, toList_destroyed rfl _, fun h => absurd h hne, ?_⟩
      · simp only [outcome, Ledger.after, hl, hfind', hadd]
        exact hrecord
      · rintro ⟨answer, hanswer⟩
        cases hanswer

theorem step_push_packed {w : Workspace σ α} {array : String} {a : PackedArray}
    (hfind : w.arrays.find? array = some (.packed a)) (contents : List α) :
    let out := w.step (.command (.push array contents))
    out.1.destroyed = [] ∧ ∃ a', out.2.arrays = w.arrays.set array (.packed a') := by
  have hfind' : w.quieted.arrays.find? array = some (.packed a) := hfind
  simp only [step, carryOut, perform, push, hfind', Holding.pushAll]
  cases PackedArray.pushAll (contents.map Element.toWord) (w.quieted.store, a) with
  | ok u state => exact ⟨rfl, _, rfl⟩
  | error refusal state => exact ⟨toList_destroyed rfl [], _, rfl⟩

omit [SlabSource σ] [Element α] in
/-- An array among the others, and what they will all destroy when another stands in its place, or
none. -/
theorem destruction_split {w : Workspace σ α} {array : String} {h : Holding α}
    (hfind : w.arrays.find? array = some h) (w' : Workspace σ α) :
    ∃ others, w.destruction.Perm (h.destruction ++ others) ∧
      (w'.arrays = w.arrays.remove array → w'.destruction = others) ∧
        ∀ h', w'.arrays = w.arrays.set array h' →
          w'.destruction.Perm (h'.destruction ++ others) := by
  obtain ⟨before, after, harrays, hremove, hset⟩ := Table.exists_split_of_find? hfind
  have hmiddle : ∀ h' : Holding α, ((before ++ (array, h') :: after).flatMap (·.2.destruction)).Perm
      (h'.destruction ++ (before ++ after).flatMap (·.2.destruction)) :=
    fun h' => List.perm_middle.flatMap_right _
  refine ⟨(before ++ after).flatMap (·.2.destruction), ?_, ?_, ?_⟩
  · rw [destruction, harrays]
    exact hmiddle h
  · intro hdropped
    rw [destruction, hdropped, hremove]
  · intro h' hchanged
    rw [destruction, hchanged, hset]
    exact hmiddle h'

theorem destruction_of_spares {w w' : Workspace σ α} {c : Command α}
    {result : Except Failure (Answer α)} (h : Effect w c result w') (hc : c.destroys = false) :
    w'.destruction = w.destruction := by
  cases h with
  | granted _ _ _ _ harrays _ | denied _ _ _ harrays _ => rw [destruction, harrays, destruction]
  | @madeTyped array kind growth a s hcreate =>
      obtain rfl := TypedArray.eq_made_of_create hcreate
      rw [destruction, List.flatMap_append, List.flatMap_singleton, Holding.destruction_made]
      exact List.append_nil _
  | madePacked =>
      simp only [destruction, List.flatMap_append]
      exact List.append_nil _
  | pushed | refused | missedPush | dropped | missedDrop | cleared => cases hc
  | _ => rfl

theorem conserved_push {w : Workspace σ α} {ledger : Ledger α}
    (hledger : Table.Related Holding.Matches w.arrays ledger) {array : String} {h : Holding α}
    (hfind : w.arrays.find? array = some h) (contents : List α) :
    let c := Command.push array contents
    let out := w.step (.command c)
    (w.destruction ++ c.handed w).Perm
      (out.1.destroyed ++ (out.2.destruction ++ c.kept out.1)) := by
  intro c out
  have hhanded : c.handed w = h.reported contents := by simp [c, Command.handed, hfind]
  have hkept : c.kept out.1 = [] := rfl
  obtain ⟨others, hwhole, -, hchanged⟩ := destruction_split hfind out.2
  rw [hhanded, hkept, List.append_nil]
  cases h with
  | packed a =>
      obtain ⟨hdestroyed, a', harrays⟩ := step_push_packed hfind contents
      have hnone : (Holding.packed a).reported contents = [] := rfl
      rw [hdestroyed, hnone, List.append_nil]
      exact hwhole.trans (hchanged _ harrays).symm
  | typed kind a =>
      obtain ⟨r, hr, hmatches⟩ := hledger.find? hfind
      cases hmatches with
      | @typed _ _ l hcontains =>
          obtain ⟨accepted, refused, a', rfl, hcontains', harrays, -, hdestroyed, -⟩ :=
            step_push hledger hfind hr contents
          have hbefore := Holding.destruction_perm kind hcontains
          have hafter := Holding.destruction_perm kind hcontains'
          rw [Holding.reported_append] at hafter
          have hwhole' := hchanged _ harrays
          rw [hdestroyed, Holding.reported_append]
          simp only [← Multiset.coe_eq_coe, ← Multiset.coe_add]
            at hwhole hwhole' hbefore hafter ⊢
          rw [hwhole, hwhole', hbefore, hafter]
          have hkind (l : List α) :
              (Holding.typed kind a').reported l = (Holding.typed kind a).reported l := rfl
          rw [hkind, hkind]
          abel

theorem conserved_keep (reference : String) (kind : Kind) (value : α) (w : Workspace σ α) :
    let c := Command.keep reference kind value
    let out := w.step (.command c)
    (w.destruction ++ c.handed w).Perm
      (out.1.destroyed ++ (out.2.destruction ++ c.kept out.1)) := by
  intro c out
  have harrays : out.2.destruction = w.destruction := by
    have hsame := arrays_of_effect (effect_perform c w.quieted) rfl
    rw [destruction, finalState_perform, hsame]
    rfl
  rw [harrays]
  rcases step_keep reference kind value w with ⟨answer, hok, hnone⟩ | ⟨fault, herror, hgone⟩
  · simp only [c, Command.handed, Command.kept, out, hok, hnone]
    exact .refl _
  · simp only [c, Command.handed, Command.kept, out, herror, hgone, List.append_nil]
    exact List.perm_append_comm

theorem conserved_drop (array : String) (w : Workspace σ α) :
    let out := w.step (.command (.drop array))
    w.destruction.Perm (out.1.destroyed ++ out.2.destruction) := by
  intro out
  cases hfind : w.arrays.find? array with
  | none =>
      obtain ⟨hdestroyed, harrays⟩ := step_missed hfind (.inl rfl)
      rw [hdestroyed, destruction, destruction, harrays]
      exact .refl _
  | some h =>
      obtain ⟨hdestroyed, harrays⟩ := step_drop hfind
      obtain ⟨others, hwhole, hdropped, -⟩ := destruction_split hfind out.2
      rw [hdestroyed, hdropped harrays]
      exact hwhole

theorem conserved_step {w : Workspace σ α} {ledger : Ledger α}
    (hledger : Table.Related Holding.Matches w.arrays ledger) (c : Command α) :
    let out := w.step (.command c)
    (w.destruction ++ c.handed w).Perm
      (out.1.destroyed ++ (out.2.destruction ++ c.kept out.1)) := by
  intro out
  cases hc : c.destroys with
  | false =>
      have hhanded : c.handed w = [] := by cases c <;> first | rfl | cases hc
      have hkept : c.kept out.1 = [] := by cases c <;> first | rfl | cases hc
      have hspared : out.2.destruction = w.quieted.destruction := by
        rw [finalState_perform]
        exact destruction_of_spares (effect_perform c w.quieted) hc
      rw [hhanded, hkept, hspared, destroyed_step_of_spares hc, List.nil_append]
      exact .refl _
  | true =>
      cases c with
      | rewind =>
          have hdestroyed : out.1.destroyed = w.destruction := destroyed_finish w
          rw [hdestroyed]
          exact .refl _
      | drop array =>
          rw [← List.append_assoc]
          exact (conserved_drop array w).append_right _
      | keep reference kind value => exact conserved_keep reference kind value w
      | push array contents =>
          cases hfind : w.arrays.find? array with
          | none =>
              obtain ⟨hdestroyed, harrays⟩ := step_missed hfind (.inr ⟨contents, rfl⟩)
              simp only [Command.handed, hfind, out, hdestroyed, destruction, harrays]
              exact .refl _
          | some h => exact conserved_push hledger hfind contents
      | _ => cases hc

def handedBy : List (Command α) → Workspace σ α → List α
  | [], _ => []
  | c :: commands, w => c.handed w ++ handedBy commands (w.step (.command c)).2

/-- What the arena kept of what commands handed over, with these outcomes. -/
def keptBy (told : List (Command α × Outcome α)) : List α := told.flatMap fun (c, o) => c.kept o

theorem conserved_run (commands : List (Command α)) {w : Workspace σ α} {ledger : Ledger α}
    (h : Faithful w ledger) :
    (w.destruction ++ handedBy commands w).Perm
      ((w.run (commands.map .command)).1.flatMap Outcome.destroyed ++
        ((w.runCommands commands).destruction ++
          keptBy (commands.zip (w.run (commands.map .command)).1))) := by
  induction commands generalizing w ledger with
  | nil => exact .refl _
  | cons c commands ih =>
      have houtcomes : (w.run ((c :: commands).map .command)).1 =
          (w.step (.command c)).1 :: ((w.step (.command c)).2.run (commands.map .command)).1 := rfl
      have hend : w.runCommands (c :: commands) =
          (w.step (.command c)).2.runCommands commands := rfl
      have hfirst := conserved_step h.arrays c
      have hrest := ih (faithful_runCommands [c] h)
      rw [runCommands_cons, runCommands_nil, ← finalState_perform] at hrest
      rw [houtcomes, hend, List.zip_cons_cons, keptBy, List.flatMap_cons, List.flatMap_cons,
        ← keptBy, handedBy]
      -- Sums of multisets, so that the order of the parts does not matter.
      simp only [← Multiset.coe_eq_coe, ← Multiset.coe_add] at hfirst hrest ⊢
      rw [← add_assoc, hfirst, add_assoc, add_right_comm, hrest]
      abel

/-- Which values are destroyed, and when. -/
structure Disposes (w : Workspace σ α) (ledger : Ledger α) : Prop where
  arrays : Table.Related Holding.Dissolves w.arrays ledger
  /-- A push divides its values into those that the array accepts and those destroyed at once. -/
  push : ∀ array kind a l contents, w.arrays.find? array = some (.typed kind a) →
    ledger.find? array = some (.values l) →
      let o := (w.step (.command (.push array contents))).1
      ∃ accepted refused, contents = accepted ++ refused ∧
        (ledger.after w.quieted o.result (.push array contents)).find? array =
          some (.values (l ++ accepted)) ∧
        o.destroyed = (Holding.typed kind a).reported refused ∧
          (refused = [] ↔ ∃ answer, o.result = .ok answer)
  drop : ∀ array h, w.arrays.find? array = some h →
    (w.step (.command (.drop array))).1.destroyed = h.destruction
  /-- The arrays have to go before the memory does, in the order of their creation. -/
  rewind : (w.step (.command .rewind)).1.destroyed = w.arrays.flatMap (·.2.destruction)
  keep : ∀ reference kind value,
    let o := (w.step (.command (.keep reference kind value))).1
    (∃ answer, o.result = .ok answer ∧ o.destroyed = []) ∨
      ∃ fault, o.result = .error (.fault fault) ∧
        o.destroyed = if kind.isWatched then [value] else []
  others : ∀ c : Command α, c.destroys = false → (w.step (.command c)).1.destroyed = []

theorem Faithful.disposes {w : Workspace σ α} {ledger : Ledger α} (h : Faithful w ledger) :
    w.Disposes ledger where
  arrays := h.arrays.imp fun _ _ => Holding.Matches.dissolves
  push array kind a l contents hfind hl := by
    obtain ⟨accepted, refused, -, hcontents, -, -, hrecord, hdestroyed, hresult⟩ :=
      step_push h.arrays hfind hl contents
    exact ⟨accepted, refused, hcontents, hrecord, hdestroyed, hresult⟩
  drop array holding hfind := (step_drop hfind).1
  rewind := destroyed_finish w
  keep reference kind value := step_keep reference kind value w
  others c hc := destroyed_step_of_spares hc w

end Workspace

open Workspace in
/-- Watched values are destroyed exactly once. Of those handed over, what a push does not accept is
destroyed in that push, what an array holds when it goes, in the order of its nodes and against the
order in each of them; what is put into the arena stays, unless there is no memory for it. When the
workspace is finished, every value is either destroyed or kept, and none is both. -/
theorem destructors_run_exactly_once [SlabSource σ] [Element α] (blockSize : Nat) (source : σ)
    (commands : List (Command α)) :
    let w₀ : Workspace σ α := ofArena (.ofBlockSize blockSize) source
    let w := w₀.runCommands commands
    let outcomes := (w₀.run (commands.map .command)).1
    w.Disposes (Ledger.afterAll [] commands w₀) ∧
      (handedBy commands w₀).Perm (outcomes.flatMap Outcome.destroyed ++
        (w.finish.destroyed ++ keptBy (commands.zip outcomes))) := by
  intro w₀ w outcomes
  refine ⟨(faithful_of_new blockSize source commands).disposes, ?_⟩
  have hnew : Faithful w₀ [] := ⟨.nil, fun _ h => nomatch h⟩
  rw [destroyed_finish]
  exact conserved_run commands hnew

/-- A value that is put into the arena is destroyed if there is no memory for it. -/
theorem value_without_memory_destroyed :
    let w : Workspace LinearHeap Value := .ofArena (.ofBlockSize 64) { limit := 0 }
    let o := (w.step (.command (.keep "r" Kind.word.watched (.natural 7)))).1
    o.destroyed = [.natural 7] := by
  decide +kernel

end GrowArena

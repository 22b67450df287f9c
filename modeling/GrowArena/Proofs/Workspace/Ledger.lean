import GrowArena.Proofs.Arena.Pushing
import GrowArena.Proofs.Packed.Contents
import GrowArena.Proofs.Typed.Contents
import GrowArena.Proofs.Workspace.Perform
import GrowArena.Proofs.Workspace.Tables

/-!
A ledger notes for each array of a workspace what it has accepted, in the order of the pushes. It is
kept beside the workspace from what its commands answer; where a push is refused, the pushes of its
values tell which of them went in before. In every state that a run of commands reaches, the arrays
hold what the ledger says, and every reader stands at a place where whole values follow.
-/

namespace GrowArena

variable {σ α : Type}

/-- What an array has accepted. -/
inductive Record (α : Type) where
  | values (l : List α)
  | words (l : List UInt32)

/-- A typed array takes values, a packed one words. -/
inductive Holding.Takes : Holding α → Record α → Prop
  | typed {kind : Kind} {a : TypedArray α} {l : List α} : Takes (.typed kind a) (.values l)
  | packed {a : PackedArray} {l : List UInt32} : Takes (.packed a) (.words l)

/-- The arrays' records, in the order of the arrays. -/
abbrev Ledger (α : Type) := Table (Record α)

section

variable [SlabSource σ] [Element α]

/-- Adds values that were all accepted. -/
def Record.extend (values : List α) : Record α → Record α
  | .values l => .values (l ++ values)
  | .words l => .words (l ++ values.map Element.toWord)

/-- Adds the values that the array accepts when they are pushed onto it in turn. -/
def Record.add (values : List α) (s : Store σ) : Holding α → Record α → Record α
  | .typed _ a, .values l => .values (l ++ accepted TypedArray.push values (s, a))
  | .packed a, .words l =>
      .words (l ++ accepted PackedArray.push (values.map Element.toWord) (s, a))
  | _, r => r

/-- The ledger after a command that was carried out in a workspace with this result. -/
def Ledger.after (ledger : Ledger α) (w : Workspace σ α) (result : Except Failure (Answer α)) :
    Command α → Ledger α
  | .rewind => []
  | .makeTyped array _ _ =>
      match result with
      | .ok _ => ledger ++ [(array, .values [])]
      | .error _ => ledger
  | .makePacked array _ =>
      match result with
      | .ok _ => ledger ++ [(array, .words [])]
      | .error _ => ledger
  | .push array values =>
      match result, ledger.find? array, w.arrays.find? array with
      | .ok _, some r, _ => ledger.set array (r.extend values)
      | .error _, some r, some h => ledger.set array (r.add values w.store h)
      | _, _, _ => ledger
  | .drop array =>
      match result with
      | .ok _ => ledger.remove array
      | .error _ => ledger
  | _ => ledger

theorem Ledger.after_of_keepsArrays (ledger : Ledger α) (w : Workspace σ α)
    (result : Except Failure (Answer α)) {c : Command α} (h : c.keepsArrays = true) :
    ledger.after w result c = ledger := by
  cases c <;> first | rfl | cases h

/-- The ledger after commands that are carried out in turn. -/
def Ledger.afterAll : Ledger α → List (Command α) → Workspace σ α → Ledger α
  | ledger, [], _ => ledger
  | ledger, c :: commands, w =>
      let (o, w') := w.step (.command c)
      (ledger.after w.quieted o.result c).afterAll commands w'

theorem Record.add_of_pushAll_ok {h : Holding α} {r : Record α} (hr : h.Takes r) {values : List α}
    {s : Store σ} {state : Store σ × Holding α} {u : Unit}
    (hpush : Holding.pushAll values (s, h) = .ok u state) : r.add values s h = r.extend values := by
  cases hr with
  | typed =>
      simp only [Holding.pushAll] at hpush
      split at hpush
      · rename_i hall
        rw [add, accepted_of_pushEach_ok TypedArray.push hall, extend]
      · cases hpush
  | packed =>
      simp only [Holding.pushAll] at hpush
      split at hpush
      · rename_i hall
        rw [add, accepted_of_pushEach_ok PackedArray.push hall, extend]
      · cases hpush

/-- A relation between arrays and their records that holds of new arrays and is kept by pushes. -/
structure Record.Upholds (σ : Type) [SlabSource σ] (R : Holding α → Record α → Prop) : Prop where
  takes : ∀ {h : Holding α} {r : Record α}, R h r → h.Takes r
  makeTyped : ∀ {kind : Kind} {growth : Growth} {s s' : Store σ} {a : TypedArray α},
    TypedArray.create kind.footprint growth s = .ok a s' → R (.typed kind a) (.values [])
  makePacked : ∀ {growth : Growth} {s s' : Store σ} {a : PackedArray},
    PackedArray.create growth s = .ok a s' → R (.packed a) (.words [])
  pushAll : ∀ {h : Holding α} {r : Record α} (values : List α) (s : Store σ), R h r →
    R (finalState (Holding.pushAll values (s, h))).2 (r.add values s h)

theorem Ledger.related_after {R : Holding α → Record α → Prop} (hR : Record.Upholds σ R)
    {w w' : Workspace σ α} {ledger : Ledger α} (h : Table.Related R w.arrays ledger)
    {c : Command α} {result : Except Failure (Answer α)}
    (heffect : Workspace.Effect w c result w') :
    Table.Related R w'.arrays (ledger.after w result c) := by
  cases heffect with
  | nothing _ hc _ =>
      rw [Ledger.after_of_keepsArrays ledger w _ hc]
      exact h
  | granted hrequest _ _ _ harrays _ | denied hrequest _ _ harrays _ =>
      rw [Ledger.after_of_keepsArrays ledger w _ (Command.keepsArrays_of_request? hrequest),
        harrays]
      exact h
  | madeTyped hcreate => exact h.concat _ (hR.makeTyped hcreate)
  | madePacked hcreate => exact h.concat _ (hR.makePacked hcreate)
  | failedTyped | failedPacked => exact h
  | @pushed array values holding holding' s u hfind hpush =>
      obtain ⟨r, hr, hholding⟩ := h.find? hfind
      have hadded := hR.pushAll values w.store hholding
      rw [hpush, Record.add_of_pushAll_ok (hR.takes hholding) hpush] at hadded
      simp only [Ledger.after, hr]
      exact h.set array hadded
  | @refused array values holding holding' s refusal hfind hpush =>
      obtain ⟨r, hr, hholding⟩ := h.find? hfind
      have hadded := hR.pushAll values w.store hholding
      rw [hpush] at hadded
      simp only [Ledger.after, hfind, hr]
      exact h.set array hadded
  | missedPush hfind =>
      simp only [Ledger.after, h.find?_eq_none hfind]
      exact h
  | dropped => exact h.remove _
  | opened | copied | moved | missedOpen | missedCopy | missedRead | missedDrop => exact h
  | cleared => exact .nil

/-- What new arrays and pushes uphold is true of all arrays after every run. -/
theorem Ledger.related_afterAll {R : Holding α → Record α → Prop} (hR : Record.Upholds σ R)
    (commands : List (Command α)) {w : Workspace σ α} {ledger : Ledger α}
    (h : Table.Related R w.arrays ledger) :
    Table.Related R (w.runCommands commands).arrays (ledger.afterAll commands w) := by
  induction commands generalizing w ledger with
  | nil => exact h
  | cons c commands ih =>
      exact ih (Ledger.related_after hR (w := w.quieted) h (Workspace.effect_step c w))

end

namespace Holding

inductive Matches : Holding α → Record α → Prop
  | typed {kind : Kind} {a : TypedArray α} {l : List α} (h : a.Contains l) :
      Matches (.typed kind a) (.values l)
  | packed {a : PackedArray} {l : List UInt32} (h : a.Contains l) :
      Matches (.packed a) (.words l)

theorem Matches.takes {h : Holding α} {r : Record α} (hr : h.Matches r) : h.Takes r := by
  cases hr with
  | typed => exact .typed
  | packed => exact .packed

/-- A place that a reader of the array can have come to. -/
def Legible : Holding α → Cursor → Prop
  | typed _ a => a.chain.Legible
  | packed a => a.chain.Legible

theorem Matches.legible_start {h : Holding α} {r : Record α} (hr : h.Matches r) :
    h.Legible h.start := by
  cases hr with
  | typed h | packed h =>
      obtain ⟨parts, hparts, -⟩ := h
      exact Chain.legible_start _ hparts.shows

variable [Element α]

theorem Matches.legible_nexts {h : Holding α} {r : Record α} (hr : h.Matches r) (count : Nat)
    {cursor : Cursor} (hcursor : h.Legible cursor) : h.Legible (h.nexts count cursor).2 := by
  cases hr with
  | typed h | packed h =>
      obtain ⟨parts, hparts, -⟩ := h
      exact Chain.legible_nexts _ hparts.shows count hcursor

variable [SlabSource σ]

/-- Pushing values adds the accepted ones, and readers of the array stay where they are. -/
theorem Matches.pushAll {h : Holding α} {r : Record α} (hr : h.Matches r) (values : List α)
    (s : Store σ) :
    (finalState (pushAll values (s, h))).2.Matches (r.add values s h) ∧
      ∀ cursor, h.Legible cursor → (finalState (pushAll values (s, h))).2.Legible cursor := by
  cases hr with
  | typed h =>
      rw [finalState_pushAll_typed]
      obtain ⟨hcontains, hext⟩ := TypedArray.pushAll_contains values (s := s) h
      exact ⟨.typed hcontains, fun _ => Chain.Legible.of_extends hext⟩
  | packed h =>
      rw [finalState_pushAll_packed]
      obtain ⟨hcontains, hext⟩ :=
        PackedArray.pushAll_contains (values.map Element.toWord) (s := s) h
      exact ⟨.packed hcontains, fun _ => Chain.Legible.of_extends hext⟩

theorem upholds_matches : Record.Upholds σ (Matches (α := α)) where
  takes h := h.takes
  makeTyped h := .typed ⟨_, TypedArray.create_holds h, rfl⟩
  makePacked h := .packed ⟨_, PackedArray.create_holds h, rfl⟩
  pushAll values s h := (h.pushAll values s).1

end Holding

namespace Workspace

/-- The arrays hold what the ledger says, and readers stand where whole values follow. -/
structure Faithful (w : Workspace σ α) (ledger : Ledger α) : Prop where
  arrays : Table.Related Holding.Matches w.arrays ledger
  readers : ∀ entry ∈ w.readers,
    ∃ h, w.arrays.find? entry.2.array = some h ∧ h.Legible entry.2.cursor

theorem Faithful.readers_setReader {w : Workspace σ α} {ledger : Ledger α} (h : Faithful w ledger)
    (name : String) {b : Bookmark} {holding : Holding α}
    (hfind : w.arrays.find? b.array = some holding) (hcursor : holding.Legible b.cursor) :
    ∀ entry ∈ (w.setReader name b).readers,
      ∃ h, w.arrays.find? entry.2.array = some h ∧ h.Legible entry.2.cursor := by
  intro entry hentry
  rcases List.mem_cons.mp hentry with rfl | hold
  · exact ⟨holding, hfind, hcursor⟩
  · exact h.readers entry (List.mem_filter.mp hold).1

theorem Faithful.readers_setArray {w : Workspace σ α} {ledger : Ledger α} (h : Faithful w ledger)
    {array : String} {holding holding' : Holding α} (hfind : w.arrays.find? array = some holding)
    (hlegible : ∀ cursor, holding.Legible cursor → holding'.Legible cursor) :
    ∀ entry ∈ w.readers,
      ∃ h, (w.arrays.set array holding').find? entry.2.array = some h ∧
        h.Legible entry.2.cursor := by
  intro entry hentry
  obtain ⟨found, hfound, hcursor⟩ := h.readers entry hentry
  by_cases hname : entry.2.array = array
  · obtain rfl : holding = found := by
      rw [hname, hfind] at hfound
      exact Option.some.inj hfound
    refine ⟨holding', ?_, hlegible _ hcursor⟩
    rw [hname]
    exact Table.find?_set_self hfind holding'
  · exact ⟨found, (Table.find?_set_of_ne hname holding').trans hfound, hcursor⟩

variable [SlabSource σ] [Element α]

theorem Faithful.readers_pushAll {w : Workspace σ α} {ledger : Ledger α} (h : Faithful w ledger)
    {array : String} {holding : Holding α} (hfind : w.arrays.find? array = some holding)
    (values : List α) {s : Store σ} {holding' : Holding α}
    (hpush : finalState (Holding.pushAll values (w.store, holding)) = (s, holding')) :
    ∀ entry ∈ w.readers,
      ∃ h, (w.arrays.set array holding').find? entry.2.array = some h ∧
        h.Legible entry.2.cursor := by
  obtain ⟨r, -, hmatches⟩ := h.arrays.find? hfind
  have hlegible := (hmatches.pushAll values w.store).2
  rw [hpush] at hlegible
  exact h.readers_setArray hfind hlegible

theorem Faithful.effect {w w' : Workspace σ α} {ledger : Ledger α} (h : Faithful w ledger)
    {c : Command α} {result : Except Failure (Answer α)} (heffect : Effect w c result w') :
    Faithful w' (ledger.after w result c) := by
  refine ⟨Ledger.related_after Holding.upholds_matches h.arrays heffect, ?_⟩
  cases heffect with
  | nothing | failedTyped | failedPacked | missedPush | missedDrop => exact h.readers
  | missedOpen | missedCopy | missedRead => exact h.readers
  | granted _ _ _ _ harrays hreaders | denied _ _ _ harrays hreaders =>
      rw [harrays, hreaders]
      exact h.readers
  | madeTyped | madePacked =>
      intro entry hentry
      obtain ⟨found, hfind, hcursor⟩ := h.readers entry hentry
      exact ⟨found, Table.find?_append_of_some hfind _, hcursor⟩
  | pushed hfind hpush | refused hfind hpush =>
      exact h.readers_pushAll hfind _ (by rw [hpush]; rfl)
  | dropped =>
      intro entry hentry
      obtain ⟨hmem, hne⟩ := List.mem_filter.mp hentry
      obtain ⟨found, hfind, hcursor⟩ := h.readers entry hmem
      exact ⟨found, (Table.find?_remove_of_ne (by simpa using hne)).trans hfind, hcursor⟩
  | opened hfind =>
      obtain ⟨r, -, hr⟩ := h.arrays.find? hfind
      exact h.readers_setReader _ hfind hr.legible_start
  | copied hreader =>
      obtain ⟨found, hfind, hcursor⟩ := h.readers _ (Table.mem_of_find? hreader)
      exact h.readers_setReader _ hfind hcursor
  | moved hreader hfind =>
      obtain ⟨found, hfound, hcursor⟩ := h.readers _ (Table.mem_of_find? hreader)
      obtain rfl := Option.some.inj (hfind.symm.trans hfound)
      obtain ⟨r, -, hr⟩ := h.arrays.find? hfind
      exact h.readers_setReader _ hfind (hr.legible_nexts _ hcursor)
  | cleared => exact fun entry hentry => by cases hentry

theorem faithful_runCommands (commands : List (Command α)) {w : Workspace σ α} {ledger : Ledger α}
    (h : Faithful w ledger) :
    Faithful (w.runCommands commands) (ledger.afterAll commands w) := by
  induction commands generalizing w ledger with
  | nil => exact h
  | cons c commands ih =>
      have hquiet : Faithful w.quieted ledger := ⟨h.arrays, h.readers⟩
      exact ih (hquiet.effect (effect_step c w))

theorem faithful_of_new (blockSize : Nat) (source : σ) (commands : List (Command α)) :
    let w : Workspace σ α := ofArena (.ofBlockSize blockSize) source
    Faithful (w.runCommands commands) (Ledger.afterAll [] commands w) :=
  faithful_runCommands commands ⟨.nil, fun _ h => nomatch h⟩

end Workspace

end GrowArena

import GrowArena.Proofs.Chain.Trail
import GrowArena.Proofs.Workspace.Ledger

/-!
Readers of arrays that grow. A journal keeps the trail of every reader of a workspace, copies of
readers included. It is kept beside the workspace and notes no more than what the reads were
answered and how far nodes were published when readers came to them.
-/

namespace GrowArena

open Leb128

variable {σ α : Type}

/-- The trail of a reader, with the name of the array that it reads. -/
structure Journey (α : Type) where
  array : String
  trail : Trail α

/-- The readers' trails, in the order of the readers. -/
abbrev Journal (α : Type) := Table (Journey α)

namespace Holding

def trailhead [Element α] (h : Holding α) : Trail α where
  initial := h.toList
  stops := match h with
    | typed _ a => [Segment.published a.chain.head]
    | packed a => [Segment.published a.chain.head]

/-- How far the nodes are published that a reader enters when it is asked `count` times. -/
def stops (count : Nat) (cursor : Cursor) : Holding α → List Nat
  | typed _ a => a.chain.stops count cursor
  | packed a => a.chain.stops count cursor

/-- The trail of a reader that is asked `count` times more and answers with these results. -/
def track (h : Holding α) (count : Nat) (cursor : Cursor) (results : List (Option α))
    (t : Trail α) : Trail α where
  initial := t.initial
  stops := t.stops ++ h.stops count cursor
  results := t.results ++ results

/-- The bytes of the codes of words. -/
def byteLength (words : List UInt32) : Nat := (words.map width).sum

/-- The trail goes with a reader of the array. -/
inductive Trails [Element α] : Holding α → Cursor → Trail α → Prop
  | typed {kind : Kind} {a : TypedArray α} {parts : List (List α)} {cursor : Cursor} {t : Trail α}
      (hholds : a.Holds parts) (h : a.chain.Trails List.length parts cursor t) :
      Trails (.typed kind a) cursor t
  | packed {a : PackedArray} {parts : List (List UInt32)} {cursor : Cursor} {t : Trail UInt32}
      (hholds : a.Holds parts) (h : a.chain.Trails byteLength parts cursor t) :
      Trails (.packed a) cursor (t.map Element.ofWord)

end Holding

theorem TypedArray.Holds.bears {a : TypedArray α} {parts : List (List α)} (h : a.Holds parts) :
    a.chain.Bears List.length parts :=
  h.imp fun _ _ hnode => ⟨hnode.shows, hnode.published_eq⟩

theorem PackedArray.Holds.bears {a : PackedArray} {parts : List (List UInt32)} (h : a.Holds parts) :
    a.chain.Bears Holding.byteLength parts :=
  h.imp fun _ _ hnode => ⟨hnode.shows, by
    rw [PackedNode.segment_published, hnode.published_eq, hnode.size_eq, length_flatMap_encode]
    rfl⟩

namespace Holding

variable [Element α]

theorem Matches.trails_start {h : Holding α} {r : Record α} (hr : h.Matches r) :
    h.Trails h.start h.trailhead := by
  cases hr with
  | typed hcontains =>
      obtain ⟨parts, hparts, -⟩ := hcontains
      exact .typed hparts (Chain.trails_start hparts.bears)
  | packed hcontains =>
      obtain ⟨parts, hparts, -⟩ := hcontains
      exact .packed hparts (Chain.trails_start hparts.bears)

theorem Trails.nexts {h : Holding α} {cursor : Cursor} {t : Trail α} (ht : h.Trails cursor t)
    (count : Nat) :
    h.Trails (h.nexts count cursor).2 (h.track count cursor (h.nexts count cursor).1 t) := by
  cases ht with
  | typed hholds ht => exact .typed hholds (Chain.trails_nexts hholds.bears count ht)
  | @packed a parts _ t hholds ht =>
      have hlater := Chain.trails_nexts hholds.bears count ht
      have hmap : (a.chain.track count cursor t).map Element.ofWord =
          (Holding.packed a : Holding α).track count cursor
            ((Holding.packed a : Holding α).nexts count cursor).1 (t.map Element.ofWord) := by
        simp only [Chain.track, track, Trail.map, stops, Holding.nexts, List.map_append]
      rw [← hmap]
      exact .packed hholds hlater

theorem Trails.pushAll [SlabSource σ] {h : Holding α} {cursor : Cursor} {t : Trail α}
    (ht : h.Trails cursor t) (values : List α) (s : Store σ) :
    (finalState (pushAll values (s, h))).2.Trails cursor t := by
  cases ht with
  | typed hholds ht =>
      rw [finalState_pushAll_typed]
      obtain ⟨hext, parts', hholds', hlengthens, -⟩ :=
        TypedArray.pushAll_holds values (s := s) hholds
      exact .typed hholds' (ht.lengthen hext hlengthens)
  | packed hholds ht =>
      rw [finalState_pushAll_packed]
      obtain ⟨hext, parts', hholds', hlengthens, -⟩ :=
        PackedArray.pushAll_holds (values.map Element.toWord) (s := s) hholds
      exact .packed hholds' (ht.lengthen hext hlengthens)

end Holding

namespace Journal

variable [Element α]

/-- The journal after a command that was carried out in a workspace with this result. -/
def after (journal : Journal α) (w : Workspace σ α) (result : Except Failure (Answer α)) :
    Command α → Journal α
  | .rewind => []
  | .drop array =>
      match result with
      | .ok _ => journal.filter (·.2.array != array)
      | .error _ => journal
  | .openReader array reader =>
      match result, w.arrays.find? array with
      | .ok _, some h => journal.note reader ⟨array, h.trailhead⟩
      | _, _ => journal
  | .copyReader reader copy =>
      match result, journal.find? reader with
      | .ok _, some j => journal.note copy j
      | _, _ => journal
  | .read reader count =>
      match result, w.readers.find? reader, journal.find? reader with
      | .ok (.results results), some b, some j =>
          match w.arrays.find? b.array with
          | some h =>
              journal.note reader { j with trail := h.track count b.cursor results j.trail }
          | none => journal
      | _, _, _ => journal
  | _ => journal

theorem after_of_keepsReaders (journal : Journal α) (w : Workspace σ α)
    (result : Except Failure (Answer α)) {c : Command α} (h : c.keepsReaders = true) :
    journal.after w result c = journal := by
  cases c <;> first | rfl | cases h

/-- The journal after commands that are carried out in turn. -/
def afterAll [SlabSource σ] : Journal α → List (Command α) → Workspace σ α → Journal α
  | journal, [], _ => journal
  | journal, c :: commands, w =>
      let (o, w') := w.step (.command c)
      (journal.after w.quieted o.result c).afterAll commands w'

end Journal

namespace Workspace

variable [Element α]

/-- The trail of the journey goes with the reader. -/
def Goes (w : Workspace σ α) (b : Bookmark) (j : Journey α) : Prop :=
  j.array = b.array ∧ ∃ h, w.arrays.find? b.array = some h ∧ h.Trails b.cursor j.trail

/-- The journal has the trails of all readers. -/
def Journaled (w : Workspace σ α) (journal : Journal α) : Prop :=
  Table.Related w.Goes w.readers journal

theorem Journaled.find? {w : Workspace σ α} {journal : Journal α} (h : Journaled w journal)
    {reader : String} {b : Bookmark} (hfind : w.readers.find? reader = some b) :
    ∃ j, journal.find? reader = some j ∧ w.Goes b j :=
  Table.Related.find? h hfind

variable [SlabSource σ]

theorem Journaled.pushAll {w : Workspace σ α} {journal : Journal α} (h : Journaled w journal)
    {array : String} {holding holding' : Holding α} (hfind : w.arrays.find? array = some holding)
    {values : List α} {s : Store σ}
    (hpush : finalState (Holding.pushAll values (w.store, holding)) = (s, holding')) :
    Journaled (w.setArray array s holding') journal := by
  apply Table.Related.imp _ h
  rintro b j ⟨harray, found, hfound, htrails⟩
  refine ⟨harray, ?_⟩
  by_cases hname : b.array = array
  · obtain rfl : holding = found := by
      rw [hname, hfind] at hfound
      exact Option.some.inj hfound
    have hpushed := htrails.pushAll values w.store
    rw [hpush] at hpushed
    refine ⟨holding', ?_, hpushed⟩
    rw [hname]
    exact Table.find?_set_self hfind holding'
  · exact ⟨found, (Table.find?_set_of_ne hname holding').trans hfound, htrails⟩

theorem Journaled.effect {w w' : Workspace σ α} {journal : Journal α} {ledger : Ledger α}
    (h : Journaled w journal) (hfaithful : Faithful w ledger) {c : Command α}
    {result : Except Failure (Answer α)} (heffect : Effect w c result w') :
    Journaled w' (journal.after w result c) := by
  cases heffect with
  | nothing _ _ hc =>
      rw [Journal.after_of_keepsReaders journal w _ hc]
      exact h
  | granted hrequest _ _ _ harrays hreaders | denied hrequest _ _ harrays hreaders =>
      rw [Journal.after_of_keepsReaders journal w _ (Command.keepsReaders_of_request? hrequest),
        Journaled, hreaders]
      apply Table.Related.imp _ h
      rintro b j ⟨harray, found, hfind, htrails⟩
      exact ⟨harray, found, by rw [harrays, hfind], htrails⟩
  | failedTyped | failedPacked | missedPush | missedDrop | missedOpen => exact h
  | missedCopy | missedRead => exact h
  | madeTyped | madePacked =>
      apply Table.Related.imp _ h
      rintro b j ⟨harray, found, hfind, htrails⟩
      exact ⟨harray, found, Table.find?_append_of_some hfind _, htrails⟩
  | pushed hfind hpush | refused hfind hpush => exact h.pushAll hfind (by rw [hpush]; rfl)
  | dropped =>
      apply Table.Related.filter h
      rintro ⟨reader, b⟩ ⟨_, j⟩ - ⟨harray, found, hfound, htrails⟩
      refine ⟨by rw [harray], fun hne => ⟨harray, found, ?_, htrails⟩⟩
      exact (Table.find?_remove_of_ne (by simpa using hne)).trans hfound
  | opened hfind =>
      obtain ⟨r, -, hr⟩ := hfaithful.arrays.find? hfind
      simp only [Journal.after, hfind]
      exact Table.Related.note h _ ⟨rfl, _, hfind, hr.trails_start⟩
  | copied hreader =>
      obtain ⟨j, hj, hgoes⟩ := h.find? hreader
      simp only [Journal.after, hj]
      exact Table.Related.note h _ hgoes
  | moved hreader hfind =>
      obtain ⟨j, hj, harray, found, hfound, htrails⟩ := h.find? hreader
      obtain rfl := Option.some.inj (hfind.symm.trans hfound)
      simp only [Journal.after, hreader, hj, hfind]
      exact Table.Related.note h _ ⟨harray, _, hfind, htrails.nexts _⟩
  | cleared => exact .nil

theorem journaled_runCommands (commands : List (Command α)) {w : Workspace σ α} {ledger : Ledger α}
    {journal : Journal α} (hfaithful : Faithful w ledger) (h : Journaled w journal) :
    Journaled (w.runCommands commands) (journal.afterAll commands w) := by
  induction commands generalizing w ledger journal with
  | nil => exact h
  | cons c commands ih =>
      have hquiet : Faithful w.quieted ledger := ⟨hfaithful.arrays, hfaithful.readers⟩
      have hjournaled : Journaled w.quieted journal := h
      have heffect := effect_step c w
      exact ih (hquiet.effect heffect) (hjournaled.effect hquiet heffect)

end Workspace

namespace Holding

/-- What the nodes of the array show now is what the record has, and the trail tells of it. -/
inductive Told [Element α] : Holding α → Record α → Trail α → Prop
  | typed {kind : Kind} {a : TypedArray α} {parts : List (List α)} {t : Trail α}
      (hshows : a.chain.Shows parts) (h : t.Tells List.length parts) :
      Told (.typed kind a) (.values parts.flatten) t
  | packed {a : PackedArray} {parts : List (List UInt32)} {t : Trail UInt32}
      (hshows : a.chain.Shows parts) (h : t.Tells byteLength parts) :
      Told (.packed a) (.words parts.flatten) (t.map Element.ofWord)

end Holding

theorem Holding.Trails.told [Element α] {h : Holding α} {r : Record α} {cursor : Cursor}
    {t : Trail α} (ht : h.Trails cursor t) (hr : h.Matches r) : h.Told r t := by
  cases ht with
  | typed hholds ht =>
      cases hr with
      | typed hcontains =>
          obtain ⟨parts', hparts', rfl⟩ := hcontains
          obtain rfl := hparts'.shows.unique hholds.shows
          exact .typed hholds.shows ht.tells
  | packed hholds ht =>
      cases hr with
      | packed hcontains =>
          obtain ⟨parts', hparts', rfl⟩ := hcontains
          obtain rfl := hparts'.shows.unique hholds.shows
          exact .packed hholds.shows ht.tells

open Workspace in
/-- In every state that commands lead to, every reader has told of each node that it came to what
the node had published at that time, and nothing else: the values of the array from the front, in
order and each once, at least those that the array held when the reader was opened before it first
found nothing, and nothing ever after that. -/
theorem readers_follow_arrays [SlabSource σ] [Element α] (blockSize : Nat) (source : σ)
    (commands : List (Command α)) :
    let w₀ : Workspace σ α := ofArena (.ofBlockSize blockSize) source
    let w := w₀.runCommands commands
    Table.Related
      (fun b j => j.array = b.array ∧
        ∃ h r, w.arrays.find? b.array = some h ∧
          (Ledger.afterAll [] commands w₀).find? b.array = some r ∧ h.Told r j.trail)
      w.readers (Journal.afterAll [] commands w₀) := by
  intro w₀ w
  have hfaithful : Faithful w (Ledger.afterAll [] commands w₀) :=
    faithful_of_new blockSize source commands
  have hempty : Faithful w₀ [] := ⟨.nil, fun _ h => nomatch h⟩
  have hjournaled : Journaled w (Journal.afterAll [] commands w₀) :=
    journaled_runCommands commands hempty .nil
  apply Table.Related.imp _ hjournaled
  rintro b j ⟨harray, h, hfind, htrails⟩
  obtain ⟨r, hr, hmatches⟩ := hfaithful.arrays.find? hfind
  exact ⟨harray, h, r, hfind, hr, htrails.told hmatches⟩

/-- A reader passes over what is pushed into a node after it came to it, and finds what is pushed
behind that node. -/
example :
    let w : Workspace LinearHeap Value := .ofArena (.ofBlockSize 64) {}
    let journal := Journal.afterAll []
      [.makeTyped "a" .word ⟨2, .threeHalves⟩, .push "a" [.natural 7], .openReader "a" "r",
        .push "a" [.natural 8, .natural 9], .read "r" 3, .push "a" [.natural 10], .read "r" 1] w
    journal.map (·.2.trail.results) = [[some (.natural 7), some (.natural 9), none, none]] := by
  decide +kernel

end GrowArena

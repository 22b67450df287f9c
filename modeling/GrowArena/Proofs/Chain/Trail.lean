import GrowArena.Proofs.Chain.Contents

/-!
What a reader of a growing chain is told. Beside the reader goes a trail: how far each node was
published when the reader entered it, and what the reader has answered so far. The values among the
answers are, node after node, those that the node had published when the reader came, whatever is
pushed between two questions; and everything that the chain held when the reader set out is told
before the reader first finds nothing.
-/

namespace GrowArena

open Segment

variable {ν α β : Type}

structure Trail (α : Type) where
  /-- What the chain held when the reader set out. -/
  initial : List α
  /-- How far each node was published when the reader entered it, from the head on. -/
  stops : List Nat
  results : List (Option α) := []

namespace Trail

def map (f : α → β) (t : Trail α) : Trail β where
  initial := t.initial.map f
  stops := t.stops
  results := t.results.map (Option.map f)

/-- The reader has told the values `seen` and then found nothing `pauses` times. They come from the
values that the nodes it entered had published when it came, of which it is yet to tell `rest`. -/
structure Follows (size : List α → Nat) (parts : List (List α)) (t : Trail α)
    (visits : List (List α)) (seen rest : List α) (pauses : Nat) : Prop where
  stops_eq : t.stops = visits.map size
  visit_prefix : ∀ (k : Nat) visit, visits[k]? = some visit →
    ∃ part, parts[k]? = some part ∧ visit <+: part
  results_eq : t.results = seen.map some ++ List.replicate pauses none
  seen_append_rest : seen ++ rest = visits.flatten
  rest_suffix : ∃ visit, visits.getLast? = some visit ∧ rest <:+ visit
  initial_prefix : t.initial <+: visits.flatten ++ (parts.drop visits.length).flatten
  paused : 0 < pauses → rest = [] ∧ t.initial <+: seen

theorem follows_first {size : List α → Nat} (part : List α) (parts : List (List α)) :
    { initial := (part :: parts).flatten, stops := [size part] : Trail α }.Follows size
      (part :: parts) [part] [] part 0 where
  stops_eq := rfl
  visit_prefix k visit hvisit := by
    obtain ⟨rfl, rfl⟩ : k = 0 ∧ part = visit := by
      simpa [List.getElem?_singleton] using hvisit
    exact ⟨part, rfl, List.prefix_refl part⟩
  results_eq := rfl
  seen_append_rest := by simp
  rest_suffix := ⟨part, rfl, List.suffix_refl part⟩
  initial_prefix := by simp
  paused hpauses := absurd hpauses (Nat.lt_irrefl 0)

namespace Follows

variable {size : List α → Nat} {parts parts' visits : List (List α)} {t : Trail α}
  {seen rest : List α} {pauses : Nat}

theorem value {v : α} (h : t.Follows size parts visits seen (v :: rest) 0) :
    { t with results := t.results ++ [some v] }.Follows size parts visits (seen ++ [v]) rest 0 where
  stops_eq := h.stops_eq
  visit_prefix := h.visit_prefix
  results_eq := by simp [h.results_eq]
  seen_append_rest := by simpa using h.seen_append_rest
  rest_suffix := by
    obtain ⟨visit, hlast, hsuffix⟩ := h.rest_suffix
    exact ⟨visit, hlast, (List.suffix_cons v rest).trans hsuffix⟩
  initial_prefix := h.initial_prefix
  paused hpauses := absurd hpauses (Nat.lt_irrefl 0)

theorem enter {part : List α} (h : t.Follows size parts visits seen [] 0)
    (hpart : parts[visits.length]? = some part) :
    { t with stops := t.stops ++ [size part] }.Follows size parts (visits ++ [part]) seen part
      0 where
  stops_eq := by simp [h.stops_eq]
  visit_prefix k visit hvisit := by
    by_cases hk : k < visits.length
    · rw [List.getElem?_append_left hk] at hvisit
      exact h.visit_prefix k visit hvisit
    · obtain ⟨hlast, rfl⟩ : k - visits.length = 0 ∧ part = visit := by
        rw [List.getElem?_append_right (Nat.le_of_not_lt hk)] at hvisit
        simpa [List.getElem?_singleton] using hvisit
      obtain rfl : k = visits.length := by omega
      exact ⟨part, hpart, List.prefix_refl part⟩
  results_eq := h.results_eq
  seen_append_rest := by
    have := h.seen_append_rest
    simp only [List.append_nil] at this
    simp [this]
  rest_suffix := ⟨part, by simp, List.suffix_refl part⟩
  initial_prefix := by
    have hinitial := h.initial_prefix
    rw [List.drop_eq_getElem?_toList_append, hpart] at hinitial
    simpa using hinitial
  paused hpauses := absurd hpauses (Nat.lt_irrefl 0)

/-- A reader that finds nothing has told everything that it came for. -/
theorem pause (h : t.Follows size parts visits seen [] pauses)
    (hend : pauses = 0 → parts.length ≤ visits.length) :
    { t with results := t.results ++ [none] }.Follows size parts visits seen [] (pauses + 1) where
  stops_eq := h.stops_eq
  visit_prefix := h.visit_prefix
  results_eq := by simp [h.results_eq, List.replicate_succ']
  seen_append_rest := h.seen_append_rest
  rest_suffix := h.rest_suffix
  initial_prefix := h.initial_prefix
  paused _ := by
    refine ⟨rfl, ?_⟩
    rcases Nat.eq_zero_or_pos pauses with hzero | hpos
    · have hinitial := h.initial_prefix
      rw [List.drop_eq_nil_of_le (hend hzero), ← h.seen_append_rest] at hinitial
      simpa using hinitial
    · exact (h.paused hpos).2

theorem lengthen (h : t.Follows size parts visits seen rest pauses)
    (hparts : Lengthens parts parts') : t.Follows size parts' visits seen rest pauses where
  stops_eq := h.stops_eq
  visit_prefix k visit hvisit := by
    obtain ⟨part, hpart, hprefix⟩ := h.visit_prefix k visit hvisit
    obtain ⟨part', hpart', hprefix'⟩ := hparts.part_prefix k part hpart
    exact ⟨part', hpart', hprefix.trans hprefix'⟩
  results_eq := h.results_eq
  seen_append_rest := h.seen_append_rest
  rest_suffix := h.rest_suffix
  initial_prefix := by
    apply h.initial_prefix.trans
    exact (List.prefix_append_right_inj _).mpr (hparts.drop_prefix _)
  paused := h.paused

theorem flatten_sublist (visits : List (List α))
    (h : ∀ (k : Nat) visit, visits[k]? = some visit →
      ∃ part, parts[k]? = some part ∧ visit <+: part) :
    visits.flatten.Sublist parts.flatten := by
  induction visits generalizing parts with
  | nil => exact List.nil_sublist _
  | cons visit visits ih =>
      obtain ⟨part, hpart, hprefix⟩ := h 0 visit rfl
      cases parts with
      | nil => simp at hpart
      | cons head parts =>
          obtain rfl : head = part := by simpa using hpart
          exact hprefix.sublist.append (ih fun k => h (k + 1))

/-- The values told stand in the chain, in this order. -/
theorem seen_sublist (h : t.Follows size parts visits seen rest pauses) :
    seen.Sublist parts.flatten := by
  have hseen : seen <+: visits.flatten := ⟨rest, h.seen_append_rest⟩
  exact hseen.sublist.trans (flatten_sublist visits h.visit_prefix)

/-- Before it first finds nothing, a reader is within what the chain held when it set out, or past
it. -/
theorem initial_or (h : t.Follows size parts visits seen rest pauses) :
    t.initial <+: seen ∨ seen <+: t.initial := by
  apply List.prefix_or_prefix_of_prefix h.initial_prefix
  rw [← h.seen_append_rest, List.append_assoc]
  exact List.prefix_append ..

end Follows

/-- The reader has told the lists of the nodes from the front, as far as they went when it came to
them: in this order, each value once, and first of all what was there when it set out. -/
def Tells (size : List α → Nat) (parts : List (List α)) (t : Trail α) : Prop :=
  ∃ visits seen rest pauses, t.Follows size parts visits seen rest pauses ∧
    seen.Sublist parts.flatten ∧ (t.initial <+: seen ∨ seen <+: t.initial)

end Trail

namespace Chain

variable [Segment ν α]

/-- The number of nodes that a reader has entered. -/
def reached (c : Chain ν) : Cursor → Nat
  | .inside i _ _ => i + 1
  | .spent => c.nodes.size

/-- The nodes that a reader enters on its way from one place to another. -/
def entered (c : Chain ν) (before after : Cursor) : List ν :=
  (c.nodes.toList.take (c.reached after)).drop (c.reached before)

/-- How far the nodes are published that a reader enters when it is asked `count` times. -/
def stops (c : Chain ν) : Nat → Cursor → List Nat
  | 0, _ => []
  | count + 1, cursor =>
      let after := (c.next cursor).2
      (c.entered cursor after).map published ++ stops c count after

/-- The trail of a new reader. -/
def trailhead (c : Chain ν) : Trail α where
  initial := c.toList
  stops := [published c.head]

/-- The trail of a reader that is asked `count` times more. -/
def track (c : Chain ν) (count : Nat) (cursor : Cursor) (t : Trail α) : Trail α where
  initial := t.initial
  stops := t.stops ++ c.stops count cursor
  results := t.results ++ (c.nexts count cursor).1

/-- What the nodes show, and how far they are published for it. -/
def Bears (c : Chain ν) (size : List α → Nat) (parts : List (List α)) : Prop :=
  List.Forall₂ (fun node part => Segment.Shows node part ∧ published node = size part)
    c.nodes.toList parts

/-- The place of a reader that has entered so many nodes and is yet to tell these values of the last
one. -/
def Stands (c : Chain ν) (entered : Nat) (rest : List α) (pauses : Nat) : Cursor → Prop
  | .inside i position stop =>
      entered = i + 1 ∧ pauses = 0 ∧
        ∃ node, c.nodes[i]? = some node ∧ stop ≤ published node ∧ Reads node stop position rest
  | .spent => 0 < pauses

/-- The trail goes with the reader. -/
def Trails (c : Chain ν) (size : List α → Nat) (parts : List (List α)) (cursor : Cursor)
    (t : Trail α) : Prop :=
  ∃ visits seen rest pauses, t.Follows size parts visits seen rest pauses ∧
    c.Stands visits.length rest pauses cursor

variable {c c' : Chain ν} {size : List α → Nat} {parts parts' : List (List α)} {t : Trail α}
  {cursor : Cursor}

theorem Trails.tells (h : c.Trails size parts cursor t) : t.Tells size parts := by
  obtain ⟨visits, seen, rest, pauses, hfollows, -⟩ := h
  exact ⟨visits, seen, rest, pauses, hfollows, hfollows.seen_sublist, hfollows.initial_or⟩

theorem Bears.shows (h : c.Bears size parts) : c.Shows parts :=
  h.imp fun _ _ => And.left

theorem reached_le_seek (c : Chain ν) {i position stop : Nat} {node : ν}
    (hnode : c.nodes[i]? = some node) : i + 1 ≤ c.reached (c.seek i position stop).2 := by
  fun_induction seek c i position stop generalizing node with
  | case1 i _ _ hnone => simp [hnone] at hnode
  | case2 => exact Nat.le_refl _
  | case3 =>
      obtain ⟨hi, -⟩ := Array.getElem?_eq_some_iff.mp hnode
      exact hi
  | case4 i position stop here hhere hread there hthere ih =>
      exact Nat.le_trans (Nat.le_succ _) (ih hthere)

theorem entered_self (c : Chain ν) {before after : Cursor}
    (h : c.reached after ≤ c.reached before) : c.entered before after = [] := by
  rw [entered, List.drop_eq_nil_iff, List.length_take]
  exact Nat.le_trans (Nat.min_le_left ..) h

theorem entered_cons (c : Chain ν) {i position stop position' stop' : Nat} {there : ν}
    {after : Cursor} (hthere : c.nodes[i + 1]? = some there) (h : i + 2 ≤ c.reached after) :
    c.entered (.inside i position stop) after =
      there :: c.entered (.inside (i + 1) position' stop') after := by
  have hget : (c.nodes.toList.take (c.reached after))[i + 1]? = some there := by
    rw [List.getElem?_take_of_lt (by omega), Array.getElem?_toList, hthere]
  have hdrop := List.drop_eq_getElem?_toList_append (l := c.nodes.toList.take (c.reached after))
    (i := i + 1)
  rw [hget] at hdrop
  exact hdrop

theorem trails_seek (hbears : c.Bears size parts) {i position stop : Nat}
    (h : c.Trails size parts (.inside i position stop) t) :
    c.Trails size parts (c.seek i position stop).2
      { initial := t.initial
        stops := t.stops ++
          (c.entered (.inside i position stop) (c.seek i position stop).2).map published
        results := t.results ++ [(c.seek i position stop).1] } := by
  obtain ⟨visits, seen, rest, pauses, hfollows, hentered, rfl, node, hnode, hstop, hreads⟩ := h
  fun_induction seek c i position stop generalizing t visits rest node with
  | case1 i _ _ hnone => simp [hnone] at hnode
  | case2 i position stop here hhere v distance hread =>
      obtain rfl : here = node := Option.some.inj (hhere.symm.trans hnode)
      have hsame :
          c.entered (.inside i position stop) (.inside i (position + distance) stop) = [] :=
        entered_self c (Nat.le_refl _)
      cases rest with
      | nil =>
          obtain rfl : position = stop := hreads
          simp [read?_self] at hread
      | cons u rest =>
          obtain ⟨d, -, hread', hrest⟩ := hreads
          obtain ⟨rfl, rfl⟩ : v = u ∧ distance = d := by simpa [hread] using hread'
          simp only [hsame, List.map_nil, List.append_nil]
          exact ⟨visits, _, rest, 0, hfollows.value, hentered, rfl, here, hnode, hstop, hrest⟩
  | case3 i position stop here hhere hread hend =>
      obtain rfl : here = node := Option.some.inj (hhere.symm.trans hnode)
      obtain rfl := hreads.eq_nil_of_read? hread
      have hsize : c.nodes.size ≤ i + 1 := by simpa using hend
      have hnone : c.entered (.inside i position stop) .spent = [] := entered_self c hsize
      have hlength : parts.length ≤ visits.length := by
        rw [← hbears.length_eq, Array.length_toList, hentered]
        exact hsize
      simp only [hnone, List.map_nil, List.append_nil]
      exact ⟨visits, seen, [], 1, hfollows.pause fun _ => hlength, Nat.one_pos⟩
  | case4 i position stop here hhere hread there hthere ih =>
      obtain rfl : here = node := Option.some.inj (hhere.symm.trans hnode)
      obtain rfl := hreads.eq_nil_of_read? hread
      obtain ⟨part, hpart, hshow, hsize⟩ := exists_of_forall₂ hbears (by simpa using hthere)
      have hentered' : (visits ++ [part]).length = i + 2 := by simp [hentered]
      have hlater := ih (visits ++ [part]) part hentered' (hfollows.enter (hentered ▸ hpart)) there
        hthere (Nat.le_refl _) hshow
      have hcons : c.entered (.inside i position stop) (c.seek (i + 1) 0 (published there)).2 =
          there :: c.entered (.inside (i + 1) 0 (published there))
            (c.seek (i + 1) 0 (published there)).2 :=
        entered_cons c hthere (reached_le_seek c hthere)
      rw [hcons, List.map_cons, hsize]
      simpa [hsize] using hlater

theorem trails_next (hbears : c.Bears size parts) (h : c.Trails size parts cursor t) :
    c.Trails size parts (c.next cursor).2
      { initial := t.initial
        stops := t.stops ++ (c.entered cursor (c.next cursor).2).map published
        results := t.results ++ [(c.next cursor).1] } := by
  cases cursor with
  | inside i position stop => exact trails_seek hbears h
  | spent =>
      obtain ⟨visits, seen, rest, pauses, hfollows, hpauses⟩ := h
      obtain ⟨rfl, -⟩ := hfollows.paused hpauses
      have hnone : c.entered .spent .spent = [] := entered_self c (Nat.le_refl _)
      simp only [next, hnone, List.map_nil, List.append_nil]
      refine ⟨visits, seen, [], pauses + 1, hfollows.pause ?_, Nat.succ_pos _⟩
      intro hzero
      exact absurd hzero (Nat.ne_of_gt hpauses)

theorem trails_nexts (hbears : c.Bears size parts) (count : Nat)
    (h : c.Trails size parts cursor t) :
    c.Trails size parts (c.nexts count cursor).2 (c.track count cursor t) := by
  induction count generalizing cursor t with
  | zero => simpa [track, stops, nexts] using h
  | succ count ih =>
      have hrest := ih (trails_next hbears h)
      simpa [track, stops, nexts] using hrest

theorem trails_start (hbears : c.Bears size parts) : c.Trails size parts c.start c.trailhead := by
  have hhead : c.nodes[0]? = some c.head := Array.getElem?_eq_getElem c.size_pos
  obtain ⟨part, hpart, hshow, hsize⟩ := exists_of_forall₂ hbears (by simpa using hhead)
  obtain ⟨parts, rfl⟩ : ∃ rest, parts = part :: rest := by
    cases parts with
    | nil => simp at hpart
    | cons first rest => exact ⟨rest, by simpa using hpart⟩
  refine ⟨[part], [], part, 0, ?_, rfl, rfl, c.head, hhead, Nat.le_refl _, hshow⟩
  rw [trailhead, toList_of_shows hbears.shows, hsize]
  exact Trail.follows_first part parts

/-- What is pushed changes nothing of what the reader was told and has come for. -/
theorem Trails.lengthen (h : c.Trails size parts cursor t) (hext : c.Extends c')
    (hparts : Lengthens parts parts') : c'.Trails size parts' cursor t := by
  obtain ⟨visits, seen, rest, pauses, hfollows, hstands⟩ := h
  refine ⟨visits, seen, rest, pauses, hfollows.lengthen hparts, ?_⟩
  cases cursor with
  | spent => exact hstands
  | inside i position stop =>
      obtain ⟨hentered, hpauses, node, hnode, hstop, hreads⟩ := hstands
      obtain ⟨node', hnode', hn⟩ := hext i node hnode
      exact ⟨hentered, hpauses, node', hnode', Nat.le_trans hstop hn.published_le,
        hreads.of_extends hn hstop⟩

end Chain

end GrowArena

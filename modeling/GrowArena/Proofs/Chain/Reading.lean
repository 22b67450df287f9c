import GrowArena.Chain.Cursor
import GrowArena.Proofs.Paired

/-!
What readers find in a chain. `Segment.Reads` lays the values of a node end to end between two
positions. A reader that starts at the head finds what the nodes show, one node after the other,
and then nothing for good. A reader on its way loses nothing when nodes are published further.
-/

namespace GrowArena

variable {ν α : Type} [Segment ν α]

namespace Segment

/-- The values stand end to end from a position up to `stop`. -/
def Reads (node : ν) (stop : Nat) : Nat → List α → Prop
  | position, [] => position = stop
  | position, v :: vs =>
      ∃ distance, 0 < distance ∧ read? node position stop = some (v, distance) ∧
        Reads node stop (position + distance) vs

/-- The values of a node that a reader finds who enters it now. -/
def Shows (node : ν) (vs : List α) : Prop := Reads node (published node) 0 vs

/-- What one state of a node has published stays as it is in the other. -/
structure Extends (node node' : ν) : Prop where
  published_le : published node ≤ published node'
  read?_eq : ∀ position stop, stop ≤ published node →
    read? node' position stop = read? node position stop

theorem Reads.length_le {node : ν} {stop position : Nat} {vs : List α}
    (h : Reads node stop position vs) : position + vs.length ≤ stop := by
  induction vs generalizing position with
  | nil => exact Nat.le_of_eq h
  | cons v vs ih =>
      obtain ⟨distance, hpos, -, hrest⟩ := h
      have := ih hrest
      simp only [List.length_cons]
      omega

theorem Reads.eq_nil_of_read? {node : ν} {stop position : Nat} {vs : List α}
    (h : Reads node stop position vs) (hread : read? node position stop = none) : vs = [] := by
  cases vs with
  | nil => rfl
  | cons v vs =>
      obtain ⟨distance, -, hread', -⟩ := h
      simp [hread] at hread'

theorem Reads.unique {node : ν} {stop position : Nat} {us vs : List α}
    (hus : Reads node stop position us) (hvs : Reads node stop position vs) : us = vs := by
  induction us generalizing position vs with
  | nil =>
      obtain rfl : position = stop := hus
      exact (hvs.eq_nil_of_read? (read?_self node position)).symm
  | cons u us ih =>
      obtain ⟨distance, -, hread, hrest⟩ := hus
      cases vs with
      | nil =>
          obtain rfl : position = stop := hvs
          simp [read?_self] at hread
      | cons v vs =>
          obtain ⟨distance', -, hread', hrest'⟩ := hvs
          obtain ⟨rfl, rfl⟩ : u = v ∧ distance = distance' := by simpa [hread] using hread'
          rw [ih hrest hrest']

theorem Reads.of_extends {node node' : ν} {stop position : Nat} {vs : List α}
    (hext : Extends node node') (hstop : stop ≤ published node)
    (h : Reads node stop position vs) : Reads node' stop position vs := by
  induction vs generalizing position with
  | nil => exact h
  | cons v vs ih =>
      obtain ⟨distance, hpos, hread, hrest⟩ := h
      exact ⟨distance, hpos, (hext.read?_eq position stop hstop).trans hread, ih hrest⟩

theorem Extends.refl (node : ν) : Extends node node :=
  ⟨Nat.le_refl _, fun _ _ _ => rfl⟩

theorem Extends.trans {n₁ n₂ n₃ : ν} (h : Extends n₁ n₂) (h' : Extends n₂ n₃) :
    Extends n₁ n₃ where
  published_le := Nat.le_trans h.published_le h'.published_le
  read?_eq position stop hstop :=
    (h'.read?_eq position stop (Nat.le_trans hstop h.published_le)).trans
      (h.read?_eq position stop hstop)

theorem Shows.length_le {node : ν} {vs : List α} (h : Shows node vs) :
    vs.length ≤ published node := by
  simpa using Reads.length_le h

theorem Shows.published_eq_zero_iff {node : ν} {vs : List α} (h : Shows node vs) :
    published node = 0 ↔ vs = [] := by
  constructor
  · intro hzero
    have := h.length_le
    exact List.eq_nil_of_length_eq_zero (by omega)
  · rintro rfl
    exact Eq.symm h

end Segment

namespace Chain

open Segment

/-- What each node shows, node after node. -/
def Shows (c : Chain ν) (parts : List (List α)) : Prop :=
  List.Forall₂ Segment.Shows c.nodes.toList parts

/-- The values that a reader still finds if nothing is published any more. -/
def Ahead (c : Chain ν) : Cursor → List α → Prop
  | .spent, vs => vs = []
  | .inside i position stop, vs =>
      ∃ node us parts, c.nodes[i]? = some node ∧ Reads node stop position us ∧
        List.Forall₂ Segment.Shows (c.nodes.toList.drop (i + 1)) parts ∧ vs = us ++ parts.flatten

/-- Asking for the next value gives the values in turn, and then none for good. -/
inductive Yields (c : Chain ν) : Cursor → List α → Prop
  | done {cursor : Cursor} (h : c.next cursor = (none, .spent)) : Yields c cursor []
  | value {cursor cursor' : Cursor} {v : α} {vs : List α}
      (h : c.next cursor = (some v, cursor')) (rest : Yields c cursor' vs) :
      Yields c cursor (v :: vs)

/-- A place that a reader can have come to: whole values lie between it and the end of what the
reader takes from the node. -/
def Legible (c : Chain ν) : Cursor → Prop
  | .spent => True
  | .inside i position stop =>
      ∃ node us, c.nodes[i]? = some node ∧ stop ≤ published node ∧ Reads node stop position us

/-- Such a place, if the values up to the end of what the reader takes from the node are in a
list. -/
def LegibleIn (c : Chain ν) (l : List α) : Cursor → Prop
  | .spent => True
  | .inside i position stop =>
      ∃ node us, c.nodes[i]? = some node ∧ stop ≤ published node ∧ Reads node stop position us ∧
        us ⊆ l

/-- The places at which a reader looks for a value on its way to the next one. -/
inductive Passes (c : Chain ν) : Cursor → Cursor → Prop
  | here (cursor : Cursor) : Passes c cursor cursor
  | onward {i position stop : Nat} {node there : ν} {cursor : Cursor}
      (hnode : c.nodes[i]? = some node) (hread : read? node position stop = none)
      (hthere : c.nodes[i + 1]? = some there)
      (rest : Passes c (.inside (i + 1) 0 (published there)) cursor) :
      Passes c (.inside i position stop) cursor

/-- Nodes are only appended, and what they have published stays. -/
def Extends (c c' : Chain ν) : Prop :=
  ∀ (i : Nat) node, c.nodes[i]? = some node →
    ∃ node', c'.nodes[i]? = some node' ∧ Segment.Extends node node'

theorem seek_of_read? (c : Chain ν) {i position stop : Nat} {node : ν} {v : α} {distance : Nat}
    (hnode : c.nodes[i]? = some node) (hread : read? node position stop = some (v, distance)) :
    c.seek i position stop = (some v, .inside i (position + distance) stop) := by
  rw [seek]
  simp only [hnode, hread]

theorem seek_of_last (c : Chain ν) {i position stop : Nat} {node : ν}
    (hnode : c.nodes[i]? = some node) (hread : read? node position stop = none)
    (hend : c.nodes[i + 1]? = none) : c.seek i position stop = (none, .spent) := by
  rw [seek]
  simp only [hnode, hread]
  split
  · rfl
  · simp_all

theorem seek_of_next (c : Chain ν) {i position stop : Nat} {node there : ν}
    (hnode : c.nodes[i]? = some node) (hread : read? node position stop = none)
    (hthere : c.nodes[i + 1]? = some there) :
    c.seek i position stop = c.seek (i + 1) 0 (published there) := by
  rw [seek]
  simp only [hnode, hread]
  split
  · simp_all
  · rename_i heq
    obtain rfl := Option.some.inj (hthere.symm.trans heq)
    rfl

theorem seek_of_reads (c : Chain ν) (parts : List (List α)) {i position stop : Nat} {node : ν}
    {us : List α} (hnode : c.nodes[i]? = some node) (hus : Reads node stop position us)
    (hparts : List.Forall₂ Segment.Shows (c.nodes.toList.drop (i + 1)) parts) :
    (us ++ parts.flatten = [] → c.seek i position stop = (none, .spent)) ∧
      ∀ v vs, us ++ parts.flatten = v :: vs →
        ∃ cursor, c.seek i position stop = (some v, cursor) ∧ c.Ahead cursor vs := by
  induction parts generalizing i position stop node us with
  | nil =>
      cases us with
      | nil =>
          obtain rfl : position = stop := hus
          have hend : c.nodes[i + 1]? = none := by
            have := List.forall₂_nil_right_iff.mp hparts
            simpa [List.drop_eq_nil_iff] using this
          exact ⟨fun _ => seek_of_last c hnode (read?_self node position) hend, by simp⟩
      | cons u us =>
          obtain ⟨distance, -, hread, hrest⟩ := hus
          refine ⟨by simp, ?_⟩
          rintro v vs ⟨⟩
          exact ⟨_, seek_of_read? c hnode hread, node, us, [], hnode, hrest, hparts, rfl⟩
  | cons part parts ih =>
      cases us with
      | nil =>
          obtain rfl : position = stop := hus
          obtain ⟨there, rest, hshow, hrest, hdrop⟩ := List.forall₂_cons_right_iff.mp hparts
          have hthere : c.nodes[i + 1]? = some there := by
            have := congrArg List.head? hdrop
            simpa [List.head?_drop] using this
          have htail : rest = c.nodes.toList.drop (i + 1 + 1) := by
            have := congrArg List.tail hdrop
            simpa using this.symm
          rw [seek_of_next c hnode (read?_self node position) hthere]
          exact ih hthere hshow (htail ▸ hrest)
      | cons u us =>
          obtain ⟨distance, -, hread, hrest⟩ := hus
          refine ⟨by simp, ?_⟩
          rintro v vs ⟨⟩
          exact ⟨_, seek_of_read? c hnode hread, node, us, part :: parts, hnode, hrest, hparts, rfl⟩

theorem next_of_ahead_nil {c : Chain ν} {cursor : Cursor} (h : c.Ahead cursor []) :
    c.next cursor = (none, .spent) := by
  cases cursor with
  | spent => rfl
  | inside i position stop =>
      obtain ⟨node, us, parts, hnode, hus, hparts, heq⟩ := h
      exact (seek_of_reads c parts hnode hus hparts).1 heq.symm

theorem next_of_ahead_cons {c : Chain ν} {cursor : Cursor} {v : α} {vs : List α}
    (h : c.Ahead cursor (v :: vs)) :
    ∃ cursor', c.next cursor = (some v, cursor') ∧ c.Ahead cursor' vs := by
  cases cursor with
  | spent => cases h
  | inside i position stop =>
      obtain ⟨node, us, parts, hnode, hus, hparts, heq⟩ := h
      exact (seek_of_reads c parts hnode hus hparts).2 v vs heq.symm

theorem yields_of_ahead {c : Chain ν} {cursor : Cursor} {vs : List α} (h : c.Ahead cursor vs) :
    c.Yields cursor vs := by
  induction vs generalizing cursor with
  | nil => exact .done (next_of_ahead_nil h)
  | cons v vs ih =>
      obtain ⟨cursor', hnext, hahead⟩ := next_of_ahead_cons h
      exact .value hnext (ih hahead)

theorem ahead_start {c : Chain ν} {parts : List (List α)} (h : c.Shows parts) :
    c.Ahead c.start parts.flatten := by
  have hpos := c.size_pos
  have hhead : c.nodes[0]? = some c.head := Array.getElem?_eq_getElem hpos
  have hnodes : c.nodes.toList = c.head :: c.nodes.toList.drop 1 := by
    have hlist : c.nodes.toList[0]? = some c.head := by simpa using hhead
    cases hl : c.nodes.toList with
    | nil => simp [hl] at hlist
    | cons node nodes => simp_all
  rw [Shows, hnodes] at h
  obtain ⟨part, rest, hshow, hrest, rfl⟩ := List.forall₂_cons_left_iff.mp h
  exact ⟨c.head, part, rest, hhead, hshow, hrest, rfl⟩

/-- A new reader finds what the nodes show, and then nothing for good. -/
theorem yields_start {c : Chain ν} {parts : List (List α)} (h : c.Shows parts) :
    c.Yields c.start parts.flatten :=
  yields_of_ahead (ahead_start h)

theorem drain_of_yields {c : Chain ν} {cursor : Cursor} {vs : List α} (h : c.Yields cursor vs)
    {bound : Nat} (hbound : vs.length ≤ bound) : c.drain bound cursor = vs := by
  induction h generalizing bound with
  | done hnext => cases bound <;> simp [drain, hnext]
  | value hnext _ ih =>
      cases bound with
      | zero => simp at hbound
      | succ bound => simp [drain, hnext, ih (Nat.le_of_succ_le_succ hbound)]

theorem length_flatten_le_extent {c : Chain ν} {parts : List (List α)} (h : c.Shows parts) :
    parts.flatten.length ≤ c.extent := by
  unfold Shows at h
  unfold extent
  generalize c.nodes.toList = nodes at h ⊢
  induction h with
  | nil => simp
  | cons hshow _ ih =>
      have := hshow.length_le
      simp only [List.flatten_cons, List.length_append, List.foldr_cons]
      omega

theorem toList_of_shows {c : Chain ν} {parts : List (List α)} (h : c.Shows parts) :
    c.toList = parts.flatten :=
  drain_of_yields (yields_start h) (length_flatten_le_extent h)

theorem isEmpty_iff_of_shows {c : Chain ν} {parts : List (List α)} (h : c.Shows parts) :
    c.isEmpty = true ↔ parts.flatten = [] := by
  simp only [isEmpty, ← Array.all_toList, List.all_eq_true, beq_iff_eq, List.flatten_eq_nil_iff]
  unfold Shows at h
  generalize c.nodes.toList = nodes at h ⊢
  induction h with
  | nil => simp
  | cons hshow _ ih => simp [hshow.published_eq_zero_iff, ih]

/-- There is but one list for each node that the node shows. -/
theorem Shows.unique {c : Chain ν} {parts parts' : List (List α)} (h : c.Shows parts)
    (h' : c.Shows parts') : parts = parts' := by
  unfold Shows at h h'
  generalize c.nodes.toList = nodes at h h'
  induction h generalizing parts' with
  | nil => exact (List.forall₂_nil_left_iff.mp h').symm
  | cons hshow _ ih =>
      obtain ⟨part', rest', hshow', hrest', rfl⟩ := List.forall₂_cons_left_iff.mp h'
      rw [Reads.unique hshow hshow', ih hrest']

theorem Legible.exists_legibleIn {c : Chain ν} {cursor : Cursor} (h : c.Legible cursor) :
    ∃ us : List α, ∀ l, us ⊆ l → c.LegibleIn l cursor := by
  cases cursor with
  | spent => exact ⟨[], fun _ _ => trivial⟩
  | inside i position stop =>
      obtain ⟨node, us, hnode, hstop, hus⟩ := h
      exact ⟨us, fun l hl => ⟨node, us, hnode, hstop, hus, hl⟩⟩

theorem LegibleIn.legible {c : Chain ν} {l : List α} {cursor : Cursor}
    (h : c.LegibleIn l cursor) : c.Legible cursor := by
  cases cursor with
  | spent => trivial
  | inside i position stop =>
      obtain ⟨node, us, hnode, hstop, hus, -⟩ := h
      exact ⟨node, us, hnode, hstop, hus⟩

theorem LegibleIn.mono {c : Chain ν} {l l' : List α} {cursor : Cursor} (h : c.LegibleIn l cursor)
    (hl : l ⊆ l') : c.LegibleIn l' cursor := by
  cases cursor with
  | spent => trivial
  | inside i position stop =>
      obtain ⟨node, us, hnode, hstop, hus, hsub⟩ := h
      exact ⟨node, us, hnode, hstop, hus, List.Subset.trans hsub hl⟩

theorem legibleIn_enter (c : Chain ν) {parts : List (List α)} (h : c.Shows parts) {l : List α}
    (hl : parts.flatten ⊆ l) {i : Nat} {there : ν} (hthere : c.nodes[i]? = some there) :
    c.LegibleIn l (.inside i 0 (published there)) := by
  obtain ⟨part, hpart, hshow⟩ := exists_of_forall₂ h (by simpa using hthere)
  refine ⟨there, part, hthere, Nat.le_refl _, hshow, ?_⟩
  intro v hv
  exact hl (List.mem_flatten_of_mem (List.mem_of_getElem? hpart) hv)

theorem legibleIn_start (c : Chain ν) {parts : List (List α)} (h : c.Shows parts) {l : List α}
    (hl : parts.flatten ⊆ l) : c.LegibleIn l c.start :=
  legibleIn_enter c h hl (Array.getElem?_eq_getElem c.size_pos)

theorem legible_enter (c : Chain ν) {parts : List (List α)} (h : c.Shows parts) {i : Nat}
    {there : ν} (hthere : c.nodes[i]? = some there) :
    c.Legible (.inside i 0 (published there)) :=
  (legibleIn_enter c h (List.Subset.refl _) hthere).legible

theorem legible_start (c : Chain ν) {parts : List (List α)} (h : c.Shows parts) :
    c.Legible c.start :=
  (legibleIn_start c h (List.Subset.refl _)).legible

theorem Legible.of_passes {c : Chain ν} {parts : List (List α)} (h : c.Shows parts)
    {cursor cursor' : Cursor} (hcursor : c.Legible cursor) (hpasses : c.Passes cursor cursor') :
    c.Legible cursor' := by
  induction hpasses with
  | here => exact hcursor
  | onward _ _ hthere _ ih => exact ih (legible_enter c h hthere)

theorem legibleIn_seek (c : Chain ν) {parts : List (List α)} (h : c.Shows parts) {l : List α}
    (hl : parts.flatten ⊆ l) {i position stop : Nat}
    (hcursor : c.LegibleIn l (.inside i position stop)) :
    (∀ v, (c.seek i position stop).1 = some v → v ∈ l) ∧
      c.LegibleIn l (c.seek i position stop).2 := by
  fun_induction seek c i position stop with
  | case1 => exact ⟨by simp, trivial⟩
  | case2 i position stop here hhere v distance hread =>
      obtain ⟨node, us, hnode, hstop, hus, hsub⟩ := hcursor
      obtain rfl : here = node := Option.some.inj (hhere.symm.trans hnode)
      cases us with
      | nil =>
          obtain rfl : position = stop := hus
          simp [read?_self] at hread
      | cons u us =>
          obtain ⟨d, -, hread', hrest⟩ := hus
          obtain ⟨rfl, rfl⟩ : v = u ∧ distance = d := by simpa [hread] using hread'
          obtain ⟨hv, hus⟩ := List.cons_subset.mp hsub
          refine ⟨?_, here, us, hnode, hstop, hrest, hus⟩
          rintro _ ⟨rfl⟩
          exact hv
  | case3 => exact ⟨by simp, trivial⟩
  | case4 i position stop here hhere hread there hthere ih =>
      exact ih (legibleIn_enter c h hl hthere)

/-- What a reader finds is in the list that everything shown is in. -/
theorem legibleIn_next (c : Chain ν) {parts : List (List α)} (h : c.Shows parts) {l : List α}
    (hl : parts.flatten ⊆ l) {cursor : Cursor} (hcursor : c.LegibleIn l cursor) :
    (∀ v, (c.next cursor).1 = some v → v ∈ l) ∧ c.LegibleIn l (c.next cursor).2 := by
  cases cursor with
  | spent => exact ⟨nofun, trivial⟩
  | inside i position stop => exact legibleIn_seek c h hl hcursor

theorem legible_next (c : Chain ν) {parts : List (List α)} (h : c.Shows parts) {cursor : Cursor}
    (hcursor : c.Legible cursor) : c.Legible (c.next cursor).2 := by
  obtain ⟨us, hus⟩ := hcursor.exists_legibleIn
  have hin := hus (us ++ parts.flatten) (List.subset_append_left ..)
  exact (legibleIn_next c h (List.subset_append_right ..) hin).2.legible

theorem legible_nexts (c : Chain ν) {parts : List (List α)} (h : c.Shows parts) (count : Nat)
    {cursor : Cursor} (hcursor : c.Legible cursor) : c.Legible (c.nexts count cursor).2 := by
  induction count generalizing cursor with
  | zero => exact hcursor
  | succ count ih => exact ih (legible_next c h hcursor)

theorem LegibleIn.of_extends {c c' : Chain ν} (hext : c.Extends c') {l : List α} {cursor : Cursor}
    (h : c.LegibleIn l cursor) : c'.LegibleIn l cursor := by
  cases cursor with
  | spent => trivial
  | inside i position stop =>
      obtain ⟨node, us, hnode, hstop, hus, hsub⟩ := h
      obtain ⟨node', hnode', hn⟩ := hext i node hnode
      exact ⟨node', us, hnode', Nat.le_trans hstop hn.published_le, hus.of_extends hn hstop, hsub⟩

theorem Legible.of_extends {c c' : Chain ν} (hext : c.Extends c') {cursor : Cursor}
    (h : c.Legible cursor) : c'.Legible cursor := by
  obtain ⟨us, hus⟩ := h.exists_legibleIn
  exact ((hus us (List.Subset.refl us)).of_extends hext).legible

theorem Extends.refl (c : Chain ν) : c.Extends c :=
  fun _ node hnode => ⟨node, hnode, Segment.Extends.refl node⟩

theorem Extends.trans {c₁ c₂ c₃ : Chain ν} (h : c₁.Extends c₂) (h' : c₂.Extends c₃) :
    c₁.Extends c₃ := by
  intro i node hnode
  obtain ⟨node₂, hnode₂, h₂⟩ := h i node hnode
  obtain ⟨node₃, hnode₃, h₃⟩ := h' i node₂ hnode₂
  exact ⟨node₃, hnode₃, h₂.trans h₃⟩

theorem extends_append (c : Chain ν) (node : ν) : c.Extends (c.append node) := by
  intro i there hthere
  refine ⟨there, ?_, Segment.Extends.refl there⟩
  obtain ⟨hi, rfl⟩ := Array.getElem?_eq_some_iff.mp hthere
  simp [append, Array.getElem?_push_lt hi]

theorem extends_modify (c : Chain ν) {i : Nat} {f : ν → ν}
    (h : ∀ node, c.nodes[i]? = some node → Segment.Extends node (f node)) :
    c.Extends (c.modify i f) := by
  intro k node hnode
  by_cases hk : i = k
  · subst hk
    exact ⟨f node, by simp [modify, Array.getElem?_modify, hnode], h node hnode⟩
  · exact ⟨node, by simp [modify, Array.getElem?_modify, hk, hnode], Segment.Extends.refl node⟩

theorem extends_modify_last (c : Chain ν) {f : ν → ν} (h : Segment.Extends c.tail (f c.tail)) :
    c.Extends (c.modify c.last f) := by
  apply extends_modify
  intro node hnode
  have htail : c.nodes.toList[c.last]? = some c.tail := by
    rw [toList_eq, last_eq_length_closed]
    simp
  obtain rfl : c.tail = node := by
    rw [Array.getElem?_toList, hnode] at htail
    exact (Option.some.inj htail).symm
  exact h

end Chain

end GrowArena

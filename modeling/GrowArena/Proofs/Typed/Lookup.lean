import GrowArena.Proofs.Typed.Contents

/-!
Looking values up in a typed array. The walk behind `get`, the shortcut of `back` to the tail, the
sum behind `size` and a reader from the front all see one list: the values of the nodes, one node
after the other.
-/

namespace GrowArena

variable {α : Type}

namespace TypedArray

/-- All ways of looking at the array agree with one list. -/
structure Represents (a : TypedArray α) (l : List α) : Prop where
  size_eq : a.size = l.length
  isEmpty_iff : a.chain.isEmpty = true ↔ l = []
  /-- A new reader finds the values in turn, and then nothing for good. -/
  yields : a.chain.Yields a.chain.start l
  toList_eq : a.chain.toList = l
  get_of_lt : ∀ (i : Nat) (h : i < l.length), a.get i = .ok l[i]
  get_of_le : ∀ i, l.length ≤ i → a.get i = .error (.indexOutOfBounds i l.length)
  /-- The places that a failing walk has left never exceed the index. -/
  remaining_le : ∀ i remaining, walk a.chain.nodes.toList i = .error remaining → remaining ≤ i
  back_eq : a.back = match l.getLast? with
    | some v => .ok v
    | none => .error .empty

theorem size_of_orderly {a : TypedArray α} (h : ∀ n ∈ a.chain.nodes.toList, n.Orderly) :
    a.size = (a.chain.nodes.toList.flatMap TypedNode.front).length := by
  unfold size Chain.extent
  generalize a.chain.nodes.toList = nodes at h ⊢
  induction nodes with
  | nil => rfl
  | cons n ns ih =>
      rw [List.foldr_cons, ih fun m hm => h m (List.mem_cons_of_mem n hm),
        TypedNode.segment_published, (h n List.mem_cons_self).published_eq]
      simp

/-- The walk takes the lengths of the nodes off the index until the index lies in a node. -/
theorem walk_of_orderly {nodes : List (TypedNode α)} (h : ∀ n ∈ nodes, n.Orderly) (index : Nat) :
    walk nodes index =
      match (nodes.flatMap TypedNode.front)[index]? with
      | some v => .ok v
      | none => .error (index - (nodes.flatMap TypedNode.front).length) := by
  induction nodes generalizing index with
  | nil => simp [walk]
  | cons n ns ih =>
      have hnode := h n List.mem_cons_self
      have hrest := ih fun m hm => h m (List.mem_cons_of_mem n hm)
      by_cases hlt : index < n.front.length
      · simp [walk, hnode.read?_of_lt hlt, List.getElem?_append_left, hlt]
      · have hle : n.front.length ≤ index := Nat.le_of_not_lt hlt
        rw [walk, hnode.read?_of_le hle, hnode.published_eq]
        simp only [hrest, List.flatMap_cons, List.getElem?_append_right hle, List.length_append]
        rw [Nat.sub_sub]

theorem get_of_orderly {a : TypedArray α} (h : ∀ n ∈ a.chain.nodes.toList, n.Orderly)
    (index : Nat) :
    a.get index =
      match (a.chain.nodes.toList.flatMap TypedNode.front)[index]? with
      | some v => .ok v
      | none =>
          .error (.indexOutOfBounds index
            (a.chain.nodes.toList.flatMap TypedNode.front).length) := by
  rw [get, walk_of_orderly h]
  cases hi : (a.chain.nodes.toList.flatMap TypedNode.front)[index]? with
  | some v => rfl
  | none =>
      have hle := List.getElem?_eq_none_iff.mp hi
      simp only [Nat.sub_sub_self hle]

theorem getLast?_filterMap_last? {nodes : List (TypedNode α)} (h : ∀ n ∈ nodes, n.Orderly) :
    (nodes.filterMap TypedNode.last?).getLast? = (nodes.flatMap TypedNode.front).getLast? := by
  induction nodes with
  | nil => rfl
  | cons n ns ih =>
      have hcons : (n :: ns).filterMap TypedNode.last? =
          n.front.getLast?.toList ++ ns.filterMap TypedNode.last? := by
        rw [List.filterMap_cons, (h n List.mem_cons_self).last?_eq]
        cases n.front.getLast? <;> rfl
      rw [hcons, List.flatMap_cons, List.getLast?_append, List.getLast?_append,
        ih fun m hm => h m (List.mem_cons_of_mem n hm)]
      congr 1
      cases n.front.getLast? <;> rfl

theorem back_of_orderly {a : TypedArray α} (h : ∀ n ∈ a.chain.nodes.toList, n.Orderly) :
    a.back =
      match (a.chain.nodes.toList.flatMap TypedNode.front).getLast? with
      | some v => .ok v
      | none => .error .empty := by
  have hnodes := a.chain.toList_eq
  have htail : a.chain.tail.Orderly := h _ (by simp [hnodes])
  rw [back, htail.last?_eq, getLast?_filterMap_last? h]
  cases hlast : a.chain.tail.front.getLast? with
  | some v => simp [hnodes, List.getLast?_append, hlast]
  | none => rfl

theorem shows_of_orderly {a : TypedArray α} (h : ∀ n ∈ a.chain.nodes.toList, n.Orderly) :
    a.chain.Shows (a.chain.nodes.toList.map TypedNode.front) := by
  rw [Chain.Shows, List.forall₂_map_right_iff, List.forall₂_same]
  exact fun n hn => (h n hn).shows

/-- Whichever claims are pending, the array represents the fronts of its nodes. -/
theorem represents_of_orderly {a : TypedArray α} (h : ∀ n ∈ a.chain.nodes.toList, n.Orderly) :
    a.Represents (a.chain.nodes.toList.flatMap TypedNode.front) where
  size_eq := size_of_orderly h
  isEmpty_iff := Chain.isEmpty_iff_of_shows (shows_of_orderly h)
  yields := Chain.yields_start (shows_of_orderly h)
  toList_eq := Chain.toList_of_shows (shows_of_orderly h)
  get_of_lt i hi := by
    rw [get_of_orderly h, List.getElem?_eq_getElem hi]
  get_of_le i hi := by
    rw [get_of_orderly h, List.getElem?_eq_none hi]
  remaining_le i remaining hwalk := by
    rw [walk_of_orderly h] at hwalk
    split at hwalk
    · simp at hwalk
    · obtain rfl : i - _ = remaining := by simpa using hwalk
      exact Nat.sub_le ..
  back_eq := back_of_orderly h

theorem represents_of_holds {a : TypedArray α} {parts : List (List α)} (h : a.Holds parts) :
    a.Represents parts.flatten := by
  have horderly : ∀ n ∈ a.chain.nodes.toList, n.Orderly := by
    intro n hn
    obtain ⟨i, hi⟩ := List.getElem?_of_mem hn
    obtain ⟨vs, -, hnode⟩ := exists_of_forall₂ h hi
    exact hnode.orderly
  have hfronts : parts = a.chain.nodes.toList.map TypedNode.front :=
    h.shows.unique (shows_of_orderly horderly)
  rw [hfronts]
  exact represents_of_orderly horderly

end TypedArray

end GrowArena

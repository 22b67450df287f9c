import GrowArena.Proofs.Chain.Reading
import GrowArena.Typed.Node

/-!
What is true of a typed node at all times, whichever of its claims are pending. Its readers see its
front, the values of the longest run of written slots: a claim leaves the front as it is, and a
write, wherever it falls, never takes anything from it.
-/

namespace GrowArena

open Segment

variable {α : Type}

namespace TypedNode

/-- The values of the longest run of written slots. -/
def written : List (Option α) → List α
  | some v :: slots => v :: written slots
  | _ => []

def front (n : TypedNode α) : List α := written n.slots.toList

/-- Claims are counted right and published as far as every slot is written. -/
structure Orderly (n : TypedNode α) : Prop where
  claims_eq : n.claims = n.slots.size
  size_le : n.slots.size ≤ n.capacity
  published_eq : n.published = n.front.length

@[simp]
theorem written_map_append (vs : List α) (slots : List (Option α)) :
    written (vs.map some ++ slots) = vs ++ written slots := by
  induction vs with
  | nil => rfl
  | cons v vs ih => simp [written, ih]

@[simp]
theorem written_map (vs : List α) : written (vs.map some) = vs := by
  simpa [written] using written_map_append vs []

@[simp]
theorem written_append_none (slots : List (Option α)) :
    written (slots ++ [none]) = written slots := by
  induction slots with
  | nil => rfl
  | cons slot slots ih =>
      cases slot with
      | none => rfl
      | some v => simp [written, ih]

theorem written_prefix_set {slots : List (Option α)} {i : Nat} (h : slots[i]? = some none) (v : α) :
    written slots <+: written (slots.set i (some v)) := by
  induction slots generalizing i with
  | nil => exact List.prefix_refl _
  | cons slot slots ih =>
      cases slot with
      | none => exact List.nil_prefix
      | some u =>
          cases i with
          | zero => simp at h
          | succ i => simpa [written, List.cons_prefix_cons] using ih (by simpa using h)

/-- The run of written slots, and what stops it. -/
theorem exists_eq_written_append (slots : List (Option α)) :
    ∃ rest, slots = (written slots).map some ++ rest ∧ written rest = [] := by
  induction slots with
  | nil => exact ⟨[], rfl, rfl⟩
  | cons slot slots ih =>
      cases slot with
      | none => exact ⟨none :: slots, rfl, rfl⟩
      | some v =>
          obtain ⟨rest, hrest, hnil⟩ := ih
          exact ⟨rest, by rw [written, List.map_cons, List.cons_append, ← hrest], hnil⟩

/-- Publication runs from any place within the run of written slots to its end. -/
theorem writtenFrom_eq {slots : Array (Option α)} (before : List α) {after : List (Option α)}
    (hslots : slots.toList = before.map some ++ after) :
    writtenFrom slots before.length = before.length + (written after).length := by
  induction after generalizing before with
  | nil =>
      have hnone : slots[before.length]? = none := by
        rw [← Array.getElem?_toList, hslots]
        simp
      rw [writtenFrom]
      split
      · simp_all
      · rfl
  | cons slot after ih =>
      have hslot : slots[before.length]? = some slot := by
        rw [← Array.getElem?_toList, hslots]
        simp
      rw [writtenFrom]
      cases slot with
      | none =>
          split
          · simp_all
          · rfl
      | some v =>
          have hrest := ih (before ++ [v]) (by simpa using hslots)
          split
          · simp only [List.length_append, List.length_singleton] at hrest
            rw [hrest, written, List.length_cons]
            omega
          · simp_all

theorem value?_eq {n : TypedNode α} {position : Nat} (hp : position < n.front.length) :
    n.value? position = n.front[position]? := by
  obtain ⟨rest, hslots, -⟩ := exists_eq_written_append n.slots.toList
  rw [value?, ← Array.getElem?_toList, hslots]
  rw [List.getElem?_append_left (by simpa [front] using hp), List.getElem?_map]
  change _ = (written n.slots.toList)[position]?
  cases (written n.slots.toList)[position]? <;> rfl

theorem orderly_new (capacity : Nat) : Orderly ({ capacity } : TypedNode α) where
  claims_eq := rfl
  size_le := Nat.zero_le _
  published_eq := rfl

variable {n n' : TypedNode α}

theorem Orderly.read?_of_lt (h : n.Orderly) {position : Nat} (hp : position < n.front.length) :
    n.read? position n.published = some (n.front[position], 1) := by
  have hlt : position < n.published := h.published_eq ▸ hp
  simp [read?, hlt, value?_eq hp, List.getElem?_eq_getElem hp]

theorem Orderly.read?_of_le (h : n.Orderly) {position : Nat} (hp : n.front.length ≤ position) :
    n.read? position n.published = none := by
  have hle : ¬ position < n.published := by
    rw [h.published_eq]
    omega
  simp [read?, hle]

theorem Orderly.reads_append (h : n.Orderly) (vs ws : List α) (hfront : n.front = vs ++ ws) :
    Reads n n.published vs.length ws := by
  induction ws generalizing vs with
  | nil => simp [Reads, h.published_eq, hfront]
  | cons w ws ih =>
      have hp : vs.length < n.front.length := by simp [hfront]
      refine ⟨1, Nat.one_pos, ?_, ?_⟩
      · have hread := h.read?_of_lt hp
        simpa [hfront] using hread
      · have hrest := ih (vs ++ [w]) (by simpa using hfront)
        simpa using hrest

theorem Orderly.shows (h : n.Orderly) : Shows n n.front :=
  h.reads_append [] n.front rfl

/-- A front that has become longer leaves what was published before as it was. -/
theorem Orderly.extends (h : n.Orderly) (h' : n'.Orderly) (hfront : n.front <+: n'.front) :
    Segment.Extends n n' where
  published_le := by
    simpa [h.published_eq, h'.published_eq] using hfront.length_le
  read?_eq position stop hstop := by
    rw [segment_published, h.published_eq] at hstop
    have hle := hfront.length_le
    simp only [segment_read?, read?]
    split
    · obtain ⟨more, hmore⟩ := hfront
      have hlt : position < n.front.length := by omega
      have hlt' : position < n'.front.length := by omega
      rw [value?_eq hlt, value?_eq hlt', ← hmore, List.getElem?_append_left hlt]
    · rfl

theorem Orderly.claim (h : n.Orderly) (hroom : n.HasRoom) :
    n.claim.Orderly ∧ n.claim.front = n.front := by
  have hslots : n.claim.slots = n.slots.push none := by simp [TypedNode.claim, hroom]
  have hfront : n.claim.front = n.front := by simp [front, hslots]
  refine ⟨⟨?_, ?_, ?_⟩, hfront⟩
  · rw [hslots, Array.size_push, ← h.claims_eq]
    rfl
  · have hlt : n.claims < n.capacity := hroom
    rw [hslots, Array.size_push, ← h.claims_eq]
    exact hlt
  · rw [hfront]
    exact h.published_eq

theorem Orderly.claims_le (h : n.Orderly) : n.claims ≤ n.capacity :=
  h.claims_eq ▸ h.size_le

/-- A claim in vain leaves nothing behind once the counter is taken back. -/
theorem pin_claim (h : n.claims ≤ n.capacity) (hfull : ¬ n.HasRoom) : n.claim.pin = n := by
  have hclaims : n.capacity = n.claims := Nat.le_antisymm (Nat.not_lt.mp hfull) h
  simp only [TypedNode.claim, pin, if_neg hfull]
  cases n
  simpa using hclaims

theorem Orderly.write (h : n.Orderly) {slot : Nat}
    (hslot : n.slots[slot]? = some none) (v : α) :
    (n.write slot v).Orderly ∧ n.front <+: (n.write slot v).front := by
  have hfront : n.front <+: (n.write slot v).front := by
    simpa [front, TypedNode.write, publish] using
      written_prefix_set (by simpa using hslot : n.slots.toList[slot]? = some none) v
  refine ⟨⟨?_, ?_, ?_⟩, hfront⟩
  · simpa [TypedNode.write, publish] using h.claims_eq
  · simpa [TypedNode.write, publish] using h.size_le
  · obtain ⟨rest, hrest, -⟩ := exists_eq_written_append (n.write slot v).slots.toList
    obtain ⟨more, hmore⟩ := hfront
    have hslots : (n.write slot v).slots.toList =
        n.front.map some ++ (more.map some ++ rest) := by
      rw [← List.append_assoc, ← List.map_append, hmore]
      exact hrest
    have hpublished : (n.write slot v).published = writtenFrom (n.write slot v).slots n.published :=
      rfl
    rw [hpublished, h.published_eq, writtenFrom_eq n.front hslots]
    conv_rhs => rw [front, hslots, written_map_append, List.length_append]

theorem Orderly.last?_eq (h : n.Orderly) : n.last? = n.front.getLast? := by
  rw [last?, h.published_eq, List.getLast?_eq_getElem?]
  split
  · rename_i hnil
    rw [List.eq_nil_of_length_eq_zero hnil]
    rfl
  · exact value?_eq (by omega)

end TypedNode

end GrowArena

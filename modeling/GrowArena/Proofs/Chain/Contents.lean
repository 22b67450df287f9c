import GrowArena.Proofs.Chain.Reading

/-!
Chains whose nodes hold lists of values, whatever it takes for a node to hold a list. A value that
is put behind those of the tail, or into an empty node that becomes the tail, comes behind all
values of the chain, and what the nodes have published before stays.
-/

namespace GrowArena

variable {ν α : Type}

/-- Values come only behind all others: in the last part, or in parts that come behind it. -/
structure Lengthens (parts parts' : List (List α)) : Prop where
  drop_prefix : ∀ n, (parts.drop n).flatten <+: (parts'.drop n).flatten
  part_prefix : ∀ (i : Nat) part, parts[i]? = some part →
    ∃ part', parts'[i]? = some part' ∧ part <+: part'

namespace Lengthens

variable {parts parts' parts'' : List (List α)}

theorem refl (parts : List (List α)) : Lengthens parts parts where
  drop_prefix _ := List.prefix_refl _
  part_prefix _ part hpart := ⟨part, hpart, List.prefix_refl _⟩

theorem trans (h : Lengthens parts parts') (h' : Lengthens parts' parts'') :
    Lengthens parts parts'' where
  drop_prefix n := (h.drop_prefix n).trans (h'.drop_prefix n)
  part_prefix i part hpart := by
    obtain ⟨part', hpart', hprefix⟩ := h.part_prefix i part hpart
    obtain ⟨part'', hpart'', hprefix'⟩ := h'.part_prefix i part' hpart'
    exact ⟨part'', hpart'', hprefix.trans hprefix'⟩

theorem value (closed : List (List α)) (part : List α) (v : α) :
    Lengthens (closed ++ [part]) (closed ++ [part ++ [v]]) where
  drop_prefix n := by
    rcases Nat.le_total n closed.length with hn | hn
    · rw [List.drop_append_of_le_length hn, List.drop_append_of_le_length hn]
      simp
    · cases hdrop : n - closed.length <;> simp [List.drop_append, hdrop]
  part_prefix i p hp := by
    by_cases hi : i < closed.length
    · rw [List.getElem?_append_left hi] at hp
      exact ⟨p, by rw [List.getElem?_append_left hi, hp], List.prefix_refl _⟩
    · rw [List.getElem?_append_right (Nat.le_of_not_lt hi)] at hp
      obtain ⟨hlast, rfl⟩ : i - closed.length = 0 ∧ part = p := by
        simpa [List.getElem?_singleton] using hp
      refine ⟨part ++ [v], ?_, List.prefix_append ..⟩
      rw [List.getElem?_append_right (Nat.le_of_not_lt hi), hlast]
      rfl

theorem part (parts : List (List α)) : Lengthens parts (parts ++ [[]]) where
  drop_prefix n := by
    rcases Nat.le_total n parts.length with hn | hn
    · simp [List.drop_append_of_le_length hn]
    · simp [List.drop_eq_nil_of_le hn]
  part_prefix i part hpart := by
    obtain ⟨hi, -⟩ := List.getElem?_eq_some_iff.mp hpart
    exact ⟨part, by rw [List.getElem?_append_left hi, hpart], List.prefix_refl _⟩

end Lengthens

namespace Chain

variable {H : ν → List α → Prop} {c : Chain ν} {parts : List (List α)}

theorem exists_tail_of_forall₂ (h : List.Forall₂ H c.nodes.toList parts) :
    ∃ closed vs, List.Forall₂ H c.closed closed ∧ H c.tail vs ∧ parts = closed ++ [vs] := by
  rw [toList_eq] at h
  exact forall₂_concat_left_iff.mp h

theorem forall₂_append (h : List.Forall₂ H c.nodes.toList parts) {node : ν} (hnode : H node []) :
    List.Forall₂ H (c.append node).nodes.toList (parts ++ [[]]) := by
  rw [toList_append]
  exact forall₂_concat h hnode

/-- The lists that the nodes hold after a value was put into the tail. -/
theorem exists_forall₂_modify_last [Segment ν α] (h : List.Forall₂ H c.nodes.toList parts)
    {f : ν → ν} {v : α}
    (hf : ∀ vs, H c.tail vs → H (f c.tail) (vs ++ [v]) ∧ Segment.Extends c.tail (f c.tail)) :
    c.Extends (c.modify c.last f) ∧
      ∃ parts', List.Forall₂ H (c.modify c.last f).nodes.toList parts' ∧
        Lengthens parts parts' ∧ parts'.flatten = parts.flatten ++ [v] := by
  obtain ⟨closed, vs, hclosed, htail, rfl⟩ := exists_tail_of_forall₂ h
  obtain ⟨hput, hext⟩ := hf vs htail
  refine ⟨extends_modify_last c hext, closed ++ [vs ++ [v]], ?_, .value closed vs v, by simp⟩
  rw [toList_modify_last]
  exact forall₂_concat hclosed hput

end Chain

end GrowArena

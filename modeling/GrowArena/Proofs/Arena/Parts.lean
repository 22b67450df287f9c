import GrowArena.Proofs.Arena.Ranges
import GrowArena.Typed.Basic
import GrowArena.Packed.Basic
import Mathlib.Algebra.BigOperators.Group.List.Basic
import Mathlib.Algebra.Ring.Nat

/-!
Requests for several parts, one after the other, as arrays make them for a node. If one part is
refused, those before it were obtained and stay with the arena; the chunks stay too, and no other
range is handed out.
-/

namespace GrowArena

namespace Arena

/-- From one state of the arena to the other these requests were granted, in this order, and no
others. -/
structure Obtained (requests : List Request) (a a' : Arena) : Prop where
  /-- The chunks are still there, in their places, and no cursor has gone back. -/
  advances : a.Advances a'
  used_eq : a'.used = a.used + (requests.map Request.bytes).sum
  granted : ∃ grants, a'.grants = grants ++ a.grants ∧
    grants.map Grant.request = requests.reverse

theorem Obtained.refl (a : Arena) : Obtained [] a a where
  advances := .refl a
  used_eq := rfl
  granted := ⟨[], rfl, rfl⟩

theorem Obtained.trans {rs rs' : List Request} {a a' a'' : Arena} (h : Obtained rs a a')
    (h' : Obtained rs' a' a'') : Obtained (rs ++ rs') a a'' where
  advances := h.advances.trans h'.advances
  used_eq := by
    rw [h'.used_eq, h.used_eq, List.map_append, List.sum_append, Nat.add_assoc]
  granted := by
    obtain ⟨grants, hgrants, hrequests⟩ := h.granted
    obtain ⟨grants', hgrants', hrequests'⟩ := h'.granted
    refine ⟨grants' ++ grants, ?_, ?_⟩
    · rw [hgrants', hgrants, List.append_assoc]
    · rw [List.map_append, hrequests, hrequests', List.reverse_append]

/-- What is left of a request for parts that failed: one of them was refused, those before it were
obtained, and those behind it were not asked for. -/
def Residue (parts : List Request) (a a' : Arena) : Prop :=
  ∃ obtained refused rest, parts = obtained ++ refused :: rest ∧ Obtained obtained a a'

/-- Of three parts none, one or two are obtained when the request for them fails. -/
theorem Residue.used_mem {p q r : Request} {a a' : Arena} (h : Residue [p, q, r] a a') :
    a'.used ∈ [a.used, a.used + p.bytes, a.used + (p.bytes + q.bytes)] := by
  obtain ⟨obtained, refused, rest, hparts, hobtained⟩ := h
  have hused := hobtained.used_eq
  match obtained, hparts with
  | [], _ => simp_all
  | [_], hparts =>
      obtain ⟨rfl, -⟩ : p = _ ∧ _ := by simpa using hparts
      simp_all
  | [_, _], hparts =>
      obtain ⟨rfl, rfl, -⟩ : p = _ ∧ q = _ ∧ _ := by simpa using hparts
      simp_all
  | _ :: _ :: _ :: _, hparts => simp at hparts

end Arena

variable {σ : Type} [SlabSource σ]

namespace Store

theorem arena_of_allocate_error {r : Request} {s s' : Store σ} {fault : Fault}
    (h : allocate r s = .error fault s') : s'.arena = s.arena := by
  have hout := allocation_allocate r s
  rw [h] at hout
  cases hout <;> rfl

theorem obtained_of_allocate_ok {r : Request} {s s' : Store σ} {address : Nat}
    (h : allocate r s = .ok address s') : s.arena.Obtained [r] s'.arena := by
  have hadvances := advances_allocate r s
  have hgrants := grants_allocate r s
  have hout := allocation_allocate r s
  rw [h] at hadvances hgrants hout
  refine ⟨hadvances, ?_, [⟨address, r⟩], hgrants, rfl⟩
  cases hout <;> simp [update]

/-- Memory is never refused for bad settings. -/
theorem not_invalidSetting_of_allocate {r : Request} {s s' : Store σ} {fault : Fault}
    (h : allocate r s = .error fault s') (reason : String) : fault ≠ .invalidSetting reason := by
  have hout := allocation_allocate r s
  rw [h] at hout
  cases hout with
  | unaligned | refused => simp
  | excessive halign hnone hoverflow =>
      rintro rfl
      unfold Request.overflow? at hoverflow
      grind [Fault.chunkBytes, Fault.chunkExtent]

theorem allocateAll_cons (r : Request) (rs : List Request) (s : Store σ) :
    allocateAll (r :: rs) s =
      match allocate r s with
      | .ok _ s' => allocateAll rs s'
      | .error fault s' => .error fault s' := by
  simp only [allocateAll, bind, EStateM.bind]
  cases allocate r s <;> rfl

theorem residue_of_allocateAll_error {parts : List Request} {s s' : Store σ} {fault : Fault}
    (h : allocateAll parts s = .error fault s') :
    s.arena.Residue parts s'.arena ∧ ∀ reason, fault ≠ .invalidSetting reason := by
  induction parts generalizing s with
  | nil => cases h
  | cons r rs ih =>
      rw [allocateAll_cons] at h
      cases hfirst : allocate r s with
      | error fault' s₁ =>
          rw [hfirst] at h
          obtain ⟨rfl, rfl⟩ : fault' = fault ∧ s₁ = s' := by simpa using h
          refine ⟨⟨[], r, rs, rfl, ?_⟩, not_invalidSetting_of_allocate hfirst⟩
          rw [arena_of_allocate_error hfirst]
          exact .refl s.arena
      | ok address s₁ =>
          rw [hfirst] at h
          obtain ⟨⟨obtained, refused, rest, hparts, hobtained⟩, hfault⟩ := ih h
          refine ⟨⟨r :: obtained, refused, rest, by rw [hparts]; rfl, ?_⟩, hfault⟩
          exact (obtained_of_allocate_ok hfirst).trans hobtained

end Store

theorem Growth.exists_of_validate_error {g : Growth} {fault : Fault}
    (h : g.validate = .error fault) : ∃ reason, fault = .invalidSetting reason := by
  unfold validate at h
  grind

/-- How the making of an array fails: for its settings, before the store is touched, or because a
part of the first node is refused. -/
def MakingFails (g : Growth) (refused : Arena → Arena → Prop) (fault : Fault) (s s' : Store σ) :
    Prop :=
  (∃ reason, fault = .invalidSetting reason) ∧ g.validate = .error fault ∧ s' = s ∨
    (∀ reason, fault ≠ .invalidSetting reason) ∧ g.validate = .ok () ∧ refused s.arena s'.arena

namespace TypedArray

/-- A node of this capacity was refused: its elements, its marks or the node itself. -/
structure NodeRefused (f : Footprint) (capacity : Nat) (a a' : Arena) : Prop where
  residue : a.Residue (nodeParts f capacity) a'
  used_mem : a'.used ∈
    [a.used, a.used + capacity * f.size, a.used + (capacity * f.size + capacity)]

/-- If the bytes of the elements cannot be counted, no part is asked for. -/
theorem nodeRefused_of_allocateNode {f : Footprint} {capacity : Nat} {s s' : Store σ}
    {fault : Fault} (h : allocateNode f capacity s = .error fault s') :
    NodeRefused f capacity s.arena s'.arena ∧ ∀ reason, fault ≠ .invalidSetting reason := by
  unfold allocateNode at h
  split at h
  · obtain ⟨rfl, rfl⟩ : Fault.elementBytes = fault ∧ s = s' := EStateM.Result.error.inj h
    have hresidue : s.arena.Residue (nodeParts f capacity) s.arena :=
      ⟨[], _, _, rfl, .refl s.arena⟩
    exact ⟨⟨hresidue, hresidue.used_mem⟩, fun reason => by simp [Fault.elementBytes]⟩
  · obtain ⟨hresidue, hfault⟩ := Store.residue_of_allocateAll_error h
    exact ⟨⟨hresidue, hresidue.used_mem⟩, hfault⟩

theorem makingFails_of_create {α : Type} {f : Footprint} {g : Growth} {s s' : Store σ}
    {fault : Fault} (h : create (α := α) f g s = .error fault s') :
    MakingFails g (NodeRefused f g.initial) fault s s' := by
  simp only [create] at h
  split at h
  · rename_i hsettings
    obtain ⟨rfl, rfl⟩ : _ = fault ∧ s = s' := by simpa using h
    exact .inl ⟨Growth.exists_of_validate_error hsettings, hsettings, rfl⟩
  · rename_i hsettings
    split at h
    · simp at h
    · rename_i hnode
      obtain ⟨rfl, rfl⟩ : _ = fault ∧ _ = s' := by simpa using h
      obtain ⟨hrefused, hfault⟩ := nodeRefused_of_allocateNode hnode
      exact .inr ⟨hfault, hsettings, hrefused⟩

end TypedArray

namespace PackedArray

/-- A node of this capacity was refused: its bytes, their marks or the node itself. -/
structure NodeRefused (capacity : Nat) (a a' : Arena) : Prop where
  residue : a.Residue (nodeParts capacity) a'
  used_mem : a'.used ∈ [a.used, a.used + capacity, a.used + (capacity + readyBytes capacity)]

theorem nodeRefused_of_allocateNode {capacity : Nat} {s s' : Store σ} {fault : Fault}
    (h : allocateNode capacity s = .error fault s') :
    NodeRefused capacity s.arena s'.arena ∧ ∀ reason, fault ≠ .invalidSetting reason := by
  obtain ⟨hresidue, hfault⟩ := Store.residue_of_allocateAll_error h
  exact ⟨⟨hresidue, hresidue.used_mem⟩, hfault⟩

theorem makingFails_of_create {g : Growth} {s s' : Store σ} {fault : Fault}
    (h : create g s = .error fault s') :
    MakingFails g (NodeRefused (roomy g.initial)) fault s s' := by
  simp only [create] at h
  split at h
  · rename_i hsettings
    obtain ⟨rfl, rfl⟩ : _ = fault ∧ s = s' := by simpa using h
    exact .inl ⟨Growth.exists_of_validate_error hsettings, hsettings, rfl⟩
  · rename_i hsettings
    split at h
    · simp at h
    · rename_i hnode
      obtain ⟨rfl, rfl⟩ : _ = fault ∧ _ = s' := by simpa using h
      obtain ⟨hrefused, hfault⟩ := nodeRefused_of_allocateNode hnode
      exact .inr ⟨hfault, hsettings, hrefused⟩

end PackedArray

end GrowArena

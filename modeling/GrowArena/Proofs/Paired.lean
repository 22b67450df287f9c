import Mathlib.Data.List.Forall2

/-!
Lists related place by place: what the relation says at one place, and at the last, and what a
change at one place leaves of it.
-/

namespace GrowArena

open List

variable {α β : Type} {R : α → β → Prop}

theorem exists_of_forall₂ {l : List α} {m : List β} (h : Forall₂ R l m) {i : Nat} {a : α}
    (ha : l[i]? = some a) : ∃ b, m[i]? = some b ∧ R a b := by
  induction h generalizing i with
  | nil => simp at ha
  | cons hab _ ih =>
      cases i with
      | zero =>
          obtain rfl : _ = a := by simpa using ha
          exact ⟨_, rfl, hab⟩
      | succ i => exact ih (by simpa using ha)

theorem forall₂_modify_set {l : List α} {m : List β} (h : Forall₂ R l m) {i : Nat} {b b' : β}
    {f : α → α} (hb : m[i]? = some b) (hf : ∀ a, R a b → R (f a) b') :
    Forall₂ R (l.modify i f) (m.set i b') := by
  induction h generalizing i with
  | nil => simp at hb
  | @cons a c l m hac hrest ih =>
      cases i with
      | zero =>
          obtain rfl : c = b := by simpa using hb
          exact .cons (hf a hac) hrest
      | succ i => exact .cons hac (ih (by simpa using hb))

theorem rel_getElem? {l : List α} {m : List β} (h : Forall₂ R l m) (i : Nat) :
    Option.Rel R l[i]? m[i]? := by
  induction h generalizing i with
  | nil => exact .none
  | cons hab _ ih =>
      cases i with
      | zero => exact .some hab
      | succ i => exact ih i

theorem forall₂_modify {l : List α} {m : List β} (h : Forall₂ R l m) {f : α → α} {g : β → β}
    (hfg : ∀ a b, R a b → R (f a) (g b)) (i : Nat) :
    Forall₂ R (l.modify i f) (m.modify i g) := by
  induction h generalizing i with
  | nil => simp
  | cons hab hrest ih =>
      cases i with
      | zero => exact .cons (hfg _ _ hab) hrest
      | succ i => exact .cons hab (ih i)

theorem map_eq_of_forall₂ {γ : Type} {l : List α} {m : List β} (h : Forall₂ R l m) {f : α → γ}
    {g : β → γ} (hfg : ∀ a b, R a b → g b = f a) : m.map g = l.map f := by
  induction h with
  | nil => rfl
  | cons hab _ ih => rw [List.map_cons, List.map_cons, hfg _ _ hab, ih]

theorem pairwise_iff_of_forall₂ {P : α → α → Prop} {Q : β → β → Prop} {l : List α} {m : List β}
    (h : Forall₂ R l m) (hPQ : ∀ a b a' b', R a b → R a' b' → (Q b b' ↔ P a a')) :
    m.Pairwise Q ↔ l.Pairwise P := by
  induction h with
  | nil => simp
  | @cons a b l m hab hrest ih =>
      have hall : (∀ b' ∈ m, Q b b') ↔ ∀ a' ∈ l, P a a' := by
        clear ih
        induction hrest with
        | nil => simp
        | cons hab' _ ih => simp only [List.forall_mem_cons, hPQ _ _ _ _ hab hab', ih]
      simp only [List.pairwise_cons, hall, ih]

theorem forall₂_concat {l : List α} {m : List β} (h : Forall₂ R l m) {a : α} {b : β}
    (hab : R a b) : Forall₂ R (l ++ [a]) (m ++ [b]) :=
  rel_append h (.cons hab .nil)

theorem forall₂_concat_left_iff {l : List α} {a : α} {m : List β} :
    Forall₂ R (l ++ [a]) m ↔ ∃ m' b, Forall₂ R l m' ∧ R a b ∧ m = m' ++ [b] := by
  constructor
  · intro h
    induction l generalizing m with
    | nil =>
        obtain ⟨b, _, hab, hnil, rfl⟩ := forall₂_cons_left_iff.mp h
        obtain rfl := forall₂_nil_left_iff.mp hnil
        exact ⟨[], b, .nil, hab, rfl⟩
    | cons x l ih =>
        obtain ⟨b, m, hxb, hrest, rfl⟩ := forall₂_cons_left_iff.mp h
        obtain ⟨m', b', hm', hab, rfl⟩ := ih hrest
        exact ⟨b :: m', b', .cons hxb hm', hab, rfl⟩
  · rintro ⟨m', b, hm', hab, rfl⟩
    exact forall₂_concat hm' hab

end GrowArena

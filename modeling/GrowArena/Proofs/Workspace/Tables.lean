import GrowArena.Proofs.Paired
import GrowArena.Workspace.Basic

/-!
Tables with the same names in the same order. What is related entry by entry stays so when things
of one name are replaced, removed or added in both tables.
-/

namespace GrowArena.Table

variable {β γ : Type} {R : β → γ → Prop}

/-- The same names, in the same order, go with things that are related. -/
def Related (R : β → γ → Prop) (t : Table β) (u : Table γ) : Prop :=
  List.Forall₂ (fun x y => x.1 = y.1 ∧ R x.2 y.2) t u

theorem Related.imp {R' : β → γ → Prop} (himp : ∀ b c, R b c → R' b c) {t : Table β} {u : Table γ}
    (h : Related R t u) : Related R' t u :=
  List.Forall₂.imp (fun _ _ hxy => ⟨hxy.1, himp _ _ hxy.2⟩) h

theorem Related.eq {R : β → β → Prop} {t u : Table β} (h : Related R t u)
    (hR : ∀ b c, R b c → c = b) : u = t := by
  induction h with
  | nil => rfl
  | cons hxy _ ih => rw [ih, Prod.ext hxy.1 (hR _ _ hxy.2).symm]

theorem find?_cons (name : String) (entry : String × β) (t : Table β) :
    find? (entry :: t) name = if name == entry.1 then some entry.2 else find? t name := by
  rw [find?, List.lookup_cons]
  split <;> rename_i heq <;> rw [heq] <;> rfl

theorem Related.find? {t : Table β} {u : Table γ} (h : Related R t u) {name : String} {b : β}
    (hfind : t.find? name = some b) : ∃ c, u.find? name = some c ∧ R b c := by
  induction h with
  | nil => simp [Table.find?] at hfind
  | @cons x y t u hxy _ ih =>
      rw [find?_cons] at hfind ⊢
      rw [← hxy.1]
      split at hfind
      · obtain rfl := Option.some.inj hfind
        rename_i heq
        exact ⟨y.2, by rw [if_pos heq], hxy.2⟩
      · rename_i hne
        obtain ⟨c, hc, hbc⟩ := ih hfind
        exact ⟨c, by rw [if_neg hne, hc], hbc⟩

theorem Related.find?_eq_none {t : Table β} {u : Table γ} (h : Related R t u) {name : String}
    (hfind : t.find? name = none) : u.find? name = none := by
  induction h with
  | nil => rfl
  | @cons x y t u hxy _ ih =>
      rw [find?_cons] at hfind ⊢
      rw [← hxy.1]
      split at hfind
      · simp at hfind
      · rename_i hne
        rw [if_neg hne, ih hfind]

theorem Related.set {t : Table β} {u : Table γ} (h : Related R t u) (name : String) {b : β} {c : γ}
    (hbc : R b c) : Related R (t.set name b) (u.set name c) := by
  induction h with
  | nil => exact .nil
  | @cons x y t u hxy hrest ih =>
      rw [Table.set, Table.set, ← hxy.1]
      split
      · exact .cons ⟨rfl, hbc⟩ hrest
      · exact .cons hxy ih

theorem Related.remove {t : Table β} {u : Table γ} (h : Related R t u) (name : String) :
    Related R (t.remove name) (u.remove name) := by
  induction h with
  | nil => exact .nil
  | @cons x y t u hxy hrest ih =>
      rw [Table.remove, Table.remove, ← hxy.1]
      split
      · exact hrest
      · exact .cons hxy ih

theorem Related.concat {t : Table β} {u : Table γ} (h : Related R t u) (name : String) {b : β}
    {c : γ} (hbc : R b c) : Related R (t ++ [(name, b)]) (u ++ [(name, c)]) :=
  forall₂_concat h ⟨rfl, hbc⟩

theorem Related.filter {R' : β → γ → Prop} {p : String × β → Bool} {q : String × γ → Bool}
    {t : Table β} {u : Table γ} (h : Related R t u)
    (hpq : ∀ x y, x.1 = y.1 → R x.2 y.2 → p x = q y ∧ (p x = true → R' x.2 y.2)) :
    Related R' (t.filter p) (u.filter q) := by
  induction h with
  | nil => exact .nil
  | @cons x y t u hxy hrest ih =>
      obtain ⟨heq, hkept⟩ := hpq x y hxy.1 hxy.2
      rw [List.filter_cons, List.filter_cons, ← heq]
      split
      · exact .cons ⟨hxy.1, hkept (by assumption)⟩ ih
      · exact ih

/-- Puts a thing first, in the place of all others of its name. -/
def note (name : String) (b : β) (t : Table β) : Table β :=
  (name, b) :: t.filter (·.1 != name)

theorem Related.note {t : Table β} {u : Table γ} (h : Related R t u) (name : String) {b : β}
    {c : γ} (hbc : R b c) : Related R (t.note name b) (u.note name c) := by
  refine .cons ⟨rfl, hbc⟩ (h.filter ?_)
  intro x y hxy hR
  exact ⟨by rw [hxy], fun _ => hR⟩

theorem find?_set_self {t : Table β} {name : String} {b : β} (h : t.find? name = some b) (b' : β) :
    (t.set name b').find? name = some b' := by
  induction t with
  | nil => simp [find?] at h
  | cons entry t ih =>
      rw [find?_cons] at h
      rw [set]
      split
      · rw [find?_cons]
        simp
      · rename_i hne
        rw [if_neg hne] at h
        rw [find?_cons, if_neg hne, ih h]

theorem find?_set_of_ne {t : Table β} {name other : String} (hne : other ≠ name) (b : β) :
    (t.set name b).find? other = t.find? other := by
  induction t with
  | nil => rfl
  | cons entry t ih =>
      rw [set]
      split
      · rename_i heq
        have hentry : (other == entry.1) = false := by
          have : name = entry.1 := by simpa using heq
          simpa [← this] using hne
        have hname : (other == name) = false := by simpa using hne
        simp [find?_cons, hentry, hname]
      · rw [find?_cons, find?_cons, ih]

/-- An entry among the others: set, another thing stands in its place, and removed, nothing. -/
theorem exists_split_of_find? {t : Table β} {name : String} {b : β} (h : t.find? name = some b) :
    ∃ before after, t = before ++ (name, b) :: after ∧ t.remove name = before ++ after ∧
      ∀ b', t.set name b' = before ++ (name, b') :: after := by
  induction t with
  | nil => simp [find?] at h
  | cons entry t ih =>
      rw [find?_cons] at h
      by_cases hname : name == entry.1
      · rw [if_pos hname] at h
        obtain rfl := Option.some.inj h
        refine ⟨[], t, ?_, by rw [remove, if_pos hname]; rfl, ?_⟩
        · rw [beq_iff_eq.mp hname]
          rfl
        · intro b'
          rw [set, if_pos hname]
          rfl
      · rw [if_neg hname] at h
        obtain ⟨before, after, rfl, hremove, hset⟩ := ih h
        refine ⟨entry :: before, after, rfl, by rw [remove, if_neg hname, hremove]; rfl, ?_⟩
        intro b'
        rw [set, if_neg hname, hset]
        rfl

theorem set_of_find? {t : Table β} {name : String} {b : β} (h : t.find? name = some b) :
    t.set name b = t := by
  induction t with
  | nil => rfl
  | cons entry t ih =>
      rw [find?_cons] at h
      rw [set]
      split
      · rename_i heq
        rw [if_pos heq] at h
        obtain rfl := Option.some.inj h
        obtain rfl : name = entry.1 := by simpa using heq
        rfl
      · rename_i hne
        rw [if_neg hne] at h
        rw [ih h]

theorem find?_remove_of_ne {t : Table β} {name other : String} (hne : other ≠ name) :
    (t.remove name).find? other = t.find? other := by
  induction t with
  | nil => rfl
  | cons entry t ih =>
      rw [remove]
      split
      · rename_i heq
        have hentry : (other == entry.1) = false := by
          have : name = entry.1 := by simpa using heq
          simpa [← this] using hne
        simp [find?_cons, hentry]
      · rw [find?_cons, find?_cons, ih]

theorem remove_of_find?_eq_none {t : Table β} {name : String} (h : t.find? name = none) :
    t.remove name = t := by
  induction t with
  | nil => rfl
  | cons entry t ih =>
      rw [find?_cons] at h
      rw [remove]
      split
      · simp_all
      · rename_i hne
        rw [if_neg hne] at h
        rw [ih h]

theorem find?_append_of_some {t : Table β} {name : String} {b : β} (h : t.find? name = some b)
    (t' : Table β) : find? (t ++ t') name = some b := by
  rw [find?, List.lookup_append]
  rw [find?] at h
  rw [h]
  rfl

theorem mem_of_find? {t : Table β} {name : String} {b : β} (h : t.find? name = some b) :
    (name, b) ∈ t := by
  induction t with
  | nil => simp [find?] at h
  | cons entry t ih =>
      rw [find?_cons] at h
      split at h
      · rename_i heq
        obtain rfl := Option.some.inj h
        have hname : name = entry.1 := by simpa using heq
        simp [hname]
      · exact List.mem_cons_of_mem _ (ih h)

end GrowArena.Table

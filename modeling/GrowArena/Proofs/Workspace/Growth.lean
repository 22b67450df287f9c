import GrowArena.Proofs.Workspace.Accounts

/-!
Growth laws of the arrays of a workspace. Whatever jobs have been carried out, and whatever was
refused or raced for on the way, an array has grown by the settings that it was made with: a typed
array has the fewest nodes that the accepted values need, and a packed one leaves the margin of its
codes free and little more.
-/

namespace GrowArena

variable {σ α : Type} [SlabSource σ]

namespace TypedArray

variable {f : Footprint} {g : Growth} {a : TypedArray α}

omit [SlabSource σ] in
theorem Holds.published_eq {parts : List (List α)} (h : a.Holds parts) {n : TypedNode α}
    (hn : n ∈ a.chain.nodes.toList) : n.published = n.claims := by
  obtain ⟨i, hi⟩ := List.getElem?_of_mem hn
  obtain ⟨vs, -, hvs⟩ := exists_of_forall₂ h hi
  rw [hvs.published_eq, hvs.claims_eq]

theorem Holds.claimed_eq {parts : List (List α)} (h : a.Holds parts) :
    a.claimed = parts.flatten.length := by
  rw [claimed, List.length_flatten]
  exact congrArg List.sum (map_eq_of_forall₂ h fun _ _ hvs => hvs.claims_eq.symm).symm

theorem grown_racing (values : List (List α)) (schedule : Schedule)
    (state : Store σ × TypedArray α) (h : state.2.Grown f g) :
    (racing values schedule state).2.Grown f g := by
  apply racing_induct (P := fun state : Store σ × TypedArray α => state.2.Grown f g)
  · intro value state h
    have hclaim := grown_claim h
    simp only [Staged.claim]
    cases hresult : claim state <;> rwa [hresult] at hclaim
  · exact fun pending state h => h.complete pending.1 pending.2
  · exact h

/-- The law that a typed array has grown by, if this is its account. It has the fewest nodes with a
slot for every accepted value, all slots taken but those at the end. -/
structure GrowsLazily (σ : Type) [SlabSource σ] (f : Footprint) (account : Account)
    (a : TypedArray α) : Prop where
  footprint_eq : a.footprint = f
  growth_eq : a.growth = account.growth
  claimed_eq : a.claimed = account.accepted
  published_eq : ∀ n ∈ a.chain.nodes.toList, n.published = n.claims
  shaped : a.Shaped account.growth
  cost_eq : ∀ spent, account.spent = some spent → spent = a.cost
  pushes : ∀ (s : Store σ) v, Pushes s a v (push v (s, a))
  passes : ∀ s : Store σ, ∃ n, n ≤ 2 ∧ Passes claimPass n (s, a) (claim (s, a))
  /-- While writers race, the capacities are those that the settings give, and a node comes only
  behind one whose slots are all claimed. -/
  racing : ∀ (s : Store σ) (values : List (List α)) (schedule : Schedule),
    let c := (GrowArena.racing values schedule (s, a)).2.chain
    c.capacities = List.iterate account.growth.next account.growth.initial c.capacities.length ∧
      ∀ n ∈ c.closed, n.claims = n.capacity

end TypedArray

namespace PackedArray

open Leb128

variable {g : Growth} {a : PackedArray}

omit [SlabSource σ] in
theorem Holds.published_eq {parts : List (List UInt32)} (h : a.Holds parts) {n : PackedNode}
    (hn : n ∈ a.chain.nodes.toList) : n.published = n.cells.size := by
  obtain ⟨i, hi⟩ := List.getElem?_of_mem hn
  obtain ⟨vs, -, hvs⟩ := exists_of_forall₂ h hi
  exact hvs.published_eq

theorem grown_racing (words : List (List UInt32)) (schedule : Schedule)
    (state : Store σ × PackedArray) (h : state.2.Grown g) :
    (racing words schedule state).2.Grown g := by
  apply racing_induct (P := fun state : Store σ × PackedArray => state.2.Grown g)
  · intro v state h
    have hreserve := grown_reserve v h
    simp only [Staged.claim]
    cases hresult : reserve (encode v).length state <;> rwa [hresult] at hreserve
  · intro p state h
    simp only [Staged.proceed, proceed]
    cases p.rest with
    | nil => exact h.finish p.spot
    | cons byte rest => exact h.store p.spot p.stored byte
  · exact h

/-- Wherever a race stands, the nodes have their margins, nothing is published that is not reserved,
and all that writers are still to store lies within the nodes. -/
theorem Grown.bounded_race (h : a.Grown g) {parts : List (List UInt32)} (hparts : a.Holds parts)
    (s : Store σ) (words : List (List UInt32)) (schedule : Schedule) :
    let race := schedule.run Writer.watchedTurn (words.map fun todo => { todo })
      ((s, a), { cursor := a.chain.start })
    race.2.1.2.Shaped g ∧ (∀ n ∈ race.2.1.2.chain.nodes.toList, n.published ≤ n.cells.size) ∧
      ∀ w ∈ race.1, ∀ p, w.pending = some p → race.2.1.2.InBounds p := by
  intro race
  obtain ⟨r, board, hlies, (harray : r.array = race.2.1.2), hflights⟩ :=
    Race.exists_lies_racing kept_layout rests hparts s words schedule
  refine ⟨(grown_racing words schedule (s, a) h).shaped, ?_, ?_⟩
  · intro n hn
    rw [← harray] at hn
    obtain ⟨i, hi⟩ := List.getElem?_of_mem hn
    obtain ⟨es, -, hes⟩ := exists_of_forall₂ hlies.lies.carries hi
    exact PackedNode.Carries.published_le hes
  · intro w hw p hp
    obtain ⟨i, hi⟩ := List.getElem?_of_mem hw
    have hflight := hflights i w hi
    rw [hp] at hflight
    obtain ⟨⟨v, p'⟩, hv, rfl⟩ := Option.map_eq_some_iff.mp hflight
    rw [← harray]
    exact inBounds_of_lies hlies hv

/-- The law that a packed array has grown by, if this is its account. No code reaches into the last
two bytes of a node, and all but a few of the others were taken when the next node came. -/
structure KeepsMargin (σ : Type) [SlabSource σ] (account : Account) (a : PackedArray) : Prop where
  growth_eq : a.growth = account.growth
  holds : ∃ parts, a.Holds parts ∧ parts.flatten.length = account.accepted
  shaped : a.Shaped account.growth
  published_eq : ∀ n ∈ a.chain.nodes.toList, n.published = n.cells.size
  sum_capacities_le : a.chain.capacities.sum ≤ a.byteSize + 6 * a.chain.closed.length +
    (a.chain.tail.capacity - a.chain.tail.cells.size)
  pushes : ∀ (s : Store σ) v, Pushes s a v (push v (s, a))
  passes : ∀ (s : Store σ) width, ∃ n, n ≤ 2 ∧
    Passes (reservePass width) n (s, a) (reserve width (s, a))
  /-- While writers race, the nodes have their margins all the time, nothing is published that is
  not reserved, and all that is still to be stored lies within the nodes. -/
  racing : ∀ (s : Store σ) (words : List (List UInt32)) (schedule : Schedule),
    let race := schedule.run Writer.watchedTurn (words.map fun todo => { todo })
      ((s, a), { cursor := a.chain.start })
    race.2.1.2.Shaped account.growth ∧
      (∀ n ∈ race.2.1.2.chain.nodes.toList, n.published ≤ n.cells.size) ∧
      ∀ w ∈ race.1, ∀ p, w.pending = some p → race.2.1.2.InBounds p

end PackedArray

section

variable [Element α]

namespace Account

theorem growth_push (values : List α) (s : Store σ) (h : Holding α) (account : Account) :
    (account.push values s h).growth = account.growth := by
  simp only [push]
  split <;> rfl

theorem accepted_push_typed (values : List α) (s : Store σ) (kind : Kind) (a : TypedArray α)
    (account : Account) :
    (account.push values s (.typed kind a)).accepted =
      account.accepted + (GrowArena.accepted TypedArray.push values (s, a)).length := by
  rw [length_accepted]
  simp only [push, Holding.pushAll, TypedArray.pushAll]
  cases pushEach TypedArray.push values (s, a) <;> rfl

theorem accepted_push_packed (values : List α) (s : Store σ) (a : PackedArray)
    (account : Account) :
    (account.push values s (.packed a)).accepted = account.accepted +
      (GrowArena.accepted PackedArray.push (values.map Element.toWord) (s, a)).length := by
  rw [length_accepted]
  simp only [push, Holding.pushAll, PackedArray.pushAll]
  cases pushEach PackedArray.push (values.map Element.toWord) (s, a) with
  | ok u state => exact congrArg (account.accepted + ·) (List.length_map _).symm
  | error refusal state => simp [Refusal.map]

end Account

namespace Holding

/-- The account is right about the array. -/
inductive Accounted : Holding α → Account → Prop
  | typed {kind : Kind} {a : TypedArray α} {account : Account} {parts : List (List α)}
      (hgrown : a.Grown kind.footprint account.growth) (hparts : a.Holds parts)
      (haccepted : parts.flatten.length = account.accepted)
      (hspent : ∀ spent, account.spent = some spent → spent = a.cost) :
      Accounted (.typed kind a) account
  | packed {a : PackedArray} {account : Account} {parts : List (List UInt32)}
      (hgrown : a.Grown account.growth) (hparts : a.Holds parts)
      (haccepted : parts.flatten.length = account.accepted) : Accounted (.packed a) account

theorem Accounted.push {h : Holding α} {account : Account} (hh : h.Accounted account)
    (values : List α) (s : Store σ) :
    (finalState (pushAll values (s, h))).2.Accounted (account.push values s h) := by
  cases hh with
  | @typed kind a _ parts hgrown hparts haccepted hspent =>
      obtain ⟨-, parts', hparts', -, hflat⟩ := TypedArray.pushAll_holds values (s := s) hparts
      rw [finalState_pushAll_typed]
      refine .typed ?_ hparts' ?_ ?_
      · rw [Account.growth_push]
        exact TypedArray.grown_pushAll values hgrown
      · rw [hflat, List.length_append, haccepted, Account.accepted_push_typed]
      · intro spent hafter
        simp only [Account.push, pushAll] at hafter
        cases hpush : TypedArray.pushAll values (s, a) with
        | error refusal state => simp [hpush] at hafter
        | ok u state =>
            obtain ⟨s', a'⟩ := state
            have hused := hgrown.used_of_pushAll hpush
            have hleads := (calls_pushEach TypedArray.calls_push values (s, a)).leads.used_le
            rw [← TypedArray.pushAll, hpush] at hleads
            simp only [hpush] at hafter
            obtain ⟨before, hbefore, rfl⟩ := Option.map_eq_some_iff.mp hafter
            have hcost := hspent before hbefore
            simp only [finalState] at hleads ⊢
            omega
  | @packed a _ parts hgrown hparts haccepted =>
      obtain ⟨-, parts', hparts', -, hflat⟩ :=
        PackedArray.pushAll_holds (values.map Element.toWord) (s := s) hparts
      rw [finalState_pushAll_packed]
      refine .packed ?_ hparts' ?_
      · rw [Account.growth_push]
        exact PackedArray.grown_pushAll _ hgrown
      · rw [hflat, List.length_append, haccepted, Account.accepted_push_packed]

theorem Accounted.race {h : Holding α} {account : Account} (hh : h.Accounted account)
    (values : List (List α)) (schedule : Schedule) (s : Store σ) :
    (racePush values schedule (s, h)).2.2.Accounted (account.race values schedule s h) := by
  cases hh with
  | @typed kind a _ parts hgrown hparts haccepted hspent =>
      obtain ⟨taken, parts', hparts', hflat, hcount⟩ := Race.racePush_rests
        TypedArray.kept_layout TypedArray.paced TypedArray.rests hparts s values schedule
      refine .typed ?_ hparts' ?_ fun spent hafter => nomatch hafter
      · exact TypedArray.grown_racing values _ (s, a) hgrown
      · rw [hflat, List.length_append, haccepted, Nat.eq_sub_of_add_eq hcount]
        rfl
  | @packed a _ parts hgrown hparts haccepted =>
      obtain ⟨taken, parts', hparts', hflat, hcount⟩ := Race.racePush_rests
        PackedArray.kept_layout PackedArray.paced PackedArray.rests hparts s
        (values.map (·.map Element.toWord)) schedule
      refine .packed ?_ hparts' ?_
      · exact PackedArray.grown_racing _ _ (s, a) hgrown
      · rw [hflat, List.length_append, haccepted, Nat.eq_sub_of_add_eq hcount]
        simp [Account.race, racePush, Refusal.map, List.length_flatten, Function.comp_def]

theorem upholds_accounted : Account.Upholds σ (Accounted (α := α)) where
  makeTyped {kind growth s s' a} hcreate := by
    have hcost := TypedArray.used_eq_of_create hcreate
    obtain rfl := TypedArray.eq_made_of_create hcreate
    refine .typed (TypedArray.grown_made ..) (TypedArray.holds_made ..) rfl fun spent hspent => ?_
    obtain rfl := Option.some.inj hspent
    omega
  makePacked hcreate := by
    obtain rfl := PackedArray.eq_made_of_create hcreate
    exact .packed (PackedArray.grown_made _) (PackedArray.holds_made _) rfl
  push values s hh := hh.push values s
  race values schedule s hh := hh.race values schedule s

end Holding

theorem accounted_run (blockSize : Nat) (source : σ) (jobs : List (Job α)) :
    let w : Workspace σ α := .ofArena (.ofBlockSize blockSize) source
    Table.Related Holding.Accounted (w.run jobs).2.arrays (Accounts.afterAll [] jobs w) :=
  Accounts.related_afterAll Holding.upholds_accounted jobs .nil

/-- In every state that jobs lead to, every typed array has grown no further than the values that it
has accepted needed, and what it has used of the arena is what its nodes cost. -/
theorem typed_arrays_grow_lazily (blockSize : Nat) (source : σ) (jobs : List (Job α)) :
    let w : Workspace σ α := .ofArena (.ofBlockSize blockSize) source
    Table.Related
      (fun h account => ∀ kind a, h = .typed kind a → a.GrowsLazily σ kind.footprint account)
      (w.run jobs).2.arrays (Accounts.afterAll [] jobs w) := by
  intro w
  refine (accounted_run blockSize source jobs).imp ?_
  rintro h account haccounted kind a rfl
  cases haccounted with
  | typed hgrown hparts haccepted hspent =>
      exact {
        footprint_eq := hgrown.footprint_eq
        growth_eq := hgrown.growth_eq
        claimed_eq := hparts.claimed_eq.trans haccepted
        published_eq := fun n hn => hparts.published_eq hn
        shaped := hgrown.shaped
        cost_eq := hspent
        pushes := hgrown.pushes hparts
        passes := fun s => TypedArray.passes_claim (s, a)
        racing := fun s values schedule =>
          have hraced := (TypedArray.grown_racing values schedule (s, a) hgrown).shaped
          ⟨hraced.capacities_eq, hraced.full⟩ }

example :
    let jobs : List (Job Value) :=
      [.command (.makeTyped "a" .half .standard),
        .command (.push "a" [.natural 1, .natural 2, .natural 3])]
    let w : Workspace LinearHeap Value := .ofArena (.ofBlockSize 64) {}
    (w.run jobs).2.arrays.map (·.2.capacities) = [[1, 1, 1]] ∧
      Accounts.afterAll [] jobs w =
        [("a", { growth := .standard, accepted := 3, spent := some 153 })] := by
  decide +kernel

/-- In every state that jobs lead to, and at every turn of a race of writers from there, the nodes
of every packed array are left with little more than the margin that no code goes beyond. -/
theorem packed_arrays_keep_margin (blockSize : Nat) (source : σ) (jobs : List (Job α)) :
    let w : Workspace σ α := .ofArena (.ofBlockSize blockSize) source
    Table.Related (fun h account => ∀ a, h = .packed a → a.KeepsMargin σ account)
      (w.run jobs).2.arrays (Accounts.afterAll [] jobs w) := by
  intro w
  refine (accounted_run blockSize source jobs).imp ?_
  rintro h account haccounted a rfl
  cases haccounted with
  | @packed _ _ parts hgrown hparts haccepted =>
      have hpublished := fun n hn => hparts.published_eq (n := n) hn
      exact {
        growth_eq := hgrown.growth_eq
        holds := ⟨parts, hparts, haccepted⟩
        shaped := hgrown.shaped
        published_eq := hpublished
        sum_capacities_le := hgrown.sum_capacities_le hpublished
        pushes := fun s v => PackedArray.pushes s a v
        passes := fun s width => PackedArray.passes_reserve width (s, a)
        racing := hgrown.bounded_race hparts }

end

end GrowArena

import GrowArena.Proofs.Chain.Contents
import GrowArena.Race.Push
import Mathlib.Data.List.TakeWhile
import Mathlib.Logic.Function.Basic

/-!
Pushes in flight. Any number of threads push onto one array: a thread claims a place, and then
completes its push step by step, while others do the same. A board has the claims of all nodes in
the order in which they were made, and says of each how far the push has come. If every single step
keeps a node in line with its claims, every race does.
-/

namespace GrowArena

variable {σ β ν α π : Type}

/-- Threads that push onto one array. -/
structure Race (σ β : Type) {ν α : Type} [Staged β ν α] where
  store : Store σ
  array : β
  /-- The value that a thread is pushing, with what is pending of the push. -/
  flights : Nat → Option (α × Staged.Pending β) := fun _ => none
  /-- The claims so far, oldest first: the thread and the value. -/
  claims : List (Nat × α) := []

inductive Move (σ α : Type) where
  /-- The thread begins to push a value, unless it is pushing already. -/
  | claim (thread : Nat) (value : α)
  /-- The thread takes the next step of its push, if it is pushing. -/
  | proceed (thread : Nat)
  /-- Something happens to the store, but not to the array. -/
  | elsewhere (store : Store σ)

def Move.thread? : Move σ α → Option Nat
  | .claim thread _ | .proceed thread => some thread
  | .elsewhere _ => none

namespace Race

variable [Staged β ν α] [SlabSource σ]

def step (r : Race σ β) : Move σ α → Race σ β
  | .claim thread value =>
      match r.flights thread with
      | some _ => r
      | none =>
          match Staged.claim value (r.store, r.array) with
          | .ok pending (store, array) =>
              { store, array
                flights := Function.update r.flights thread (some (value, pending))
                claims := r.claims ++ [(thread, value)] }
          | .error _ (store, array) => { r with store, array }
  | .proceed thread =>
      match r.flights thread with
      | none => r
      | some (value, pending) =>
          let (rest, array) := Staged.proceed pending r.array
          { r with array, flights := Function.update r.flights thread (rest.map (value, ·)) }
  | .elsewhere store => { r with store }

def run (moves : List (Move σ α)) (r : Race σ β) : Race σ β := moves.foldl step r

/-- Nothing is in flight. -/
def Settled (r : Race σ β) : Prop := ∀ thread, r.flights thread = none

end Race

/-- A push that has claimed its place. -/
structure Entry (α π : Type) where
  thread : Nat
  value : α
  /-- What is pending of the push, nothing once it is complete. -/
  pending : Option π

namespace Entry

def landed (e : Entry α π) : Bool := e.pending.isNone

def claim (e : Entry α π) : Nat × α := (e.thread, e.value)

theorem map_value_set {es : List (Entry α π)} {j : Nat} {e : Entry α π} (he : es[j]? = some e)
    (q : Option π) : (es.set j { e with pending := q }).map value = es.map value := by
  obtain ⟨hj, rfl⟩ := List.getElem?_eq_some_iff.mp he
  have hj' : j < (es.map value).length := by simpa using hj
  have hself : (es.map value).set j (es.map value)[j] = es.map value := List.set_getElem_self hj'
  rw [List.getElem_map] at hself
  rw [List.map_set, hself]

end Entry

/-- The pushes whose claims fell to each node, in the order of the claims. -/
abbrev Board (α π : Type) := List (List (Entry α π))

namespace Board

/-- The pushes of a thread that are in flight. -/
def flying (board : Board α π) (thread : Nat) : List (Entry α π) :=
  board.flatten.filter fun e => e.thread == thread && !e.landed

/-- The values of the longest run of complete pushes. -/
def front (es : List (Entry α π)) : List α := (es.takeWhile Entry.landed).map Entry.value

def fronts (board : Board α π) : List (List α) := board.map front

theorem front_cons_of_landed {e : Entry α π} {es : List (Entry α π)} (he : e.landed = true) :
    front (e :: es) = e.value :: front es := by
  simp [front, he]

theorem front_cons_of_open {e : Entry α π} {es : List (Entry α π)} (he : e.landed = false) :
    front (e :: es) = [] := by
  simp [front, he]

theorem front_append {es : List (Entry α π)} {e : Entry α π} (he : e.landed = false) :
    front (es ++ [e]) = front es := by
  induction es with
  | nil => exact front_cons_of_open he
  | cons d es ih =>
      cases hd : d.landed with
      | true => rw [List.cons_append, front_cons_of_landed hd, front_cons_of_landed hd, ih]
      | false => rw [List.cons_append, front_cons_of_open hd, front_cons_of_open hd]

theorem front_prefix_set {es : List (Entry α π)} {j : Nat} {e d : Entry α π}
    (he : es[j]? = some e) (hopen : e.landed = false) : front es <+: front (es.set j d) := by
  induction es generalizing j with
  | nil => exact List.prefix_refl _
  | cons c es ih =>
      cases hc : c.landed with
      | false =>
          rw [front_cons_of_open hc]
          exact List.nil_prefix
      | true =>
          cases j with
          | zero =>
              obtain rfl : c = e := by simpa using he
              rw [hc] at hopen
              cases hopen
          | succ j =>
              rw [List.set_cons_succ, front_cons_of_landed hc, front_cons_of_landed hc,
                List.cons_prefix_cons]
              exact ⟨rfl, ih (by simpa using he)⟩

theorem front_set {es : List (Entry α π)} {j : Nat} {e d : Entry α π} (he : es[j]? = some e)
    (hopen : e.landed = false) (hd : d.landed = false) : front (es.set j d) = front es := by
  induction es generalizing j with
  | nil => rfl
  | cons c es ih =>
      cases j with
      | zero =>
          obtain rfl : c = e := by simpa using he
          rw [List.set_cons_zero, front_cons_of_open hd, front_cons_of_open hopen]
      | succ j =>
          have hrest := ih (j := j) (by simpa using he)
          cases hc : c.landed with
          | true =>
              rw [List.set_cons_succ, front_cons_of_landed hc, front_cons_of_landed hc, hrest]
          | false => rw [List.set_cons_succ, front_cons_of_open hc, front_cons_of_open hc]

theorem exists_of_mem_flatten {board : Board α π} {e : Entry α π} (h : e ∈ board.flatten) :
    ∃ (i j : Nat) (es : List (Entry α π)), board[i]? = some es ∧ es[j]? = some e := by
  obtain ⟨es, hes, he⟩ := List.mem_flatten.mp h
  obtain ⟨i, hi⟩ := List.getElem?_of_mem hes
  obtain ⟨j, hj⟩ := List.getElem?_of_mem he
  exact ⟨i, j, es, hi, hj⟩

/-- All claims of a board with one among them, and with another in its place. -/
theorem exists_flatten_set {board : Board α π} {i j : Nat} {es : List (Entry α π)}
    {e : Entry α π} (hes : board[i]? = some es) (he : es[j]? = some e) :
    ∃ before after, board.flatten = before ++ e :: after ∧
      ∀ e', (board.set i (es.set j e')).flatten = before ++ e' :: after := by
  obtain ⟨hi, rfl⟩ := List.getElem?_eq_some_iff.mp hes
  obtain ⟨hj, rfl⟩ := List.getElem?_eq_some_iff.mp he
  have hset : ∀ e', (board.set i (board[i].set j e')).flatten =
      ((board.take i).flatten ++ board[i].take j) ++
        e' :: (board[i].drop (j + 1) ++ (board.drop (i + 1)).flatten) := by
    intro e'
    rw [List.set_eq_take_append_cons_drop, if_pos hi, List.set_eq_take_append_cons_drop, if_pos hj]
    simp
  have hself := hset board[i][j]
  rw [List.set_getElem_self, List.set_getElem_self] at hself
  exact ⟨_, _, hself, hset⟩

/-- If one place alone passes a test, any other thing in that place is tested alone. -/
theorem filter_replaced {γ : Type} {p : γ → Bool} {before after : List γ} {x : γ} (hx : p x = true)
    (h : (before ++ x :: after).filter p = [x]) (y : γ) :
    (before ++ y :: after).filter p = [y].filter p := by
  have hlength := congrArg List.length h
  simp only [List.filter_append, List.filter_cons, hx, if_true, List.length_append,
    List.length_cons, List.length_nil] at hlength
  have hbefore : before.filter p = [] := List.eq_nil_of_length_eq_zero (by omega)
  have hafter : after.filter p = [] := List.eq_nil_of_length_eq_zero (by omega)
  rw [List.filter_append, hbefore, List.nil_append, List.filter_cons, List.filter_cons, hafter]
  rfl

theorem fronts_sublist (board : Board α π) :
    board.fronts.flatten.Sublist (board.flatten.map Entry.value) := by
  induction board with
  | nil => exact List.Sublist.refl _
  | cons es board ih =>
      rw [fronts, List.map_cons, List.flatten_cons, List.flatten_cons, List.map_append]
      exact ((List.takeWhile_sublist _).map _).append ih

theorem fronts_of_landed {board : Board α π} (h : ∀ e ∈ board.flatten, e.landed = true) :
    board.fronts.flatten = board.flatten.map Entry.value := by
  induction board with
  | nil => rfl
  | cons es board ih =>
      simp only [List.flatten_cons, List.mem_append] at h
      have hes : front es = es.map Entry.value := by
        rw [front, List.takeWhile_eq_self_iff.mpr fun e he => h e (.inl he)]
      rw [fronts, List.map_cons, List.flatten_cons, List.flatten_cons, List.map_append, hes]
      exact congrArg _ (ih fun e he => h e (.inr he))

end Board

/-- How the pushes of a board lie in the nodes of an array. -/
structure Layout (ν α π : Type) where
  /-- The node is in line with its claims. -/
  Carries : ν → List (Entry α π) → Prop
  /-- What is pending of a push of a value goes with its node and the values claimed there before
  it. -/
  Fits : Nat → List α → α → π → Prop

/-- The nodes are in line with the board. -/
structure Chain.Lies (L : Layout ν α π) (c : Chain ν) (board : Board α π) : Prop where
  carries : List.Forall₂ L.Carries c.nodes.toList board
  fits : ∀ (i j : Nat) es e p, board[i]? = some es → es[j]? = some e → e.pending = some p →
    L.Fits i ((es.map Entry.value).take j) e.value p

namespace Chain

variable {L : Layout ν α π} {c : Chain ν} {board : Board α π}

theorem Lies.append (h : c.Lies L board) {node : ν} (hnode : L.Carries node []) :
    (c.append node).Lies L (board ++ [[]]) where
  carries := by
    rw [toList_append]
    exact forall₂_concat h.carries hnode
  fits i j es e p hes he hp := by
    by_cases hi : i < board.length
    · rw [List.getElem?_append_left hi] at hes
      exact h.fits i j es e p hes he hp
    · obtain ⟨-, rfl⟩ : i - board.length = 0 ∧ [] = es := by
        rw [List.getElem?_append_right (Nat.le_of_not_lt hi)] at hes
        simpa [List.getElem?_singleton] using hes
      simp at he

theorem lies_singleton {node : ν} (hnode : L.Carries node []) : (singleton node).Lies L [[]] where
  carries := .cons hnode .nil
  fits i j es e p hes he := by
    obtain rfl : es = [] := by
      cases i with
      | zero => simpa using hes.symm
      | succ i => simp at hes
    simp at he

variable [Segment ν α]

theorem Lies.shows (h : c.Lies L board)
    (hshows : ∀ node es, L.Carries node es → Segment.Shows node (Board.front es)) :
    c.Shows board.fronts := by
  rw [Shows, Board.fronts, List.forall₂_map_right_iff]
  exact h.carries.imp hshows

theorem Lies.add (h : c.Lies L board) {f : ν → ν} {e : Entry α π}
    (hf : ∀ es, L.Carries c.tail es →
      L.Carries (f c.tail) (es ++ [e]) ∧ Segment.Extends c.tail (f c.tail) ∧
        ∀ p, e.pending = some p → L.Fits c.last (es.map Entry.value) e.value p) :
    c.Extends (c.modify c.last f) ∧ ∃ board', (c.modify c.last f).Lies L board' ∧
      board'.flatten = board.flatten ++ [e] := by
  have hcarries := h.carries
  rw [toList_eq] at hcarries
  obtain ⟨closed, es, hclosed, htail, rfl⟩ := forall₂_concat_left_iff.mp hcarries
  obtain ⟨hcarry, hext, hfits⟩ := hf es htail
  have hlast : c.last = closed.length := by rw [last_eq_length_closed, hclosed.length_eq]
  refine ⟨extends_modify_last c hext, closed ++ [es ++ [e]], ⟨?_, ?_⟩, by simp⟩
  · rw [toList_modify_last]
    exact forall₂_concat hclosed hcarry
  · intro i j fs d p hfs hd hp
    by_cases hi : i < closed.length
    · rw [List.getElem?_append_left hi] at hfs
      exact h.fits i j fs d p (by rw [List.getElem?_append_left hi, hfs]) hd hp
    · obtain ⟨hi', rfl⟩ : i - closed.length = 0 ∧ es ++ [e] = fs := by
        rw [List.getElem?_append_right (Nat.le_of_not_lt hi)] at hfs
        simpa [List.getElem?_singleton] using hfs
      obtain rfl : i = closed.length := by omega
      by_cases hj : j < es.length
      · rw [List.getElem?_append_left hj] at hd
        have hold := h.fits closed.length j es d p (by simp) hd hp
        rwa [List.map_append, List.take_append_of_le_length (by simpa using Nat.le_of_lt hj)]
      · obtain ⟨hj', rfl⟩ : j - es.length = 0 ∧ e = d := by
          rw [List.getElem?_append_right (Nat.le_of_not_lt hj)] at hd
          simpa [List.getElem?_singleton] using hd
        obtain rfl : j = es.length := by omega
        have hnew := hfits p hp
        rw [hlast] at hnew
        simpa using hnew

theorem Lies.change (h : c.Lies L board) {i j : Nat} {es : List (Entry α π)} {e : Entry α π}
    {q : Option π} {f : ν → ν} (hes : board[i]? = some es) (he : es[j]? = some e)
    (hf : ∀ node, L.Carries node es →
      L.Carries (f node) (es.set j { e with pending := q }) ∧ Segment.Extends node (f node))
    (hq : ∀ p, q = some p → L.Fits i ((es.map Entry.value).take j) e.value p) :
    c.Extends (c.modify i f) ∧
      (c.modify i f).Lies L (board.set i (es.set j { e with pending := q })) := by
  refine ⟨?_, ?_, ?_⟩
  · apply extends_modify
    intro node hnode
    obtain ⟨fs, hfs, hcarries⟩ := exists_of_forall₂ h.carries (by simpa using hnode)
    obtain rfl : es = fs := Option.some.inj (hes.symm.trans hfs)
    exact (hf node hcarries).2
  · rw [modify, Array.toList_modify]
    exact forall₂_modify_set h.carries hes fun node hnode => (hf node hnode).1
  · intro k l fs d p hfs hd hp
    by_cases hk : i = k
    · subst hk
      obtain rfl : es.set j { e with pending := q } = fs := by
        obtain ⟨hi, -⟩ := List.getElem?_eq_some_iff.mp hes
        simpa [List.getElem?_set, hi] using hfs
      rw [Entry.map_value_set he]
      by_cases hl : j = l
      · subst hl
        obtain rfl : { e with pending := q } = d := by
          obtain ⟨hj, -⟩ := List.getElem?_eq_some_iff.mp he
          simpa [List.getElem?_set, hj] using hd
        exact hq p hp
      · rw [List.getElem?_set_ne hl] at hd
        exact h.fits i l es d p hes hd hp
    · rw [List.getElem?_set_ne hk] at hfs
      exact h.fits k l fs d p hfs hd hp

end Chain

variable [Staged β ν α]

namespace Race

/-- The board has all claims in their order, those in flight as the threads have them, and the array
is in line with it. -/
structure Lies (L : Layout ν α (Staged.Pending β)) (r : Race σ β)
    (board : Board α (Staged.Pending β)) : Prop where
  lies : (Staged.chain r.array).Lies L board
  claims_eq : board.flatten.map Entry.claim = r.claims
  flying_eq : ∀ thread, board.flying thread =
    (r.flights thread).toList.map fun f => ⟨thread, f.1, some f.2⟩

variable {L : Layout ν α (Staged.Pending β)} {r : Race σ β} {board : Board α (Staged.Pending β)}

theorem Lies.landed_of_settled (h : r.Lies L board) (hsettled : r.Settled) :
    ∀ e ∈ board.flatten, e.landed = true := by
  intro e he
  by_contra hflying
  have hmem : e ∈ board.flying e.thread := by
    simp only [Board.flying, List.mem_filter]
    exact ⟨he, by simpa using hflying⟩
  rw [h.flying_eq, hsettled] at hmem
  simp at hmem

theorem Lies.mem_of_flight (h : r.Lies L board) {thread : Nat} {v : α} {p : Staged.Pending β}
    (hflight : r.flights thread = some (v, p)) : ⟨thread, v, some p⟩ ∈ board.flatten := by
  have hflying := h.flying_eq thread
  rw [hflight] at hflying
  apply List.mem_of_mem_filter
  rw [Board.flying] at hflying
  rw [hflying]
  simp

theorem Lies.map_value (h : r.Lies L board) :
    board.flatten.map Entry.value = r.claims.map Prod.snd := by
  rw [← h.claims_eq, List.map_map]
  rfl

/-- When nothing is in flight, the fronts have all claimed values in the order of the claims. -/
theorem Lies.fronts_of_settled (h : r.Lies L board) (hsettled : r.Settled) :
    board.fronts.flatten = r.claims.map Prod.snd := by
  rw [Board.fronts_of_landed (h.landed_of_settled hsettled), h.map_value]

theorem Lies.claimed (h : r.Lies L board) {thread : Nat} {v : α} {p : Staged.Pending β}
    {s : Store σ} {a : β} {board' : Board α (Staged.Pending β)} (hidle : r.flights thread = none)
    (hlies : (Staged.chain a).Lies L board')
    (hflat : board'.flatten = board.flatten ++ [⟨thread, v, some p⟩]) :
    Lies L { store := s, array := a,
             flights := Function.update r.flights thread (some (v, p)),
             claims := r.claims ++ [(thread, v)] } board' where
  lies := hlies
  claims_eq := by
    rw [hflat, List.map_append, h.claims_eq]
    rfl
  flying_eq other := by
    have hold := h.flying_eq other
    simp only [Board.flying] at hold ⊢
    rw [hflat, List.filter_append, hold]
    by_cases hother : other = thread
    · subst hother
      simp [hidle, Entry.landed]
    · simp [Function.update_of_ne hother, Entry.landed, Ne.symm hother]

theorem Lies.proceeded (h : r.Lies L board) {thread i j : Nat} {v : α} {p : Staged.Pending β}
    {q : Option (Staged.Pending β)} {a : β} {es : List (Entry α (Staged.Pending β))}
    (hflight : r.flights thread = some (v, p)) (hes : board[i]? = some es)
    (he : es[j]? = some ⟨thread, v, some p⟩)
    (hlies : (Staged.chain a).Lies L (board.set i (es.set j ⟨thread, v, q⟩))) :
    Lies L { r with array := a, flights := Function.update r.flights thread (q.map (v, ·)) }
      (board.set i (es.set j ⟨thread, v, q⟩)) := by
  obtain ⟨before, after, hflat, hset⟩ := Board.exists_flatten_set hes he
  refine ⟨hlies, ?_, ?_⟩
  · rw [← h.claims_eq, hset, hflat]
    simp [Entry.claim]
  · intro other
    have hold := h.flying_eq other
    simp only [Board.flying] at hold ⊢
    rw [hset]
    rw [hflat] at hold
    by_cases hother : other = thread
    · subst hother
      rw [hflight] at hold
      have hnew := Board.filter_replaced (by simp [Entry.landed]) hold ⟨other, v, q⟩
      rw [hnew]
      cases q <;> simp [Entry.landed]
    · simpa [Function.update_of_ne hother, Ne.symm hother] using hold

end Race

variable [Segment ν α] [SlabSource σ]

/-- Nodes show the longest runs of complete pushes. A claim puts its push behind those of the board
or fails without a trace, a step of a push changes nothing else on the board, and neither disturbs
readers. -/
structure Layout.Kept (σ β : Type) {ν α : Type} [Staged β ν α] [Segment ν α] [SlabSource σ]
    (L : Layout ν α (Staged.Pending β)) : Prop where
  shows : ∀ node es, L.Carries node es → Segment.Shows node (Board.front es)
  claim_ok : ∀ {s s' : Store σ} {a a' : β} {board : Board α (Staged.Pending β)} {v : α}
    {p : Staged.Pending β} (thread : Nat), (Staged.chain a).Lies L board →
      Staged.claim v (s, a) = .ok p (s', a') →
        (Staged.chain a).Extends (Staged.chain a') ∧ ∃ board', (Staged.chain a').Lies L board' ∧
          board'.flatten = board.flatten ++ [⟨thread, v, some p⟩]
  claim_error : ∀ {s s' : Store σ} {a a' : β} {board : Board α (Staged.Pending β)} {v : α}
    {fault : Fault}, (Staged.chain a).Lies L board →
      Staged.claim v (s, a) = .error fault (s', a') → a' = a
  proceed : ∀ {a : β} {board : Board α (Staged.Pending β)} {i j : Nat}
    {es : List (Entry α (Staged.Pending β))} {e : Entry α (Staged.Pending β)}
    {p : Staged.Pending β}, (Staged.chain a).Lies L board → board[i]? = some es →
      es[j]? = some e → e.pending = some p →
        (Staged.chain a).Extends (Staged.chain (Staged.proceed p a).2) ∧
          (Staged.chain (Staged.proceed p a).2).Lies L
            (board.set i (es.set j { e with pending := (Staged.proceed p a).1 }))

namespace Race

variable {L : Layout ν α (Staged.Pending β)} {r : Race σ β} {board : Board α (Staged.Pending β)}

theorem lies_step (hL : L.Kept σ β) (h : r.Lies L board) (move : Move σ α) :
    (Staged.chain r.array).Extends (Staged.chain (r.step move).array) ∧
      ∃ board', (r.step move).Lies L board' := by
  cases move with
  | elsewhere store => exact ⟨.refl _, board, h.lies, h.claims_eq, h.flying_eq⟩
  | claim thread v =>
      cases hidle : r.flights thread with
      | some flight =>
          simp only [step, hidle]
          exact ⟨.refl _, board, h⟩
      | none =>
          simp only [step, hidle]
          cases hclaim : Staged.claim v (r.store, r.array) with
          | ok p state =>
              obtain ⟨hext, board', hlies, hflat⟩ := hL.claim_ok thread h.lies hclaim
              exact ⟨hext, board', h.claimed hidle hlies hflat⟩
          | error fault state =>
              obtain ⟨s, a⟩ := state
              obtain rfl : a = r.array := hL.claim_error h.lies hclaim
              exact ⟨.refl _, board, h.lies, h.claims_eq, h.flying_eq⟩
  | proceed thread =>
      cases hflight : r.flights thread with
      | none =>
          simp only [step, hflight]
          exact ⟨.refl _, board, h⟩
      | some flight =>
          obtain ⟨v, p⟩ := flight
          simp only [step, hflight]
          obtain ⟨i, j, es, hes, he⟩ := Board.exists_of_mem_flatten (h.mem_of_flight hflight)
          obtain ⟨hext, hlies⟩ := hL.proceed h.lies hes he rfl
          exact ⟨hext, _, h.proceeded hflight hes he hlies⟩

omit [Segment ν α] in
theorem flights_step_of_ne (r : Race σ β) {move : Move σ α} {thread : Nat}
    (h : move.thread? ≠ some thread) : (r.step move).flights thread = r.flights thread := by
  cases move with
  | elsewhere store => rfl
  | claim other v =>
      have hne : thread ≠ other := fun heq => h (congrArg some heq.symm)
      simp only [step]
      cases r.flights other with
      | some flight => rfl
      | none =>
          cases Staged.claim v (r.store, r.array) with
          | ok p state => exact Function.update_of_ne hne ..
          | error fault state => rfl
  | proceed other =>
      have hne : thread ≠ other := fun heq => h (congrArg some heq.symm)
      simp only [step]
      cases r.flights other with
      | none => rfl
      | some flight => exact Function.update_of_ne hne ..

omit [Segment ν α] in
/-- A thread that makes no move has in flight what it had. -/
theorem flights_run_of_ne (moves : List (Move σ α)) {thread : Nat}
    (h : ∀ move ∈ moves, move.thread? ≠ some thread) (r : Race σ β) :
    (r.run moves).flights thread = r.flights thread := by
  induction moves generalizing r with
  | nil => rfl
  | cons move moves ih =>
      have hrest := ih (fun m hm => h m (List.mem_cons_of_mem _ hm)) (r.step move)
      exact hrest.trans (flights_step_of_ne r (h move List.mem_cons_self))

omit [Segment ν α] in
/-- Only threads that make moves need to be asked whether they are done. -/
theorem settled_run (moves : List (Move σ α)) {r : Race σ β} (hr : r.Settled) (n : Nat)
    (hmoves : ∀ move ∈ moves, ∀ thread, move.thread? = some thread → thread < n)
    (hdone : ∀ thread, thread < n → ((r.run moves).flights thread).isNone = true) :
    (r.run moves).Settled := by
  intro thread
  by_cases hthread : thread < n
  · simpa using hdone thread hthread
  · rw [flights_run_of_ne moves _ r, hr]
    intro move hmove heq
    exact hthread (hmoves move hmove thread heq)

/-- Whatever the threads do, the array stays in line with the claims, and readers lose nothing. -/
theorem lies_run (hL : L.Kept σ β) (moves : List (Move σ α)) (h : r.Lies L board) :
    (Staged.chain r.array).Extends (Staged.chain (run moves r).array) ∧
      ∃ board', (run moves r).Lies L board' := by
  induction moves generalizing r board with
  | nil => exact ⟨.refl _, board, h⟩
  | cons move moves ih =>
      obtain ⟨hext, board', hstep⟩ := lies_step hL h move
      obtain ⟨hext', hrun⟩ := ih hstep
      exact ⟨hext.trans hext', hrun⟩

end Race

end GrowArena

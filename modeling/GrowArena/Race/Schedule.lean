/-!
Taking turns. Participants act on what they share one step at a time, in the order that a schedule
gives, so that between two steps of one of them any others may act.
-/

namespace GrowArena

/-- Whose turn it is, turn after turn. Participants go by their places in a list. -/
abbrev Schedule := List Nat

namespace Schedule

/-- The participant in the first place has all its turns, then the one in the second, and so on. -/
def inOrder (turns : List Nat) : Schedule :=
  turns.zipIdx.flatMap fun (count, place) => List.replicate count place

variable {ρ σ : Type}

/-- Gives the participants their turns. A turn of nobody passes. -/
def run (act : ρ → σ → ρ × σ) : Schedule → List ρ → σ → List ρ × σ
  | [], participants, shared => (participants, shared)
  | place :: rest, participants, shared =>
      match participants[place]? with
      | none => run act rest participants shared
      | some participant =>
          let (participant, shared) := act participant shared
          run act rest (participants.set place participant) shared

end Schedule

end GrowArena

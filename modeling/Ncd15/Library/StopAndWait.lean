import Mathlib.Data.List.Basic
import Mathlib.Data.Set.Insert
import Mathlib.Logic.Relation

/-!
# Stop and wait

A sender puts numbered blocks on the wire, one after the acknowledgement of the
one before; a receiver takes the block that comes next and acknowledges what it
has taken.  Whatever has been put on the wire may arrive at any later moment, any
number of times or not at all, so that loss, duplication, delay and reordering
are all there.
-/

namespace Ncd15.Library

/-- The sender has put the blocks up to `sent` on the wire, the receiver has taken
those in `accepted`. -/
structure StopAndWait (β : Type) where
  sent : Nat
  accepted : List β
  onWire : Set (Nat × β)
  acked : Set Nat

namespace StopAndWait

variable {β : Type} (source : Nat → β)

def start : StopAndWait β := ⟨0, [], ∅, ∅⟩

/-- The block numbered `sent + 1` goes on the wire. -/
def advance (s : StopAndWait β) : StopAndWait β :=
  { s with
    sent := s.sent + 1
    onWire := insert (s.sent + 1, source (s.sent + 1)) s.onWire }

/-- One step of the sender or the receiver. -/
inductive Step : StopAndWait β → StopAndWait β → Prop
  | ack {s : StopAndWait β} {m : Nat} (taken : m ≤ s.accepted.length) :
      Step s { s with acked := insert m s.acked }
  | accept {s : StopAndWait β} {b : β} (arrived : (s.accepted.length + 1, b) ∈ s.onWire) :
      Step s { s with accepted := s.accepted ++ [b] }
  | advance {s : StopAndWait β} (arrived : s.sent ∈ s.acked) : Step s (s.advance source)

/-- The states of a transfer. -/
def Reached (s : StopAndWait β) : Prop := Relation.ReflTransGen (Step source) start s

/-- What relates the two sides and the wire. -/
structure Safe (s : StopAndWait β) : Prop where
  wire : ∀ m b, (m, b) ∈ s.onWire → 1 ≤ m ∧ m ≤ s.sent ∧ b = source m
  acks : ∀ m ∈ s.acked, m ≤ s.accepted.length
  accepted : s.accepted = (List.range s.accepted.length).map fun i => source (i + 1)
  behind : s.accepted.length ≤ s.sent
  ahead : s.sent ≤ s.accepted.length + 1

variable {source} {s s' : StopAndWait β}

theorem safe_start : Safe source (start : StopAndWait β) where
  wire := by simp [start]
  acks := by simp [start]
  accepted := rfl
  behind := Nat.le_refl 0
  ahead := Nat.zero_le 1

theorem Safe.step (safe : Safe source s) (step : Step source s s') : Safe source s' := by
  cases step with
  | @ack m taken =>
      refine { safe with acks := ?_ }
      intro n member
      rcases Set.mem_insert_iff.mp member with rfl | earlier
      · exact taken
      · exact safe.acks n earlier
  | @accept b arrived =>
      obtain ⟨-, sent, same⟩ := safe.wire _ _ arrived
      have length : (s.accepted ++ [b]).length = s.accepted.length + 1 := by simp
      refine ⟨safe.wire, ?_, ?_, ?_, ?_⟩
      · intro m member
        have earlier := safe.acks m member
        simp only [length]
        omega
      · simp only [length]
        rw [List.range_succ, List.map_append, ← safe.accepted, same]
        rfl
      · simp only [length]
        exact sent
      · have ahead := safe.ahead
        simp only [length]
        omega
  | advance arrived =>
      have taken := safe.acks _ arrived
      refine ⟨?_, safe.acks, safe.accepted, ?_, ?_⟩
      · intro m b member
        rcases Set.mem_insert_iff.mp member with new | earlier
        · obtain ⟨rfl, rfl⟩ := Prod.mk.inj new
          exact ⟨Nat.le_add_left 1 _, Nat.le_refl _, rfl⟩
        · obtain ⟨first, sent, same⟩ := safe.wire m b earlier
          exact ⟨first, Nat.le_succ_of_le sent, same⟩
      · exact Nat.le_succ_of_le safe.behind
      · exact Nat.succ_le_succ taken

/-- Every state of a transfer is safe. -/
theorem safe_of_reached (reached : Reached source s) : Safe source s := by
  induction reached with
  | refl => exact safe_start
  | tail _ step ih => exact ih.step step

theorem Reached.step (reached : Reached source s) (step : Step source s s') : Reached source s' :=
  reached.tail step

end StopAndWait

end Ncd15.Library

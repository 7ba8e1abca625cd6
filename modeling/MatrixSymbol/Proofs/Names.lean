/-
Names of character sets (`toZXingCharacterSet`, section 3.6 of the specification).

A name is looked up in small letters, in a table that lists the names of the character sets, and
that finds two more words because every table does.

* `CharacterSet.isPlainWord_of_mem_table`: the words of the table are plain, so that a name finds
  one of them exactly if it spells it;
* `CharacterSet.find?_eq_some_iff`, `CharacterSet.isSome_iff_listed_iff`: what a name finds is what
  the table holds for it, and but for two words the table holds what it lists;
* `CharacterSet.get?_characterSet`, `CharacterSet.hint?_eq_some_iff`: a request shows it, and what
  it then shows;
* `CharacterSet.listed_or_inherited`: a name finds a character set that is listed, unless it is one
  of the two words; and so does a request;
* `CharacterSet.unlisted_found`: the two words are found although they are not listed.
-/
import MatrixSymbol.Proofs.Letters
import MatrixSymbol.Proofs.Requests

namespace MatrixSymbol

namespace CharacterSet

/-! ### The table -/

/-- The words of the table are plain. -/
lemma isPlainWord_of_mem_table : ∀ word ∈ table.map Prod.fst, Text.IsPlainWord word := by
  decide +kernel

/-- The table holds one thing for each word. -/
lemma lookup_table : ∀ f ∈ table, table.lookup f.1 = some f.2 := by
  decide

/-- What a name finds is what the table holds for its small letters. -/
lemma find?_eq_some_iff_mem {name : String} {entry : Entry} :
    find? name = some entry ↔ (Text.lowercase name, entry) ∈ table := by
  constructor
  · intro h
    obtain ⟨front, rest, htable, -⟩ := List.lookup_eq_some_iff.mp h
    rw [htable]
    exact List.mem_append_right front List.mem_cons_self
  · intro h
    exact lookup_table _ h

/-- **What a name finds**: a character set that is listed for its small letters, or one of the two
things that every table holds. -/
theorem find?_eq_some_iff {name : String} {entry : Entry} : find? name = some entry
    ↔ (∃ f ∈ names, Text.lowercase name = f.1 ∧ entry = .listed f.2)
      ∨ Text.lowercase name = "__proto__" ∧ entry = .pattern
      ∨ Text.lowercase name = "constructor" ∧ entry = .maker := by
  rw [find?_eq_some_iff_mem, table, List.mem_append, List.mem_map, inherited]
  simp only [Prod.mk.injEq, List.mem_cons, List.not_mem_nil, or_false, eq_comm]

/-- A name finds something if it is listed, or one of two words. -/
lemma isSome_find?_iff {name : String} :
    (find? name).isSome = true ↔ Text.lowercase name ∈ names.map Prod.fst
      ∨ Text.lowercase name = "__proto__" ∨ Text.lowercase name = "constructor" := by
  simp only [Option.isSome_iff_exists, find?_eq_some_iff, exists_or, exists_and_left,
    exists_eq, and_true, List.mem_map]
  refine or_congr_left ⟨?_, ?_⟩
  · rintro ⟨entry, f, hf, hname, -⟩
    exact ⟨f, hf, hname.symm⟩
  · rintro ⟨f, hf, hname⟩
    exact ⟨_, f, hf, hname.symm, rfl⟩

/-- The two words are not listed. -/
lemma not_mem_names : "__proto__" ∉ names.map Prod.fst ∧ "constructor" ∉ names.map Prod.fst := by
  decide

/-- **But for the two words, a name finds something exactly if it is listed.** -/
theorem isSome_iff_listed_iff {name : String} :
    ((find? name).isSome = true ↔ Text.lowercase name ∈ names.map Prod.fst)
      ↔ Text.lowercase name ≠ "__proto__" ∧ Text.lowercase name ≠ "constructor" := by
  rw [isSome_find?_iff]
  constructor
  · intro h
    constructor
    · intro hproto
      exact not_mem_names.1 (hproto ▸ h.mp (Or.inr (Or.inl hproto)))
    · intro hconstructor
      exact not_mem_names.2 (hconstructor ▸ h.mp (Or.inr (Or.inr hconstructor)))
  · rintro ⟨hproto, hconstructor⟩
    rw [or_iff_left (not_or.mpr ⟨hproto, hconstructor⟩)]

/-! ### Requests -/

/-- Without a word from the overrides a request shows what the name stands for. -/
lemma get?_characterSet {fields overrides : Record} (hoverrides : overrides.IsProper)
    (hnone : overrides.get? "characterSet" = none) {entry : Option Entry}
    (h : Options.characterEntry fields = .ok entry) :
    ∃ asked, Options.request fields overrides = .ok asked
      ∧ asked.get? "characterSet" = entry.map Entry.shown := by
  obtain ⟨asked, hasked, hget⟩ := Options.get?_request hoverrides h
  refine ⟨asked, hasked, ?_⟩
  rw [hget, hnone, if_neg (by decide)]
  cases entry with
  | none => rfl
  | some entry => rfl

/-- **What a request shows of a name**: the label of a character set that is listed, or one of the
two things that every table holds. -/
theorem hint?_eq_some_iff {name : String} {hint : Value} : hint? name = some hint
    ↔ (∃ f ∈ names, Text.lowercase name = f.1 ∧ hint = .text f.2.label)
      ∨ Text.lowercase name = "__proto__" ∧ hint = .record []
      ∨ Text.lowercase name = "constructor" ∧ hint = .function "Object" := by
  rw [hint?, Option.map_eq_some_iff]
  simp only [find?_eq_some_iff]
  constructor
  · rintro ⟨entry, ⟨f, hf, hname, rfl⟩ | ⟨hname, rfl⟩ | ⟨hname, rfl⟩, rfl⟩
    · exact Or.inl ⟨f, hf, hname, rfl⟩
    · exact Or.inr (Or.inl ⟨hname, rfl⟩)
    · exact Or.inr (Or.inr ⟨hname, rfl⟩)
  · rintro (⟨f, hf, hname, rfl⟩ | ⟨hname, rfl⟩ | ⟨hname, rfl⟩)
    · exact ⟨_, Or.inl ⟨f, hf, hname, rfl⟩, rfl⟩
    · exact ⟨_, Or.inr (Or.inl ⟨hname, rfl⟩), rfl⟩
    · exact ⟨_, Or.inr (Or.inr ⟨hname, rfl⟩), rfl⟩

/-- A name that is none of the two words shows the label of a listed set, or nothing. -/
lemma hint?_eq_none_or {name : String}
    (h : Text.lowercase name ≠ "__proto__" ∧ Text.lowercase name ≠ "constructor") :
    hint? name = none ∨ ∃ f ∈ names, hint? name = some (.text f.2.label) := by
  cases hhint : hint? name with
  | none => exact Or.inl rfl
  | some hint =>
    obtain ⟨f, hf, -, rfl⟩ | ⟨hproto, -⟩ | ⟨hconstructor, -⟩ := hint?_eq_some_iff.mp hhint
    · exact Or.inr ⟨f, hf, rfl⟩
    · exact absurd hproto h.1
    · exact absurd hconstructor h.2

/-- **A name finds a character set that is listed, or what every table holds.**  It finds a set
exactly if that is listed for its small letters, and otherwise it can only be one of the two words
that are found in every table: but for these it finds something exactly if it is listed.  A name is
lowered to a word of the table exactly if it spells it.  So a request that the overrides do not
decide shows a listed set or nothing, unless the options name one of the two words: then it shows an
empty record, or a function.  It shows nothing of a text that is no string, and nothing where no
name is given. -/
theorem listed_or_inherited (name : String) :
    (∀ entry, find? name = some entry
      ↔ (∃ f ∈ names, Text.lowercase name = f.1 ∧ entry = .listed f.2)
        ∨ Text.lowercase name = "__proto__" ∧ entry = .pattern
        ∨ Text.lowercase name = "constructor" ∧ entry = .maker)
    ∧ (((find? name).isSome = true ↔ Text.lowercase name ∈ names.map Prod.fst)
      ↔ Text.lowercase name ≠ "__proto__" ∧ Text.lowercase name ≠ "constructor")
    ∧ (∀ word ∈ table.map Prod.fst, Text.lowercase name = word ↔ Text.Spells name word)
    ∧ (∀ hint, hint? name = some hint
      ↔ (∃ f ∈ names, Text.lowercase name = f.1 ∧ hint = .text f.2.label)
        ∨ Text.lowercase name = "__proto__" ∧ hint = .record []
        ∨ Text.lowercase name = "constructor" ∧ hint = .function "Object")
    ∧ ∀ fields overrides : Record, overrides.IsProper → overrides.get? "characterSet" = none →
      (fields.get? "characterSet" = some (.text name) →
        ∃ asked, Options.request fields overrides = .ok asked
          ∧ asked.get? "characterSet" = hint? name
          ∧ (Text.lowercase name ≠ "__proto__" ∧ Text.lowercase name ≠ "constructor" →
            asked.get? "characterSet" = none
              ∨ ∃ f ∈ names, asked.get? "characterSet" = some (.text f.2.label)))
      ∧ ((∃ stray, fields.get? "characterSet" = some (.stray stray))
          ∨ fields.get? "characterSet" = none →
        ∃ asked, Options.request fields overrides = .ok asked
          ∧ asked.get? "characterSet" = none) := by
  refine ⟨fun entry => find?_eq_some_iff, isSome_iff_listed_iff,
    fun word hword => Text.lowercase_eq_iff (isPlainWord_of_mem_table word hword),
    fun hint => hint?_eq_some_iff,
    fun fields overrides hoverrides hnone => ⟨fun hname => ?_, fun hname => ?_⟩⟩
  · have hentry : Options.characterEntry fields = .ok (find? name) := by
      rw [Options.characterEntry, hname]
    obtain ⟨asked, hasked, hget⟩ := get?_characterSet hoverrides hnone hentry
    exact ⟨asked, hasked, hget, fun hother => hget ▸ hint?_eq_none_or hother⟩
  · have hentry : Options.characterEntry fields = .ok none := by
      obtain ⟨stray, hname⟩ | hname := hname
      · rw [Options.characterEntry, hname]
      · rw [Options.characterEntry, hname]
    exact get?_characterSet hoverrides hnone hentry

/-- A name in mixed letters, with the sign of the kelvin, finds a character set and is shown in a
request to decode. -/
theorem listed_or_inherited_kelvin :
    Text.Spells "EUC-\u212Ar" "euc-kr"
    ∧ find? "EUC-\u212Ar" = some (.listed .eucKr)
    ∧ Scanner.decodingRequest.IsProper ∧ Scanner.decodingRequest.get? "characterSet" = none
    ∧ ∃ asked, Options.request [("characterSet", .text "EUC-\u212Ar")] Scanner.decodingRequest
        = .ok asked
      ∧ asked.get? "characterSet" = some (.text "EUC_KR") := by
  have hsmall : Text.lowercase "EUC-\u212Ar" = "euc-kr" := by decide +kernel
  obtain ⟨hfind, -, hspells, -, hrequest⟩ := listed_or_inherited "EUC-\u212Ar"
  have hfound : find? "EUC-\u212Ar" = some (.listed .eucKr) :=
    (hfind _).mpr (Or.inl ⟨("euc-kr", .eucKr), by decide, hsmall, rfl⟩)
  have hproper := Scanner.isProper_decodingRequest
  obtain ⟨asked, hasked, hget, -⟩ := (hrequest [("characterSet", .text "EUC-\u212Ar")]
    Scanner.decodingRequest hproper rfl).1 rfl
  rw [hint?, hfound] at hget
  exact ⟨(hspells _ (by decide)).mp hsmall, hfound, hproper, rfl, asked, hasked, hget⟩

/-- **Two names are found that are not listed**, and a request shows what they find: an empty
record, and a function. -/
theorem unlisted_found :
    (¬ ∀ name, (find? name).isSome = true ↔ Text.lowercase name ∈ names.map Prod.fst)
    ∧ hint? "__proto__" = some (.record []) ∧ hint? "constructor" = some (.function "Object")
    ∧ (∃ asked, Options.request [("characterSet", .text "__proto__")] [] = .ok asked
      ∧ asked.get? "characterSet" = some (.record []))
    ∧ ∃ asked, Options.request [("characterSet", .text "constructor")] [] = .ok asked
      ∧ asked.get? "characterSet" = some (.function "Object") := by
  have hproto : find? "__proto__" = some .pattern := by decide +kernel
  have hconstructor : find? "constructor" = some .maker := by decide +kernel
  have hunlisted : Text.lowercase "__proto__" ∉ names.map Prod.fst := by decide +kernel
  have hproper : Record.IsProper [] := List.nodup_nil
  have hentry : Options.characterEntry [("characterSet", .text "__proto__")]
      = .ok (some .pattern) := congrArg Except.ok hproto
  have hentry' : Options.characterEntry [("characterSet", .text "constructor")]
      = .ok (some .maker) := congrArg Except.ok hconstructor
  refine ⟨fun h => hunlisted ((h "__proto__").mp ?_), ?_, ?_, get?_characterSet hproper rfl hentry,
    get?_characterSet hproper rfl hentry'⟩
  · rw [hproto]
    rfl
  · rw [hint?, hproto]
    rfl
  · rw [hint?, hconstructor]
    rfl

end CharacterSet

end MatrixSymbol

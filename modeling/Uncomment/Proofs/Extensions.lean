/-
# Extensions in any spelling

An extension is asked for with or without its dot, in any case, and with blanks around it. What
counts is its key: the entry without the blanks around it and the dots before the rest. Bringing
an entry into its normal form brings its key into lower case and changes nothing else, because
lower-casing makes no blank and no dot (`extensionKey_normalizeExtension`); so doing it twice is
doing it once.

A path has the extension that follows the last dot of its last name, unless nothing stands before
that dot (`Path.extension?_eq_some_iff`). It matches an entry if the extension and the key are the
same in lower case. An extension holds neither a dot nor a slash, and lower-casing adds none, so an
entry with one of them in its key matches nothing.

Key definitions: `extensionKey`, `Path.Extends`.
Key theorems: `extensionKey_normalizeExtension`, `Path.extension?_eq_some_iff`,
`Options.matchesExtension_iff`, `extensions_in_any_spelling`.
-/
import Mathlib.Data.List.DropRight
import Uncomment.Options
import Uncomment.Proofs.LowerCase
import Uncomment.Proofs.WellFormed

namespace Uncomment

open Text

/-! ### Trimming -/

namespace Text

/-- A text without blanks at its ends is trimmed already. -/
theorem trim_eq_self {cs : List Char} (hhead : cs.head?.any isBlank = false)
    (hlast : cs.getLast?.any isBlank = false) : trim cs = cs := by
  have hstart : trimStart isBlank cs = cs := by
    cases cs with
    | nil => rfl
    | cons c cs => exact List.dropWhile_cons_of_neg (by simpa using hhead)
  rw [trim, hstart]
  show cs.rdropWhile isBlank = cs
  rw [List.rdropWhile_eq_self_iff]
  intro hne
  rw [List.getLast?_eq_some_getLast hne] at hlast
  simpa using hlast

theorem getLast?_trim (cs : List Char) : (trim cs).getLast?.any isBlank = false := by
  show ((trimStart isBlank cs).rdropWhile isBlank).getLast?.any isBlank = false
  by_cases hne : (trimStart isBlank cs).rdropWhile isBlank = []
  · rw [hne]
    rfl
  · rw [List.getLast?_eq_some_getLast hne]
    simpa using List.rdropWhile_last_not isBlank (trimStart isBlank cs) hne

theorem head?_trimStart (p : Char → Bool) (cs : List Char) :
    (trimStart p cs).head?.any p = false := by
  unfold trimStart
  by_cases hne : cs.dropWhile p = []
  · rw [hne]
    rfl
  · rw [List.head?_eq_some_head hne]
    simpa using List.head_dropWhile_not p hne

/-- The end of a text is not changed by what is taken off its start. -/
theorem getLast?_trimStart {p q : Char → Bool} {cs : List Char}
    (h : cs.getLast?.any q = false) : (trimStart p cs).getLast?.any q = false := by
  unfold trimStart
  obtain ⟨front, hfront⟩ := List.dropWhile_suffix (l := cs) p
  by_cases hne : cs.dropWhile p = []
  · rw [hne]
    rfl
  · rwa [← hfront, List.getLast?_append_of_ne_nil _ hne] at h

/-- Trimming leaves what does not belong to the class. -/
theorem mem_trimStart {p : Char → Bool} {cs : List Char} {c : Char} (hc : p c = false)
    (h : c ∈ cs) : c ∈ trimStart p cs := by
  rw [← List.takeWhile_append_dropWhile (p := p) (l := cs), List.mem_append] at h
  rcases h with h | h
  · have hp := List.mem_takeWhile_imp h
    rw [hc] at hp
    cases hp
  · exact h

theorem mem_trim {cs : List Char} {c : Char} (hc : isBlank c = false) (h : c ∈ cs) :
    c ∈ trim cs := by
  have hstart : c ∈ (trimStart isBlank cs).reverse := List.mem_reverse.mpr (mem_trimStart hc h)
  exact List.mem_reverse.mpr (mem_trimStart hc hstart)

end Text

/-! ### Keys -/

/-- What counts of an entry: what is left without the blanks around it and the dots before it. -/
def extensionKey (entry : String) : List Char := trimStart (· == '.') (trim entry.toList)

theorem normalizeExtension_eq (entry : String) :
    normalizeExtension entry = String.ofList ('.' :: lower (extensionKey entry)) := rfl

/-- **Normalizing an entry brings its key into lower case.** -/
theorem extensionKey_normalizeExtension (entry : String) :
    extensionKey (normalizeExtension entry) = lower (extensionKey entry) := by
  have hdot : (lower (extensionKey entry)).head?.any (· == '.') = false := by
    rw [head?_lower (kept_sign (by decide))]
    exact head?_trimStart _ _
  have hlast : (lower (extensionKey entry)).getLast?.any isBlank = false := by
    rw [getLast?_lower kept_isBlank]
    exact getLast?_trimStart (getLast?_trim _)
  have htrim : trim ('.' :: lower (extensionKey entry)) = '.' :: lower (extensionKey entry) := by
    apply trim_eq_self
    · rfl
    · rw [List.getLast?_cons]
      cases hkey : (lower (extensionKey entry)).getLast? with
      | none => rfl
      | some c =>
        rw [hkey] at hlast
        exact hlast
  rw [normalizeExtension_eq, extensionKey, String.toList_ofList, htrim, trimStart]
  rw [List.dropWhile_cons_of_pos (by rfl)]
  cases hkey : lower (extensionKey entry) with
  | nil => rfl
  | cons c cs =>
    rw [hkey] at hdot
    exact List.dropWhile_cons_of_neg (by simpa using hdot)

theorem normalizeExtension_normalizeExtension (entry : String) :
    normalizeExtension (normalizeExtension entry) = normalizeExtension entry := by
  rw [normalizeExtension_eq (normalizeExtension entry), extensionKey_normalizeExtension,
    lower_lower, ← normalizeExtension_eq]

/-- Two entries have the same normal form if their keys are the same in lower case. -/
theorem normalizeExtension_eq_iff (entry : String) (ext : List Char) :
    normalizeExtension entry = String.ofList ('.' :: lower ext) ↔
      lower (extensionKey entry) = lower ext := by
  rw [normalizeExtension_eq, ← String.toList_inj, String.toList_ofList, String.toList_ofList,
    List.cons.injEq]
  exact and_iff_right rfl

/-- A slash is in the key of every entry that holds one. -/
theorem slash_mem_extensionKey {entry : String} (h : '/' ∈ entry.toList) :
    '/' ∈ extensionKey entry :=
  mem_trimStart (by decide) (mem_trim (by decide) h)

/-! ### The extension of a path -/

namespace Path

/-- Whether a path ends in a name with an extension: what follows the last dot of the name, with
something before that dot. -/
def Extends (path : String) (ext : List Char) : Prop :=
  ∃ name stem, (components path).getLast? = some (.name name) ∧
    name.toList = stem ++ '.' :: ext ∧ stem ≠ [] ∧ '.' ∉ ext

theorem nameExtension?_of_dot {stem ext : List Char} (hstem : stem ≠ []) (hext : '.' ∉ ext) :
    nameExtension? (stem ++ '.' :: ext) = some ext := by
  have hreverse : (stem ++ '.' :: ext).reverse = ext.reverse ++ '.' :: stem.reverse := by simp
  have hpass : ∀ c ∈ ext.reverse, decide (c ≠ '.') = true := by
    intro c hc
    rw [decide_eq_true_eq]
    rintro rfl
    exact hext (List.mem_reverse.mp hc)
  have hdrop : (ext.reverse ++ '.' :: stem.reverse).dropWhile (· ≠ '.') = '.' :: stem.reverse := by
    rw [List.dropWhile_append_of_pos hpass]
    exact List.dropWhile_cons_of_neg (by simp)
  have htake : (ext.reverse ++ '.' :: stem.reverse).takeWhile (· ≠ '.') = ext.reverse := by
    rw [List.takeWhile_append_of_pos hpass, List.takeWhile_cons_of_neg (by simp), List.append_nil]
  obtain ⟨c, cs, hcons⟩ := List.exists_cons_of_ne_nil (List.reverse_ne_nil_iff.mpr hstem)
  rw [nameExtension?, hreverse, hdrop, htake, hcons, List.reverse_reverse]

/-- The extension of a name stands behind its last dot, and something before that dot. -/
theorem nameExtension?_eq_some_iff {name ext : List Char} :
    nameExtension? name = some ext ↔ ∃ stem, name = stem ++ '.' :: ext ∧ stem ≠ [] ∧ '.' ∉ ext := by
  constructor
  · intro h
    have hwhole := List.takeWhile_append_dropWhile (p := (· ≠ '.')) (l := name.reverse)
    have hhead := Text.head?_trimStart (· ≠ '.') name.reverse
    have hnot : '.' ∉ name.reverse.takeWhile (· ≠ '.') := fun hmem => by
      simpa using List.mem_takeWhile_imp hmem
    unfold nameExtension? at h
    unfold Text.trimStart at hhead
    generalize name.reverse.takeWhile (· ≠ '.') = front at h hwhole hnot
    split at h
    · cases h
    · cases h
    · next dot c cs hdrop =>
      rw [hdrop] at hhead hwhole
      obtain rfl : dot = '.' := by simpa using hhead
      obtain rfl : front.reverse = ext := Option.some.inj h
      refine ⟨(c :: cs).reverse, ?_, by simp, by simpa using hnot⟩
      rw [← List.reverse_inj, ← hwhole]
      simp
  · rintro ⟨stem, rfl, hstem, hext⟩
    exact nameExtension?_of_dot hstem hext

theorem extension?_eq_some_iff {path : String} {ext : List Char} :
    extension? path = some ext ↔ Extends path ext := by
  unfold extension? Extends
  cases hlast : (components path).getLast? with
  | none => simp
  | some component =>
    cases component with
    | name name => simp [nameExtension?_eq_some_iff]
    | _ => simp

theorem mem_of_mem_componentsOf {name : String} : ∀ {ps : List String},
    .name name ∈ componentsOf ps → name ∈ ps := by
  intro ps h
  induction ps using componentsOf.induct with
  | case1 => cases h
  | case2 ps ih => exact List.mem_cons_of_mem _ (ih h)
  | case3 ps ih => exact List.mem_cons_of_mem _ (ih h)
  | case4 ps ih =>
    rcases List.mem_cons.mp h with h | h
    · cases h
    · exact List.mem_cons_of_mem _ (ih h)
  | case5 p ps h₁ h₂ h₃ ih =>
    rw [componentsOf] at h
    · rcases List.mem_cons.mp h with h | h
      · cases h
        exact List.mem_cons_self
      · exact List.mem_cons_of_mem _ (ih h)
    · exact h₁
    · exact h₂
    · exact h₃

theorem mem_pieces_of_mem_components {path name : String} (h : .name name ∈ components path) :
    name ∈ pieces path := by
  unfold components at h
  split at h
  · next hpieces =>
    rw [hpieces]
    rcases List.mem_cons.mp h with h | h
    · cases h
    · exact List.mem_cons_of_mem _ (mem_of_mem_componentsOf h)
  · next hpieces =>
    rw [hpieces]
    rcases List.mem_cons.mp h with h | h
    · cases h
    · exact List.mem_cons_of_mem _ (mem_of_mem_componentsOf h)
  · exact mem_of_mem_componentsOf h

/-- An extension is part of a name, so it holds no slash. -/
theorem Extends.slash_notMem {path : String} {ext : List Char} (h : Extends path ext) :
    '/' ∉ ext := by
  obtain ⟨name, stem, hlast, hname, -, -⟩ := h
  have hpiece := mem_pieces_of_mem_components (List.mem_of_getLast? hlast)
  have hslash := slash_notMem_of_mem_pieces hpiece
  rw [hname] at hslash
  intro hmem
  apply hslash
  exact List.mem_append_right _ (List.mem_cons_of_mem _ hmem)

theorem Extends.dot_notMem {path : String} {ext : List Char} (h : Extends path ext) :
    '.' ∉ ext := by
  obtain ⟨name, stem, -, -, -, hdot⟩ := h
  exact hdot

end Path

/-! ### Matching -/

theorem mem_textSet {text : String} {texts : List String} :
    text ∈ textSet texts ↔ text ∈ texts := by
  rw [textSet, List.mem_mergeSort, List.mem_eraseDups]

/-- **A path matches an entry if its extension and the key of the entry are the same in lower
case.** -/
theorem Options.matchesExtension_iff (o : Options) (entries : List String) (path : String) :
    (o.withExtensions entries).matchesExtension path = true ↔
      ∃ ext, Path.Extends path ext ∧
        ∃ entry ∈ entries, lower (extensionKey entry) = lower ext := by
  have hmem : ∀ ext, String.ofList ('.' :: lower ext) ∈ (o.withExtensions entries).extensions ↔
      ∃ entry ∈ entries, lower (extensionKey entry) = lower ext := by
    intro ext
    rw [withExtensions, mem_textSet, List.mem_map]
    simp only [normalizeExtension_eq_iff]
  simp only [← Path.extension?_eq_some_iff, ← hmem]
  unfold matchesExtension
  cases Path.extension? path with
  | none => simp
  | some ext => simp

/-- A sign that an extension cannot hold is in no key that is the same in lower case. -/
theorem notMem_of_lower_eq {sign : Char} (hsign : sign.toNat ≤ 0x40) {key ext : List Char}
    (h : lower key = lower ext) (hext : sign ∉ ext) : sign ∉ key := by
  have hany : key.any (· == sign) = ext.any (· == sign) := by
    rw [← any_lower (kept_sign hsign), h, any_lower (kept_sign hsign)]
  intro hmem
  have hin : key.any (· == sign) = true := List.any_eq_true.mpr ⟨sign, hmem, beq_self_eq_true sign⟩
  rw [hany, List.any_eq_true] at hin
  obtain ⟨c, hc, heq⟩ := hin
  rw [beq_iff_eq] at heq
  exact hext (heq ▸ hc)

/-- **Extensions are accepted in any spelling.** Normalizing an entry twice is normalizing it once,
on every text, and the set of extensions is the same for the normalized entries. A path matches
exactly if it has an extension and some entry, without blanks around it and dots before it, is the
same in lower case. So an entry with a dot inside, or with a slash, matches no path. -/
theorem extensions_in_any_spelling :
    (∀ entry, normalizeExtension (normalizeExtension entry) = normalizeExtension entry) ∧
    (∀ (o : Options) entries,
      o.withExtensions (entries.map normalizeExtension) = o.withExtensions entries) ∧
    (∀ (o : Options) entries path, (o.withExtensions entries).matchesExtension path = true ↔
      ∃ ext, Path.Extends path ext ∧
        ∃ entry ∈ entries, lower (trimStart (· == '.') (trim entry.toList)) = lower ext) ∧
    ∀ (o : Options) entries path,
      (∀ entry ∈ entries, '.' ∈ trimStart (· == '.') (trim entry.toList) ∨ '/' ∈ entry.toList) →
      (o.withExtensions entries).matchesExtension path = false := by
  refine ⟨normalizeExtension_normalizeExtension, ?_, Options.matchesExtension_iff, ?_⟩
  · intro o entries
    have hmap : (entries.map normalizeExtension).map normalizeExtension =
        entries.map normalizeExtension := by
      rw [List.map_map]
      exact List.map_congr_left fun entry _ => normalizeExtension_normalizeExtension entry
    rw [Options.withExtensions, Options.withExtensions, hmap]
  · intro o entries path hinner
    rw [Bool.eq_false_iff]
    intro hmatch
    obtain ⟨ext, hext, entry, hentry, hlower⟩ := (o.matchesExtension_iff entries path).mp hmatch
    rcases hinner entry hentry with hdot | hslash
    · exact notMem_of_lower_eq (by decide) hlower hext.dot_notMem hdot
    · exact notMem_of_lower_eq (by decide) hlower hext.slash_notMem (slash_mem_extensionKey hslash)

/-- Entries with blanks, dots and capitals, a final sigma among them; and entries with a dot inside
or a slash, which match nothing. -/
theorem extensions_in_any_spelling_entries :
    normalizeExtension " ..\u0130\u03A3 " = ".i\u0307\u03C2" ∧
    (({} : Options).withExtensions [" .TsX "]).matchesExtension "src/App.tsx/" = true ∧
    (∀ entry ∈ ["d.ts", "ts/"],
      '.' ∈ trimStart (· == '.') (trim entry.toList) ∨ '/' ∈ entry.toList) ∧
    (({} : Options).withExtensions ["d.ts", "ts/"]).matchesExtension "a.d.ts" = false := by
  have hinner : ∀ entry ∈ ["d.ts", "ts/"],
      '.' ∈ trimStart (· == '.') (trim entry.toList) ∨ '/' ∈ entry.toList := by decide
  refine ⟨by decide +kernel, ?_, hinner, extensions_in_any_spelling.2.2.2 {} _ _ hinner⟩
  rw [extensions_in_any_spelling.2.2.1]
  refine ⟨"tsx".toList, ⟨"App.tsx", "App".toList, ?_⟩, " .TsX ", ?_, ?_⟩
  · decide +kernel
  · decide
  · decide +kernel

end Uncomment

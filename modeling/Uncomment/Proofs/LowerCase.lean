/-
# What lower-casing leaves alone

The counterparts of capitals are listed as runs of code points that are shifted together. A run
and the run of its images are compared with other runs as a whole, by their ends and by whether
they go by twos, so that the table is looked through run by run and not one code point at a time.

No image is a capital itself, a sigma is never left as a capital, and neither are the two parts of
the dotted I. So what is in lower case has no other lower-case form, wherever it stands
(`lower_lower`). A character that does change is a letter far from the signs, blanks and dots, and
so is what it changes to (`eq_or_letters`). So a class that holds no such letter is kept by
lower-casing, at both ends of a text and throughout (`any_lower`, `head?_lower`, `getLast?_lower`).

Key definitions: `CaseRun.Covers`, `CaseRun.stays`, `forms`, `IsSmall`, `Kept`.
Key theorems: `shiftFrom_cases`, `shiftFrom_of_stays`, `forms_cases`, `lower_lower`,
`eq_or_letters`.
-/
import Mathlib.Data.List.DropRight
import Uncomment.Proofs.LineEndings
import Uncomment.Text.Lowercase

namespace Uncomment.Text

/-! ### Runs -/

/-- Whether a code point is one of those that a run shifts. -/
def CaseRun.Covers (r : CaseRun) (n : Nat) : Prop :=
  r.first ≤ n ∧ n ≤ r.last ∧ (n - r.first) % r.step = 0

/-- The images of a run, as a run that shifts nothing. -/
def CaseRun.images (r : CaseRun) : CaseRun :=
  ⟨r.image, r.image + (r.last - r.first), r.step, r.image⟩

theorem CaseRun.Covers.image {r : CaseRun} {n : Nat} (h : r.Covers n) :
    r.images.Covers (r.image + (n - r.first)) := by
  obtain ⟨hfirst, hlast, hstep⟩ := h
  refine ⟨Nat.le_add_right .., ?_, ?_⟩
  · show r.image + (n - r.first) ≤ r.image + (r.last - r.first)
    omega
  · show (r.image + (n - r.first) - r.image) % r.step = 0
    rwa [Nat.add_sub_cancel_left]

/-- A code point is left alone, or it is shifted by a run that covers it. -/
theorem shiftFrom_cases (n : Nat) (runs : List CaseRun) :
    shiftFrom n runs = n ∨
      ∃ r ∈ runs, r.Covers n ∧ shiftFrom n runs = r.image + (n - r.first) := by
  fun_induction shiftFrom n runs with
  | case1 => exact .inl rfl
  | case2 r rs hlt => exact .inl rfl
  | case3 r rs hle hcovers =>
    rw [Bool.and_eq_true, decide_eq_true_eq, beq_iff_eq] at hcovers
    exact .inr ⟨r, List.mem_cons_self, ⟨Nat.le_of_not_lt hle, hcovers⟩, rfl⟩
  | case4 r rs hle hcovers ih =>
    rcases ih with hsame | ⟨q, hq, hcovers, hshift⟩
    · exact .inl hsame
    · exact .inr ⟨q, List.mem_cons_of_mem _ hq, hcovers, hshift⟩

/-- Whether two runs lie apart: one ends before the other starts, or both go by twos (a run of one
code point may) and start at an odd distance. -/
def CaseRun.apart (p q : CaseRun) : Bool :=
  -- comparisons that are evaluated at once, because all pairs of runs are compared
  Nat.blt q.last p.first ||
    (Nat.beq q.step 2 && (Nat.beq p.step 2 || Nat.beq p.first p.last) &&
      Nat.beq ((p.first + q.first) % 2) 1)

theorem CaseRun.not_covers_of_apart {p q : CaseRun} (h : p.apart q = true) {n : Nat}
    (hn : p.Covers n) : ¬ q.Covers n := by
  rintro ⟨hfirst, hlast, hstep⟩
  obtain ⟨hfirst', hlast', hstep'⟩ := hn
  simp only [apart, Bool.or_eq_true, Bool.and_eq_true, Nat.blt_eq, Nat.beq_eq] at h
  rcases h with hlt | ⟨⟨htwo, htwo'⟩, hodd⟩
  · omega
  · rw [htwo] at hstep
    rcases htwo' with htwo' | hone
    · rw [htwo'] at hstep'
      omega
    · omega

/-- Whether a list of runs leaves what a run covers alone. -/
def CaseRun.stays (p : CaseRun) : List CaseRun → Bool
  | [] => true
  | q :: qs => Nat.blt p.last q.first || (p.apart q && p.stays qs)

theorem shiftFrom_of_stays {p : CaseRun} {n : Nat} (hn : p.Covers n) :
    ∀ {runs : List CaseRun}, p.stays runs = true → shiftFrom n runs = n
  | [], _ => rfl
  | q :: qs, h => by
    have hlast := hn.2.1
    rw [CaseRun.stays, Bool.or_eq_true, Bool.and_eq_true, Nat.blt_eq] at h
    rw [shiftFrom]
    by_cases hlt : n < q.first
    · exact if_pos hlt
    · rcases h with hbefore | ⟨hapart, hstays⟩
      · omega
      · have hnot := CaseRun.not_covers_of_apart hapart hn
        have hcovers : ¬ (decide (n ≤ q.last) && (n - q.first) % q.step == 0) = true := by
          rw [Bool.and_eq_true, decide_eq_true_eq, beq_iff_eq]
          exact fun hq => hnot ⟨Nat.le_of_not_lt hlt, hq⟩
        rw [if_neg hlt, if_neg hcovers]
        exact shiftFrom_of_stays hn hstays

/-- No image of a capital is a capital. -/
theorem stays_images : ∀ r ∈ lowerRuns, r.images.stays lowerRuns = true := by
  decide +kernel

/-- The code points from the first to the last of each run. -/
def spans (runs : List CaseRun) : Ranges := runs.map fun r => (r.first, r.last)

theorem not_mem_of_apart {runs : List CaseRun} {rs : Ranges}
    (h : rangesApart (spans runs) rs = true) {r : CaseRun} (hr : r ∈ runs) {n : Nat}
    (hn : r.Covers n) : ∀ s ∈ rs, ¬ (s.1 ≤ n ∧ n ≤ s.2) := by
  rintro s hs ⟨hlo, hhi⟩
  obtain ⟨hfirst, hlast, -⟩ := hn
  simp only [rangesApart, List.all_eq_true, Bool.or_eq_true, decide_eq_true_eq] at h
  have hapart : r.last < s.1 ∨ s.2 < r.first := h _ (List.mem_map_of_mem hr) s hs
  omega

/-! ### Letters -/

/-- What is found neither among the capitals with one counterpart nor among their counterparts:
the characters before the letters, white space, the dotted I, and what is no character. -/
def aside : Ranges := (0, 0x40) :: (0x130, 0x130) :: (0xD800, 0xDFFF) :: whiteSpace

/-- Whether a code point is above the signs and digits, and is no white space. -/
structure IsLetter (n : Nat) : Prop where
  above : 0x40 < n
  notBlank : inRangesFrom n whiteSpace = false

theorem isLetter_of_aside {n : Nat} (h : ∀ s ∈ aside, ¬ (s.1 ≤ n ∧ n ≤ s.2)) : IsLetter n := by
  have habove := h (0, 0x40) (by simp [aside])
  refine ⟨by omega, ?_⟩
  rw [Bool.eq_false_iff]
  intro hblank
  obtain ⟨s, hs, hin⟩ := exists_of_inRangesFrom hblank
  exact h s (by simp [aside, hs]) hin

theorem isLetter_of_covers {r : CaseRun} (hr : r ∈ lowerRuns) {n : Nat} (hn : r.Covers n) :
    IsLetter n := by
  have hapart : rangesApart (spans lowerRuns) aside = true := by decide +kernel
  exact isLetter_of_aside (not_mem_of_apart hapart hr hn)

/-- The counterpart of a capital is a character, and a letter other than the dotted I. -/
theorem isLetter_of_images {r : CaseRun} (hr : r ∈ lowerRuns) {n : Nat} (hn : r.images.Covers n) :
    IsLetter n ∧ n ≠ 0x130 ∧ n.isValidChar := by
  have hapart : rangesApart (spans (lowerRuns.map CaseRun.images)) aside = true := by
    decide +kernel
  have hlast : ∀ r ∈ lowerRuns, r.images.last < 0x110000 := by decide +kernel
  have haside := not_mem_of_apart hapart (List.mem_map_of_mem hr) hn
  have hdotted := haside (0x130, 0x130) (by simp [aside])
  have hvalid := haside (0xD800, 0xDFFF) (by simp [aside])
  have hbound := hlast r hr
  have hend := hn.2.1
  refine ⟨isLetter_of_aside haside, by omega, ?_⟩
  unfold Nat.isValidChar
  omega

/-! ### The forms of a character -/

/-- The characters that a character can turn into. -/
def forms (c : Char) : List Char :=
  if c == '\u03A3' then ['\u03C2', '\u03C3'] else lowerChar c

/-- A character turns into one or more of its forms, whatever stands around it. -/
theorem lowerAfter_cons (before : List Char) (c : Char) (cs : List Char) :
    ∃ here, here ≠ [] ∧ (∀ d ∈ here, d ∈ forms c) ∧
      lowerAfter before (c :: cs) = here ++ lowerAfter (c :: before) cs := by
  by_cases hsigma : (c == '\u03A3') = true
  · refine ⟨[if endsWord before cs then '\u03C2' else '\u03C3'], List.cons_ne_nil _ _, ?_, ?_⟩
    · intro d hd
      rw [List.mem_singleton] at hd
      rw [forms, if_pos hsigma, hd]
      split_ifs
      · exact List.mem_cons_self
      · exact List.mem_cons_of_mem _ List.mem_cons_self
    · rw [lowerAfter, if_pos hsigma]
  · refine ⟨lowerChar c, ?_, ?_, ?_⟩
    · unfold lowerChar
      split_ifs
      · exact List.cons_ne_nil _ _
      · exact List.cons_ne_nil _ _
    · intro d hd
      rwa [forms, if_neg hsigma]
    · rw [lowerAfter, if_neg hsigma]

/-- Whether a character is its own lower-case form wherever it stands. -/
structure IsSmall (c : Char) : Prop where
  ne_sigma : c ≠ '\u03A3'
  lowerChar_eq : lowerChar c = [c]

/-- The forms of the two capitals that have more than one. -/
def specialForms : List (Char × Char) :=
  [('\u03A3', '\u03C2'), ('\u03A3', '\u03C3'), ('\u0130', 'i'), ('\u0130', '\u0307')]

/-- A form of a character is the character itself, a form of one of the two special capitals, or
the counterpart of a capital under a run. -/
theorem forms_cases {c d : Char} (h : d ∈ forms c) :
    d = c ∧ IsSmall c ∨ (c, d) ∈ specialForms ∨
      ∃ r ∈ lowerRuns, r.Covers c.toNat ∧ r.images.Covers d.toNat := by
  by_cases hsigma : c = '\u03A3'
  · subst hsigma
    have hforms : forms '\u03A3' = ['\u03C2', '\u03C3'] := rfl
    rw [hforms, List.mem_cons, List.mem_singleton] at h
    rcases h with rfl | rfl
    · exact .inr (.inl (by decide))
    · exact .inr (.inl (by decide))
  by_cases hdotted : c = '\u0130'
  · subst hdotted
    have hforms : forms '\u0130' = ['i', '\u0307'] := rfl
    rw [hforms, List.mem_cons, List.mem_singleton] at h
    rcases h with rfl | rfl
    · exact .inr (.inl (by decide))
    · exact .inr (.inl (by decide))
  have hforms : forms c = lowerChar c := if_neg (by simpa using hsigma)
  have hlower : lowerChar c = [Char.ofNat (shiftFrom c.toNat lowerRuns)] :=
    if_neg (by simpa using hdotted)
  rw [hforms, hlower, List.mem_singleton] at h
  rcases shiftFrom_cases c.toNat lowerRuns with hsame | ⟨r, hr, hcovers, hshift⟩
  · rw [hsame, Char.ofNat_toNat] at hlower h
    exact .inl ⟨h, hsigma, hlower⟩
  · have hvalid := (isLetter_of_images hr hcovers.image).2.2
    have hnat : d.toNat = r.image + (c.toNat - r.first) := by
      rw [h, hshift, Char.ofNat, dif_pos hvalid]
      rfl
    refine .inr (.inr ⟨r, hr, hcovers, ?_⟩)
    rw [hnat]
    exact hcovers.image

/-! ### Lower-casing twice -/

/-- **A form of a character has no other form.** -/
theorem isSmall_of_mem_forms {c d : Char} (h : d ∈ forms c) : IsSmall d := by
  have hspecial : ∀ q ∈ specialForms, q.2 ≠ '\u03A3' ∧ lowerChar q.2 = [q.2] := by decide
  rcases forms_cases h with ⟨rfl, hsmall⟩ | hmem | ⟨r, hr, -, himage⟩
  · exact hsmall
  · obtain ⟨hsigma, hsame⟩ := hspecial _ hmem
    exact ⟨hsigma, hsame⟩
  · have hstays : shiftFrom d.toNat lowerRuns = d.toNat :=
      shiftFrom_of_stays himage (stays_images r hr)
    have hdotted := (isLetter_of_images hr himage).2.1
    refine ⟨?_, ?_⟩
    · rintro rfl
      exact absurd hstays (by decide)
    · have hne : ¬ (d == '\u0130') = true := by
        rw [beq_iff_eq]
        rintro rfl
        exact hdotted rfl
      rw [lowerChar, if_neg hne, hstays, Char.ofNat_toNat]

theorem isSmall_of_mem_lowerAfter {d : Char} : ∀ {cs before : List Char},
    d ∈ lowerAfter before cs → IsSmall d
  | c :: cs, before, h => by
    obtain ⟨here, -, hforms, hlower⟩ := lowerAfter_cons before c cs
    rw [hlower, List.mem_append] at h
    rcases h with h | h
    · exact isSmall_of_mem_forms (hforms d h)
    · exact isSmall_of_mem_lowerAfter h

theorem lowerAfter_of_isSmall : ∀ {cs : List Char} (before : List Char), (∀ c ∈ cs, IsSmall c) →
    lowerAfter before cs = cs
  | [], _, _ => rfl
  | c :: cs, before, h => by
    obtain ⟨⟨hsigma, hsame⟩, hrest⟩ := List.forall_mem_cons.mp h
    rw [lowerAfter, if_neg (by simpa using hsigma), hsame, lowerAfter_of_isSmall _ hrest]
    rfl

/-- **What is in lower case stays as it is.** -/
theorem lower_lower (cs : List Char) : lower (lower cs) = lower cs :=
  lowerAfter_of_isSmall [] fun _ h => isSmall_of_mem_lowerAfter h

/-! ### Classes that are kept -/

/-- **What changes is a letter, and so is what it changes to.** -/
theorem eq_or_letters {c d : Char} (h : d ∈ forms c) :
    d = c ∨ IsLetter c.toNat ∧ IsLetter d.toNat := by
  have hspecial : ∀ q ∈ specialForms, (0x40 < q.1.toNat ∧ isBlank q.1 = false) ∧
      0x40 < q.2.toNat ∧ isBlank q.2 = false := by decide
  rcases forms_cases h with ⟨rfl, -⟩ | hmem | ⟨r, hr, hcovers, himage⟩
  · exact .inl rfl
  · obtain ⟨⟨habove, hblank⟩, habove', hblank'⟩ := hspecial _ hmem
    exact .inr ⟨⟨habove, hblank⟩, habove', hblank'⟩
  · exact .inr ⟨isLetter_of_covers hr hcovers, (isLetter_of_images hr himage).1⟩

/-- Whether a class of characters holds no letter, so that lower-casing keeps it. -/
def Kept (p : Char → Bool) : Prop := ∀ c, IsLetter c.toNat → p c = false

theorem kept_isBlank : Kept isBlank := fun _ h => h.notBlank

theorem kept_sign {sign : Char} (h : sign.toNat ≤ 0x40) : Kept (· == sign) := by
  intro c hc
  rw [beq_eq_false_iff_ne]
  rintro rfl
  have habove := hc.above
  omega

theorem Kept.forms {p : Char → Bool} (hp : Kept p) {c d : Char} (h : d ∈ forms c) : p d = p c := by
  rcases eq_or_letters h with rfl | ⟨hc, hd⟩
  · rfl
  · rw [hp c hc, hp d hd]

theorem any_lowerAfter {p : Char → Bool} (hp : Kept p) : ∀ (cs before : List Char),
    (lowerAfter before cs).any p = cs.any p
  | [], _ => rfl
  | c :: cs, before => by
    obtain ⟨here, hne, hforms, hlower⟩ := lowerAfter_cons before c cs
    have ih := any_lowerAfter hp cs (c :: before)
    have hhere : here.any p = p c := by
      obtain ⟨d, ds, rfl⟩ := List.exists_cons_of_ne_nil hne
      rw [Bool.eq_iff_iff, List.any_eq_true]
      constructor
      · rintro ⟨x, hx, hpx⟩
        rwa [hp.forms (hforms x hx)] at hpx
      · intro hpc
        exact ⟨d, List.mem_cons_self, by rwa [hp.forms (hforms d List.mem_cons_self)]⟩
    rw [hlower, List.any_append, hhere, ih, List.any_cons]

/-- A text in lower case has a character of a kept class exactly if the text has one. -/
theorem any_lower {p : Char → Bool} (hp : Kept p) (cs : List Char) :
    (lower cs).any p = cs.any p :=
  any_lowerAfter hp cs []

/-- The first character is kept in its class. -/
theorem head?_lower {p : Char → Bool} (hp : Kept p) (cs : List Char) :
    (lower cs).head?.any p = cs.head?.any p := by
  cases cs with
  | nil => rfl
  | cons c cs =>
    obtain ⟨here, hne, hforms, hlower⟩ := lowerAfter_cons [] c cs
    obtain ⟨d, ds, rfl⟩ := List.exists_cons_of_ne_nil hne
    rw [lower, hlower]
    exact hp.forms (hforms d List.mem_cons_self)

theorem getLast?_lowerAfter {p : Char → Bool} (hp : Kept p) : ∀ (cs before : List Char),
    (lowerAfter before cs).getLast?.any p = cs.getLast?.any p
  | [], _ => rfl
  | c :: cs, before => by
    obtain ⟨here, hne, hforms, hlower⟩ := lowerAfter_cons before c cs
    have ih := getLast?_lowerAfter hp cs (c :: before)
    rw [hlower]
    cases cs with
    | nil =>
      have hlast := hp.forms (hforms _ (List.getLast_mem hne))
      rw [lowerAfter, List.append_nil, List.getLast?_eq_some_getLast hne]
      exact hlast
    | cons e es =>
      have hne' : lowerAfter (c :: before) (e :: es) ≠ [] := by
        obtain ⟨here', hhere', -, hlower'⟩ := lowerAfter_cons (c :: before) e es
        rw [hlower']
        exact List.append_ne_nil_of_left_ne_nil hhere' _
      rw [List.getLast?_append_of_ne_nil _ hne', ih, List.getLast?_cons_cons]

/-- The last character is kept in its class. -/
theorem getLast?_lower {p : Char → Bool} (hp : Kept p) (cs : List Char) :
    (lower cs).getLast?.any p = cs.getLast?.any p :=
  getLast?_lowerAfter hp cs []

end Uncomment.Text

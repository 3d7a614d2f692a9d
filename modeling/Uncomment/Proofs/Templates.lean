/-
# What cleaning does to templates

A template at top level without an interpolation is copied by the scan, from its opening mark to
its closing one. Tidying comes after that and sees lines only. A template starts and ends with a
mark that is not blank, so it is tidied as if it stood alone: trailing spaces and tabs of its lines
are taken away, and so are blank lines beyond the second one in a row. A template on one line, or
with tidy lines, is found in the cleaned text as it was, and any other with its lines tidied.

Key definitions: `InOrder`, `Scan.templatesFrom`, `templates`.
Main statement: `templates_clean`.
-/
import Uncomment.Options
import Uncomment.Proofs.TidyLines

namespace Uncomment

open Text

/-! ### Texts in a text -/

/-- Whether some texts occur in a text, one after the other. -/
inductive InOrder : List (List Char) → List Char → Prop where
  | nil (cs : List Char) : InOrder [] cs
  | cons {part : List Char} {parts : List (List Char)} {back : List Char} (front : List Char)
      (h : InOrder parts back) : InOrder (part :: parts) (front ++ (part ++ back))

namespace InOrder

variable {parts : List (List Char)} {cs : List Char}

theorem prepend (h : InOrder parts cs) (front : List Char) : InOrder parts (front ++ cs) := by
  cases h with
  | nil => exact .nil _
  | cons front' h =>
    rw [← List.append_assoc]
    exact .cons _ h

theorem concat (h : InOrder parts cs) (back : List Char) : InOrder parts (cs ++ back) := by
  induction h with
  | nil => exact .nil _
  | cons front _ ih =>
    rw [List.append_assoc, List.append_assoc]
    exact .cons front ih

theorem isInfix (h : InOrder parts cs) {part : List Char} (hpart : part ∈ parts) :
    part <:+: cs := by
  induction h with
  | nil => simp at hpart
  | @cons head parts back front _ ih =>
    rcases List.mem_cons.mp hpart with rfl | hmem
    · exact ⟨front, back, List.append_assoc ..⟩
    · exact (ih hmem).trans ((List.suffix_append ..).trans (List.suffix_append ..)).isInfix

/-- A first character with which none of the texts starts can go. -/
theorem of_cons {c : Char} (h : InOrder parts (c :: cs))
    (hparts : ∀ part ∈ parts, part ≠ [] ∧ part.head? ≠ some c) : InOrder parts cs := by
  generalize htext : c :: cs = text at h
  cases h with
  | nil => exact .nil _
  | @cons part _ _ front h =>
    cases front with
    | nil =>
      obtain ⟨hne, hhead⟩ := hparts part List.mem_cons_self
      obtain ⟨d, part, rfl⟩ := List.exists_cons_of_ne_nil hne
      obtain ⟨rfl, -⟩ := List.cons.inj htext
      exact absurd rfl hhead
    | cons d front =>
      obtain ⟨-, rfl⟩ := List.cons.inj htext
      exact .cons front h

/-- Trailing characters of a class can go, if each of the texts ends in another character. -/
theorem trimEnd {p : Char → Bool} (h : InOrder parts cs)
    (hparts : ∀ part ∈ parts, ∃ front c, part = front ++ [c] ∧ p c = false) :
    InOrder parts (Text.trimEnd p cs) := by
  induction h with
  | nil => exact .nil _
  | @cons part parts back front _ ih =>
    obtain ⟨inner, c, hpart, hc⟩ := hparts part List.mem_cons_self
    have htrim : Text.trimEnd p (front ++ (part ++ back)) =
        front ++ (part ++ Text.trimEnd p back) := by
      have hsolid := trimEnd_solid hc (front ++ inner) back
      simpa [hpart] using hsolid
    rw [htrim]
    exact .cons front (ih fun q hq => hparts q (List.mem_cons_of_mem part hq))

end InOrder

/-! ### Templates -/

/-- A text between two marks. -/
def Marked (part : List Char) : Prop := ∃ inner, part = backtick :: inner ++ [backtick]

namespace Scan

/-- The templates without an interpolation that start at top level among some pieces. The text of
one that is open so far is given, if there is one. -/
def templatesFrom : Option (List Char) → List Piece → List (List Char)
  | _, [] => []
  | none, p :: ps =>
    if p.place = .topLevel ∧ p.lexeme = .openTemplate then templatesFrom (some p.text) ps
    else templatesFrom none ps
  | some front, p :: ps =>
    match p.lexeme with
    | .templateText chars => templatesFrom (some (front ++ chars)) ps
    | .closeTemplate => (front ++ p.text) :: templatesFrom none ps
    | _ => templatesFrom none ps

theorem templatesFrom_restored (ps : List Piece) : ∀ front,
    templatesFrom front (ps.map Piece.restored) = templatesFrom front ps := by
  induction ps with
  | nil =>
    intro front
    cases front <;> rfl
  | cons p ps ih =>
    intro front
    cases front with
    | none => simp only [List.map_cons, templatesFrom, ih, Piece.restored, Piece.text]
    | some front => simp only [List.map_cons, templatesFrom, ih, Piece.restored, Piece.text]

/-- What a piece of a template leaves is its text. -/
theorem leaves_of_sound {p : Piece} (h : p.Sound) (hcode : ∀ c, p.lexeme ≠ .code c) :
    p.leaves = p.lexeme.leaves := by
  have hlive : p.erased = false := by
    rw [Bool.eq_false_iff]
    intro herased
    obtain ⟨-, c, -, hc⟩ := h herased
    exact hcode c hc
  simp [Piece.leaves, hlive]

/-- **The templates of some pieces occur in what the pieces leave.** -/
theorem inOrder_templates {ps : List Piece} (h : ∀ p ∈ ps, p.Sound) :
    InOrder (templatesFrom none ps) (leavesOf ps) ∧
      ∀ front, InOrder (templatesFrom (some front) ps) (front ++ leavesOf ps) := by
  induction ps with
  | nil => exact ⟨.nil _, fun _ => .nil _⟩
  | cons p ps ih =>
    obtain ⟨hclosed, hopen⟩ := ih fun q hq => h q (List.mem_cons_of_mem p hq)
    have hsound := h p List.mem_cons_self
    have hskip : InOrder (templatesFrom none ps) (leavesOf (p :: ps)) := hclosed.prepend _
    constructor
    · simp only [templatesFrom]
      split_ifs with hstart
      · have hleaves : p.leaves = p.text := by
          rw [leaves_of_sound hsound (by simp [hstart.2]), Piece.text, hstart.2]
          rfl
        rw [leavesOf_cons, hleaves]
        exact hopen p.text
      · exact hskip
    · intro front
      simp only [templatesFrom]
      split
      · next chars hlexeme =>
        have hleaves : p.leaves = chars := by
          rw [leaves_of_sound hsound (by simp [hlexeme]), hlexeme]
          rfl
        rw [leavesOf_cons, hleaves, ← List.append_assoc]
        exact hopen (front ++ chars)
      · next hlexeme =>
        have hleaves : p.leaves = p.text := by
          rw [leaves_of_sound hsound (by simp [hlexeme]), Piece.text, hlexeme]
          rfl
        rw [leavesOf_cons, hleaves, ← List.append_assoc]
        exact .cons [] hclosed
      · exact hskip.prepend front

/-- A template starts and ends with its mark. -/
theorem marked_of_templatesFrom {ps : List Piece} {part : List Char} :
    (part ∈ templatesFrom none ps → Marked part) ∧
      ∀ front, part ∈ templatesFrom (some (backtick :: front)) ps → Marked part := by
  induction ps with
  | nil => simp [templatesFrom]
  | cons p ps ih =>
    obtain ⟨hclosed, hopen⟩ := ih
    constructor
    · simp only [templatesFrom]
      split_ifs with hstart
      · rw [Piece.text, hstart.2]
        exact hopen []
      · exact hclosed
    · intro front
      simp only [templatesFrom]
      split
      · exact hopen (front ++ _)
      · next hlexeme =>
        rw [Piece.text, hlexeme, List.mem_cons]
        rintro (rfl | hmem)
        · exact ⟨front, rfl⟩
        · exact hclosed hmem
      · exact hclosed

end Scan

/-- The templates of a text that stand at top level and hold no interpolation, in order. -/
def templates (source : String) : List (List Char) :=
  Scan.templatesFrom none (Scan.pieces Scan.keepBraces { rest := source.toList })

theorem solid_backtick : Solid backtick := by
  unfold Solid
  decide

/-- Templates occur in the stripped text. -/
theorem inOrder_strip (o : ScanOptions) (source : String) :
    InOrder (templates source) (strip o source).text.toList := by
  obtain ⟨ps, hfollows, hremovals⟩ := Scan.exists_removals o source.toList
  obtain ⟨-, -, hsound, hrestored⟩ := Scan.pieces_of_removals hremovals
  have hout : (strip o source).text.toList = Scan.leavesOf ps := by simp [strip, hfollows.out]
  rw [hout, templates, ← hrestored, Scan.templatesFrom_restored]
  exact (Scan.inOrder_templates hsound).1

/-! ### Tidying templates -/

/-- A text between marks is tidied as if it stood alone. -/
theorem resume_marked {part : List Char} (h : Marked part) (front back : List Char) :
    ∃ kept, resume (front ++ (part ++ back)) = kept ++ (tidyLines part ++ resume back) := by
  obtain ⟨inner, rfl⟩ := h
  obtain ⟨kept, hkept⟩ := resume_end solid_backtick front
  refine ⟨kept, ?_⟩
  calc resume (front ++ (backtick :: inner ++ [backtick] ++ back))
      = resume (front ++ backtick :: (inner ++ backtick :: back)) := by simp
    _ = resume (front ++ [backtick]) ++ (resume (inner ++ [backtick]) ++ resume back) := by
        rw [resume_cut solid_backtick, resume_cut solid_backtick inner back]
    _ = kept ++ (tidyLines (backtick :: inner ++ [backtick]) ++ resume back) := by
        rw [hkept, List.cons_append, tidyLines_solid solid_backtick]
        simp

theorem InOrder.resume {parts : List (List Char)} {cs : List Char} (h : InOrder parts cs)
    (hparts : ∀ part ∈ parts, Marked part) :
    InOrder (parts.map tidyLines) (Uncomment.resume cs) := by
  induction h with
  | nil => exact .nil _
  | @cons part parts back front _ ih =>
    obtain ⟨kept, hkept⟩ := resume_marked (hparts part List.mem_cons_self) front back
    rw [hkept]
    exact .cons kept (ih fun q hq => hparts q (List.mem_cons_of_mem part hq))

/-- The marks stay when a template is tidied. -/
theorem Marked.tidyLines {part : List Char} (h : Marked part) : Marked (tidyLines part) := by
  obtain ⟨inner, rfl⟩ := h
  obtain ⟨kept, hkept⟩ := resume_end solid_backtick inner
  exact ⟨kept, by rw [List.cons_append, tidyLines_solid solid_backtick, hkept, List.cons_append]⟩

/-- Texts between marks that occur in a text occur with their lines tidied in the tidied text. -/
theorem InOrder.tidy {parts : List (List Char)} {cs : List Char} (h : InOrder parts cs)
    (hparts : ∀ part ∈ parts, Marked part) :
    InOrder (parts.map tidyLines) (tidyChars cs) := by
  have hmarked : ∀ part ∈ parts.map tidyLines, Marked part := by
    intro part hpart
    obtain ⟨q, hq, rfl⟩ := List.mem_map.mp hpart
    exact (hparts q hq).tidyLines
  -- the text is read as the rest of an empty line
  have hrows : Uncomment.resume ('\n' :: cs) = '\n' :: tidyLines cs := by
    rw [← rows_zero]
    exact resume_line List.not_mem_nil cs
  have hlines : InOrder (parts.map tidyLines) (tidyLines cs) := by
    refine InOrder.of_cons (c := '\n') ?_ ?_
    · rw [← hrows]
      exact (h.prepend ['\n']).resume hparts
    · intro part hpart
      obtain ⟨inner, rfl⟩ := hmarked part hpart
      exact ⟨by simp, by simp [backtick]⟩
  have hbody : InOrder (parts.map tidyLines) (Text.trimEnd isBlank (tidyLines cs)) := by
    refine hlines.trimEnd fun part hpart => ?_
    obtain ⟨inner, rfl⟩ := hmarked part hpart
    exact ⟨backtick :: inner, backtick, rfl, solid_backtick⟩
  unfold tidyChars
  rw [← Uncomment.tidyLines]
  dsimp only
  split_ifs with hempty
  · rwa [List.isEmpty_iff.mp hempty] at hbody
  · exact hbody.concat _

/-- **A template without an interpolation is found in the cleaned text with its lines tidied,** and
as it was if its lines are tidy or texts are not tidied. Templates keep their order. -/
theorem templates_clean (o : Options) (source : String) :
    InOrder ((templates source).map (if o.tidy then tidyLines else id))
        (o.clean source).text.toList ∧
      ((o.tidy = true → ∀ part ∈ templates source, tidyLines part = part) →
        InOrder (templates source) (o.clean source).text.toList) := by
  have hstrip := inOrder_strip o.scan source
  have hmarked : ∀ part ∈ templates source, Marked part := fun part hpart =>
    Scan.marked_of_templatesFrom.1 hpart
  have hclean : InOrder ((templates source).map (if o.tidy then tidyLines else id))
      (o.clean source).text.toList := by
    cases htidy : o.tidy with
    | false => simpa [Options.clean, htidy] using hstrip
    | true =>
      have htext : (o.clean source).text.toList = tidyChars (strip o.scan source).text.toList := by
        simp [Options.clean, htidy, tidy]
      rw [htext, if_pos rfl]
      exact hstrip.tidy hmarked
  refine ⟨hclean, fun hneat => ?_⟩
  have hsame : (templates source).map (if o.tidy then tidyLines else id) = templates source := by
    cases htidy : o.tidy with
    | false => simp
    | true =>
      calc (templates source).map tidyLines
          = (templates source).map id := List.map_congr_left (hneat htidy)
        _ = templates source := List.map_id _
  rwa [hsame] at hclean

/-- Two templates, the second one with a blank line in it, among comments. -/
theorem templates_clean_tidy_lines :
    templates "`a` // b\n/* c */ `d\n\n\te` \n" = ["`a`".toList, "`d\n\n\te`".toList] ∧
      InOrder (templates "`a` // b\n/* c */ `d\n\n\te` \n")
        (({} : Options).clean "`a` // b\n/* c */ `d\n\n\te` \n").text.toList :=
  ⟨by decide +kernel, (templates_clean {} _).2 fun _ => by decide +kernel⟩

/-- A space at the end of a line of a template is taken away. -/
theorem templates_clean_trailing_space :
    (({} : Options).clean "`a \n`\n").diagnostics = [] ∧
      templates "`a \n`\n" = ["`a \n`".toList] ∧
      (({} : Options).clean "`a \n`\n").text = "`a\n`\n" ∧
      ¬ InOrder (templates "`a \n`\n") (({} : Options).clean "`a \n`\n").text.toList := by
  refine ⟨by decide +kernel, by decide +kernel, by decide +kernel, fun h => ?_⟩
  have htemplate : "`a \n`".toList ∈ templates "`a \n`\n" := by decide +kernel
  exact absurd (h.isInfix htemplate) (by decide +kernel)

end Uncomment

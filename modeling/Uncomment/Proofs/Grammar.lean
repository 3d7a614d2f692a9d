/-
# Well-formed code

Code without regular expressions and divisions has a grammar: plain characters, closed
strings, comments, directives and templates, whose interpolations hold code again. A scan does
not see this grammar. It goes from lexeme to lexeme with a stack of what is open, and counts
the braces of an interpolation to find its end. `Passes` says that a text takes the scan from
one stack to another, whatever comes after the text, and such passages can be put one after
the other. Each construct of the grammar leaves the stack as it was, by induction on the
items (`Item.passes`, `Item.passes_all`, `Part.passes_all`).

So well-formed code loses its comments and nothing else, and there is nothing to report.

Key definitions: `Item`, `Item.render`, `Item.WellFormed`, `Scan.Passes`.
Key theorems: `strip_render`.
-/
import Uncomment.Proofs.Unique

namespace Uncomment

open Text Scan

/-! ### The grammar -/

mutual

/-- An item of code. -/
inductive Item where
  | plain (c : Char)
  | quoted (quote : Char) (body : List Char)
  /-- A line comment: what stands between its slashes and its line feed. -/
  | lineComment (body : List Char)
  /-- A block comment: what stands between its delimiters. -/
  | blockComment (body : List Char)
  /-- A directive without its line feed. -/
  | directive (line : List Char)
  /-- Code in a pair of braces, inside an interpolation. -/
  | group (items : List Item)
  | template (parts : List Part)

/-- A part of a template. -/
inductive Part where
  /-- A backslash and the character after it. -/
  | escape (c : Char)
  | char (c : Char)
  | interpolation (items : List Item)

end

/-- The line terminator that a line comment leaves: a carriage return at its end belongs to
it. -/
def terminator (body : List Char) : List Char :=
  if body.getLast? = some '\r' then ['\r', '\n'] else ['\n']

mutual

/-- An item as text, with its comments or with what is left of them. -/
def Item.render (comments : Bool) : Item → List Char
  | .plain c => [c]
  | .quoted quote body => quote :: body ++ [quote]
  | .lineComment body => if comments then '/' :: '/' :: body ++ ['\n'] else terminator body
  | .blockComment body =>
    if comments then '/' :: '*' :: body ++ ['*', '/']
    else List.replicate (body.count '\n') '\n'
  | .directive line => line ++ ['\n']
  | .group items => '{' :: Item.renderAll comments items ++ ['}']
  | .template parts => backtick :: Part.renderAll comments parts ++ [backtick]

def Item.renderAll (comments : Bool) : List Item → List Char
  | [] => []
  | item :: items => item.render comments ++ Item.renderAll comments items

def Part.render (comments : Bool) : Part → List Char
  | .escape c => ['\\', c]
  | .char c => [c]
  | .interpolation items => '$' :: '{' :: Item.renderAll comments items ++ ['}']

def Part.renderAll (comments : Bool) : List Part → List Char
  | [] => []
  | part :: parts => part.render comments ++ Part.renderAll comments parts

end

mutual

/-- The comments and directives of an item, by kind. -/
def Item.counts : Item → Stats
  | .lineComment _ => { lineComments := 1 }
  | .blockComment _ => { blockComments := 1 }
  | .directive _ => { directives := 1 }
  | .group items => Item.countsAll items
  | .template parts => Part.countsAll parts
  | _ => {}

def Item.countsAll : List Item → Stats
  | [] => {}
  | item :: items => item.counts + Item.countsAll items

def Part.counts : Part → Stats
  | .interpolation items => Item.countsAll items
  | _ => {}

def Part.countsAll : List Part → Stats
  | [] => {}
  | part :: parts => part.counts + Part.countsAll parts

end

/-- Whether the text of a template starts with a dollar sign directly before an opening brace,
which would open an interpolation. -/
def OpensInText : List Part → Prop
  | .char a :: .char b :: _ => a = '$' ∧ b = '{'
  | _ => False

mutual

/-- Whether an item is well formed in code of a kind. Directives stand at top level only, and
braces come in pairs inside an interpolation. -/
def Item.WellFormed (ctx : Context) : Item → Prop
  | .plain c =>
    isQuote c = false ∧ c ≠ backtick ∧ c ≠ '/' ∧ (ctx = .interpolation → c ≠ '{' ∧ c ≠ '}')
  | .quoted quote body => isQuote quote = true ∧ QuotedBody quote body
  | .lineComment body =>
    '\n' ∉ body ∧ (ctx = .topLevel → isDirective ('/' :: '/' :: body) = false)
  | .blockComment body => ¬ ['*', '/'] <:+: body
  | .directive line => ctx = .topLevel ∧ '\n' ∉ line ∧ isDirective line = true
  | .group items => ctx = .interpolation ∧ Item.AllWellFormed .interpolation items
  | .template parts => Part.AllWellFormed parts

def Item.AllWellFormed (ctx : Context) : List Item → Prop
  | [] => True
  | item :: items => item.WellFormed ctx ∧ Item.AllWellFormed ctx items

def Part.WellFormed : Part → Prop
  | .escape _ => True
  | .char c => c ≠ backtick ∧ c ≠ '\\'
  | .interpolation items => Item.AllWellFormed .interpolation items

def Part.AllWellFormed : List Part → Prop
  | [] => True
  | part :: parts =>
    part.WellFormed ∧ ¬ OpensInText (part :: parts) ∧ Part.AllWellFormed parts

end

namespace Scan

/-! ### Passages -/

/-- What a scan has done when it has got from one state to another: what it has written and
counted, and that it found no fault. -/
structure Advances (s t : State) (written : List Char) (counts : Stats) : Prop where
  run : run keepBraces s = run keepBraces t
  out : t.out = written.reverse ++ s.out
  stats : t.stats = s.stats + counts
  faults : t.faults = s.faults

/-- Whether a text takes a scan from some open layers to others, wherever it stands and whatever
comes after it, with what is then written and counted. -/
def Passes (layers layers' : List Layer) (text written : List Char) (counts : Stats) : Prop :=
  ∀ s : State, ∀ rest, s.reading.layers = layers → s.rest = text ++ rest →
    ∃ t : State, t.reading.layers = layers' ∧ t.rest = rest ∧ Advances s t written counts

namespace Passes

theorem nil (layers : List Layer) : Passes layers layers [] [] {} := by
  intro s rest hlayers hrest
  refine ⟨s, hlayers, hrest, ⟨rfl, rfl, ?_, rfl⟩⟩
  rw [Stats.add_empty]

/-- Passages can be put one after the other. -/
theorem append {a b c : List Layer} {text text' written written' : List Char}
    {counts counts' : Stats} (h : Passes a b text written counts)
    (h' : Passes b c text' written' counts') :
    Passes a c (text ++ text') (written ++ written') (counts + counts') := by
  intro s rest hlayers hrest
  rw [List.append_assoc] at hrest
  obtain ⟨t, htlayers, htrest, hst⟩ := h s (text' ++ rest) hlayers hrest
  obtain ⟨u, hulayers, hurest, htu⟩ := h' t rest htlayers htrest
  refine ⟨u, hulayers, hurest, ⟨?_, ?_, ?_, ?_⟩⟩
  · rw [hst.run, htu.run]
  · rw [htu.out, hst.out, List.reverse_append, List.append_assoc]
  · rw [htu.stats, hst.stats, Stats.add_assoc]
  · rw [htu.faults, hst.faults]

/-- A lexeme that fits before a text, and that is closed, is a passage before that of the
text. -/
theorem cons {layers b c : List Layer} {l : Lexeme} {text written : List Char} {counts : Stats}
    (hfits : ∀ tracker rest, Fits ⟨layers, tracker⟩ l (text ++ rest))
    (hlayers : ∀ tracker, (Reading.after ⟨layers, tracker⟩ l).layers = b)
    (hclosed : ∀ s rest, (absorb s l rest).faults = s.faults)
    (h : Passes b c text written counts) :
    Passes layers c (l.text ++ text) (l.leaves ++ written) (l.counts + counts) := by
  intro s rest hs hrest
  have hreading : s.reading = ⟨layers, s.tracker⟩ := by rw [← hs]; rfl
  have hfits' := hfits s.tracker rest
  rw [← hreading] at hfits'
  rw [List.append_assoc] at hrest
  obtain ⟨d, ds, hcons, hnext⟩ := step_of_fits hfits' hrest
  have hafter : (absorb s l (text ++ rest)).reading.layers = b := by
    rw [reading_absorb, hreading, hlayers]
  obtain ⟨t, htlayers, htrest, ht⟩ := h _ rest hafter (absorb_rest ..)
  refine ⟨t, htlayers, htrest, ⟨?_, ?_, ?_, ?_⟩⟩
  · rw [run_cons _ hcons, step, hnext, ht.run]
  · rw [ht.out, out_absorb s hfits', List.reverse_append, List.append_assoc]
  · rw [ht.stats, stats_absorb, Stats.add_assoc]
  · rw [ht.faults, hclosed]

/-- A closed lexeme that fits before every text is a passage. -/
theorem lexeme {layers b : List Layer} {l : Lexeme}
    (hfits : ∀ tracker rest, Fits ⟨layers, tracker⟩ l rest)
    (hlayers : ∀ tracker, (Reading.after ⟨layers, tracker⟩ l).layers = b)
    (hclosed : ∀ s rest, (absorb s l rest).faults = s.faults) :
    Passes layers b l.text l.leaves l.counts := by
  have h := @cons layers b b l [] [] {} hfits hlayers hclosed (nil b)
  rwa [List.append_nil, List.append_nil, Stats.add_empty] at h

end Passes

/-! ### Items -/

/-- Whether a line is a directive does not depend on the line feed after it. -/
theorem isDirective_concat {line : List Char} (h : '\n' ∉ line) :
    isDirective (line ++ ['\n']) = isDirective line := by
  rw [← isDirective_takeWhile, (takeWhile_line h []).1]

/-- The kind of place at which code stands. -/
def Context.place : Context → Place
  | .topLevel => .topLevel
  | .interpolation => .interpolation

/-- Whether code of a kind stands directly inside some open layers. -/
def Context.Within : Context → List Layer → Prop
  | .topLevel, layers => layers = []
  | .interpolation, layers => ∃ depth outer, layers = .interpolation (depth + 1) :: outer

theorem Context.place_ne_template (ctx : Context) : ctx.place ≠ .template := by
  cases ctx <;> simp [Context.place]

theorem Context.place_eq_topLevel {ctx : Context} : ctx.place = .topLevel ↔ ctx = .topLevel := by
  cases ctx <;> simp [Context.place]

theorem Context.Within.interpolation (depth : Nat) (outer : List Layer) :
    Context.Within .interpolation (.interpolation (depth + 1) :: outer) := ⟨depth, outer, rfl⟩

theorem Context.Within.place_eq {ctx : Context} {layers : List Layer} (h : ctx.Within layers)
    (tracker : Tracker) : Reading.place ⟨layers, tracker⟩ = ctx.place := by
  cases ctx with
  | topLevel =>
    obtain rfl := h
    rfl
  | interpolation =>
    obtain ⟨depth, outer, rfl⟩ := h
    rfl

theorem Context.Within.place_ne {ctx : Context} {layers : List Layer} (h : ctx.Within layers)
    (tracker : Tracker) : Reading.place ⟨layers, tracker⟩ ≠ .template := by
  rw [h.place_eq]
  exact ctx.place_ne_template

/-- A character that is neither a brace of an interpolation nor the start of anything else
changes nothing that is open. -/
theorem Context.Within.countBrace_eq {ctx : Context} {layers : List Layer} {c : Char}
    (h : ctx.Within layers) (hbrace : ctx = .interpolation → c ≠ '{' ∧ c ≠ '}') :
    Reading.countBrace c layers = layers := by
  cases ctx with
  | topLevel =>
    obtain rfl := h
    rfl
  | interpolation =>
    obtain ⟨depth, outer, rfl⟩ := h
    obtain ⟨hopen, hclose⟩ := hbrace rfl
    rw [Reading.countBrace, if_neg hopen, if_neg hclose]

namespace Passes

variable {ctx : Context} {layers : List Layer}

theorem code {c : Char} (hctx : ctx.Within layers) (hquote : isQuote c = false)
    (htick : c ≠ backtick) (hslash : c ≠ '/') :
    Passes layers (Reading.countBrace c layers) [c] [c] {} := by
  refine lexeme (l := .code c) ?_ (fun _ => rfl) (fun _ _ => rfl)
  intro tracker rest
  exact .code (hctx.place_ne tracker) hquote htick (fun h => absurd h hslash)

theorem quoted {quote : Char} {body : List Char} (hctx : ctx.Within layers)
    (hquote : isQuote quote = true) (hbody : QuotedBody quote body) :
    Passes layers layers (quote :: body ++ [quote]) (quote :: body ++ [quote]) {} := by
  refine lexeme (l := .quoted quote (body ++ [quote]) true) ?_ (fun _ => rfl) (fun _ _ => rfl)
  intro tracker rest
  exact .quoted (hctx.place_ne tracker) hquote hbody (.quote rest)

theorem lineComment {body : List Char} (hctx : ctx.Within layers) (hbody : '\n' ∉ body)
    (hdir : ctx = .topLevel → isDirective ('/' :: '/' :: body) = false) :
    Passes layers layers ('/' :: '/' :: body ++ ['\n']) (terminator body)
      { lineComments := 1 } := by
  have hline : isDirective ('/' :: '/' :: body ++ ['\n']) = isDirective ('/' :: '/' :: body) :=
    isDirective_concat (by simp [hbody])
  have htop : ∀ tracker, Reading.place ⟨layers, tracker⟩ = .topLevel →
      isDirective ('/' :: '/' :: body ++ ['\n']) = false := by
    intro tracker hplace
    rw [hctx.place_eq, Context.place_eq_topLevel] at hplace
    rw [hline, hdir hplace]
  by_cases hret : body.getLast? = some '\r'
  · obtain ⟨front, rfl⟩ := List.getLast?_eq_some_iff.mp hret
    have htext : (Lexeme.lineComment front ['\r', '\n']).text =
        '/' :: '/' :: (front ++ ['\r']) ++ ['\n'] := by simp [Lexeme.text]
    rw [terminator, if_pos hret, ← htext]
    refine lexeme (fun tracker rest => ?_) (fun _ => rfl) (fun _ _ => rfl)
    refine .lineComment (hctx.place_ne tracker) ?_ (.crlf front rest) ?_
    · exact fun hmem => hbody (List.mem_append_left _ hmem)
    · rw [htext]
      exact htop tracker
  · rw [terminator, if_neg hret]
    refine lexeme (l := .lineComment body ['\n']) (fun tracker rest => ?_) (fun _ => rfl)
      (fun _ _ => rfl)
    exact .lineComment (hctx.place_ne tracker) hbody (.feed rest hret) (htop tracker)

theorem blockComment {body : List Char} (hctx : ctx.Within layers)
    (hbody : ¬ ['*', '/'] <:+: body) :
    Passes layers layers ('/' :: '*' :: body ++ ['*', '/'])
      (List.replicate (body.count '\n') '\n') { blockComments := 1 } := by
  have hfeeds : (body ++ ['*', '/']).count '\n' = body.count '\n' := by simp
  rw [← hfeeds]
  refine lexeme (l := .blockComment (body ++ ['*', '/']) true) ?_ (fun _ => rfl) (fun _ _ => rfl)
  intro tracker rest
  exact .blockComment (hctx.place_ne tracker) (.delimited hbody rest)

theorem directive {line : List Char} (hctx : ctx.Within layers) (htop : ctx = .topLevel)
    (hline : '\n' ∉ line) (hdir : isDirective line = true) :
    Passes layers layers (line ++ ['\n']) (line ++ ['\n']) { directives := 1 } := by
  refine lexeme (l := .directive (line ++ ['\n'])) ?_ (fun _ => rfl) (fun _ _ => rfl)
  intro tracker rest
  refine .directive ?_ ?_ (.feed line rest hline)
  · rw [hctx.place_eq, Context.place_eq_topLevel, htop]
  · rw [isDirective_concat hline, hdir]

theorem openBrace (depth : Nat) (outer : List Layer) :
    Passes (.interpolation (depth + 1) :: outer) (.interpolation (depth + 2) :: outer) ['{'] ['{']
      {} :=
  code (.interpolation depth outer) (by decide) (by decide) (by decide)

theorem closeBrace (depth : Nat) (outer : List Layer) :
    Passes (.interpolation (depth + 2) :: outer) (.interpolation (depth + 1) :: outer) ['}'] ['}']
      {} := by
  have h := code (c := '}') (.interpolation (depth + 1) outer) (by decide) (by decide) (by decide)
  rwa [Reading.countBrace, if_neg (by decide), if_pos rfl, if_neg (by omega)] at h

/-- The brace that closes an interpolation is the one at which no other is open in it. -/
theorem closeInterpolation (outer : List Layer) :
    Passes (.interpolation 1 :: outer) outer ['}'] ['}'] {} :=
  code (.interpolation 0 outer) (by decide) (by decide) (by decide)

/-- A passage that a pair of delimiters encloses. -/
theorem enclosed {a b c d : List Layer} {start inner written stop : List Char} {counts : Stats}
    (hopen : Passes a b start start {}) (h : Passes b c inner written counts)
    (hclose : Passes c d stop stop {}) :
    Passes a d (start ++ inner ++ stop) (start ++ written ++ stop) counts := by
  have hall := (hopen.append h).append hclose
  rwa [Stats.empty_add, Stats.add_empty] at hall

theorem openTemplate (hctx : ctx.Within layers) :
    Passes layers (.template :: layers) [backtick] [backtick] {} :=
  lexeme (l := .openTemplate) (fun tracker rest => .openTemplate rest (hctx.place_ne tracker))
    (fun _ => rfl) (fun _ _ => rfl)

theorem closeTemplate (outer : List Layer) :
    Passes (.template :: outer) outer [backtick] [backtick] {} :=
  lexeme (l := .closeTemplate) (fun _ rest => .closeTemplate rest rfl) (fun _ => rfl)
    (fun _ _ => rfl)

theorem openInterpolation (outer : List Layer) :
    Passes (.template :: outer) (.interpolation 1 :: .template :: outer) ['$', '{'] ['$', '{'] {} :=
  lexeme (l := .openInterpolation) (fun _ rest => .openInterpolation rest rfl) (fun _ => rfl)
    (fun _ _ => rfl)

end Passes

end Scan

/-- What follows a dollar sign in the text of a template is no opening brace. -/
theorem head?_renderAll {parts : List Part} (h : ¬ OpensInText (.char '$' :: parts))
    (rest : List Char) :
    (Part.renderAll true parts ++ [backtick] ++ rest).head? ≠ some '{' := by
  cases parts with
  | nil => simp [Part.renderAll, backtick]
  | cons part parts =>
    cases part with
    | escape c => simp [Part.renderAll, Part.render]
    | char c =>
      have hc : c ≠ '{' := fun hbrace => h ⟨rfl, hbrace⟩
      simpa [Part.renderAll, Part.render] using hc
    | interpolation items => simp [Part.renderAll, Part.render]

mutual

/-- A well-formed item is passed, and leaves open what was open. -/
theorem Item.passes {ctx : Context} {layers : List Layer} (hctx : ctx.Within layers) :
    ∀ item : Item, item.WellFormed ctx →
      Passes layers layers (item.render true) (item.render false) item.counts
  | .plain c, h => by
    obtain ⟨hquote, htick, hslash, hbrace⟩ := h
    have hpass := Passes.code hctx hquote htick hslash
    rwa [hctx.countBrace_eq hbrace] at hpass
  | .quoted quote body, h => .quoted hctx h.1 h.2
  | .lineComment body, h => .lineComment hctx h.1 h.2
  | .blockComment body, h => .blockComment hctx h
  | .directive line, h => .directive hctx h.1 h.2.1 h.2.2
  | .group items, h => by
    obtain ⟨rfl, hitems⟩ := h
    obtain ⟨depth, outer, rfl⟩ := hctx
    -- inside the group one more brace is open, so its own one does not close the interpolation
    have hinner := Item.passes_all (.interpolation (depth + 1) outer) items hitems
    exact .enclosed (.openBrace depth outer) hinner (.closeBrace depth outer)
  | .template parts, h => by
    have hparts := (Passes.openTemplate hctx).append (Part.passes_all layers parts h)
    rwa [Stats.empty_add] at hparts

theorem Item.passes_all {ctx : Context} {layers : List Layer} (hctx : ctx.Within layers) :
    ∀ items : List Item, Item.AllWellFormed ctx items →
      Passes layers layers (Item.renderAll true items) (Item.renderAll false items)
        (Item.countsAll items)
  | [], _ => .nil layers
  | item :: items, h => (Item.passes hctx item h.1).append (Item.passes_all hctx items h.2)

/-- The parts of a template are passed together with the mark that closes it, because a dollar
sign is text only before what is not an opening brace. -/
theorem Part.passes_all (outer : List Layer) : ∀ parts : List Part, Part.AllWellFormed parts →
    Passes (.template :: outer) outer (Part.renderAll true parts ++ [backtick])
      (Part.renderAll false parts ++ [backtick]) (Part.countsAll parts)
  | [], _ => .closeTemplate outer
  | .escape c :: parts, h => by
    have hparts := Part.passes_all outer parts h.2.2
    exact .cons (l := .templateText ['\\', c]) (fun _ rest => .escape c _ rfl) (fun _ => rfl)
      (fun _ _ => rfl) hparts
  | .char c :: parts, h => by
    obtain ⟨⟨htick, hesc⟩, hopens, hwf⟩ := h
    have hparts := Part.passes_all outer parts hwf
    refine .cons (l := .templateText [c]) (fun _ rest => ?_) (fun _ => rfl) (fun _ _ => rfl) hparts
    refine .templateText rfl hesc htick ?_
    rintro rfl
    exact head?_renderAll hopens rest
  | .interpolation items :: parts, h => by
    -- the items leave one brace open, and the next one closes the interpolation
    have hinner := Item.passes_all (.interpolation 0 (.template :: outer)) items h.1
    have hpart := Passes.enclosed (.openInterpolation outer) hinner (.closeInterpolation _)
    have hall := hpart.append (Part.passes_all outer parts h.2.2)
    rwa [← List.append_assoc, ← List.append_assoc] at hall

end

/-! ### The scan of well-formed code -/

/-- **Well-formed code loses its comments and nothing else.** However deep its templates and
interpolations are nested, what is left is the code with a line terminator for each line comment
and the line feeds of each block comment; the comments and directives are counted by kind, and
nothing is reported. -/
theorem strip_render (items : List Item) (h : Item.AllWellFormed .topLevel items) :
    strip { jsxComments := false } (String.ofList (Item.renderAll true items)) =
      { text := String.ofList (Item.renderAll false items)
        stats := Item.countsAll items
        diagnostics := [] } := by
  have htop : Context.Within .topLevel [] := rfl
  obtain ⟨t, hlayers, hrest, hadvances⟩ := Item.passes_all htop items h
    { rest := Item.renderAll true items } [] rfl (List.append_nil _).symm
  have hrun : run keepBraces { rest := Item.renderAll true items } = t := by
    rw [hadvances.run, run_nil _ hrest]
  have hframes : t.frames = [] := List.map_eq_nil_iff.mp hlayers
  have hfaults : t.allFaults = [] := by
    rw [State.allFaults, State.openFaults, hadvances.faults, hframes]
    rfl
  simp only [strip, String.toList_ofList, hrun, hfaults, hadvances.out, hadvances.stats,
    Stats.empty_add, List.append_nil, List.reverse_reverse, List.map_nil]

/-- A directive, a string, a comment that ends in a carriage return, and a template whose
interpolation holds a pair of braces, in which a comment with a brace and another template
stand. -/
def nestedItems : List Item :=
  [.directive "///<reference>".toList,
   .quoted '\x22' "\\\x22".toList,
   .lineComment "a\r".toList,
   .template
    [.char '$',
     .interpolation
      [.plain 'f',
       .group
        [.blockComment "\x7d\n".toList,
         .template [.escape backtick, .interpolation [.lineComment "/<reference>`".toList]]]],
     .char '/']]

theorem strip_nestedItems : Item.AllWellFormed .topLevel nestedItems ∧
    strip { jsxComments := false }
      "///<reference>\n\x22\\\x22\x22//a\r\n`$$\x7bf\x7b/*\x7d\n*/`\\`$\x7b///<reference>`\n\x7d`\x7d\x7d/`" =
      { text := "///<reference>\n\x22\\\x22\x22\r\n`$$\x7bf\x7b\n`\\`$\x7b\n\x7d`\x7d\x7d/`"
        stats := { lineComments := 2, blockComments := 1, directives := 1 }
        diagnostics := [] } := by
  have hquoted : QuotedBody '\x22' "\\\x22".toList := .escape '\x22' .nil
  have hplain : Item.WellFormed .interpolation (.plain 'f') :=
    ⟨by decide, by decide, by decide, fun _ => by decide⟩
  have hbody : ¬ ['*', '/'] <:+: "\x7d\n".toList := by decide
  have hgroup : Item.WellFormed .interpolation (.group
      [.blockComment "\x7d\n".toList,
       .template [.escape backtick, .interpolation [.lineComment "/<reference>`".toList]]]) :=
    ⟨rfl, hbody, ⟨trivial, id, ⟨⟨by decide, by decide⟩, trivial⟩, id, trivial⟩, trivial⟩
  have h : Item.AllWellFormed .topLevel nestedItems := by
    refine ⟨⟨rfl, by decide, by decide⟩, ⟨rfl, hquoted⟩, ⟨by decide, by decide⟩, ?_, trivial⟩
    exact ⟨⟨by decide, by decide⟩, id, ⟨hplain, hgroup, trivial⟩, id, ⟨by decide, by decide⟩, id,
      trivial⟩
  exact ⟨h, strip_render nestedItems h⟩

end Uncomment
